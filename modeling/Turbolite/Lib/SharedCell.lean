import Mathlib.Data.List.Basic

/-!
# Turbolite.Lib.SharedCell

A shared cell that is updated by copying it, working on the copy and storing the copy back. Values are
compared field by field, by an equivalence for each field. `NoLost` says that no finished update is
overwritten by one that does not mean to; `NoLost.store` says when a store keeps it.
-/

namespace SharedCell

variable {α φ : Type}

/-- A finished update: when it started, what it loaded and what it stored. -/
structure Update (α : Type) where
  start : Nat
  loaded : α
  stored : α

section

variable (same : φ → α → α → Prop)

/-- The update changed the field. -/
def Update.Changes (u : Update α) (f : φ) : Prop := ¬ same f u.loaded u.stored

/-- Every finished update's effect on a field is in the cell, unless an update of the field that
started later has finished too. -/
def NoLost (finished : List (Update α)) (cell : α) : Prop :=
  ∀ u ∈ finished, ∀ f, u.Changes same f →
    same f u.stored cell ∨ ∃ u' ∈ finished, u.start < u'.start ∧ u'.Changes same f

/-- A store that loses nothing: a field the update does not change is as it was loaded, and no update
that started later has changed a field it does change. -/
def StoreKeeps (finished : List (Update α)) (cell : α) (u : Update α) : Prop :=
  ∀ f, (¬ u.Changes same f → same f u.loaded cell) ∧
    (u.Changes same f → ∀ u' ∈ finished, u'.Changes same f → u'.start < u.start)

end

variable {same : φ → α → α → Prop}

theorem NoLost.nil (cell : α) : NoLost same [] cell := fun _ hu => absurd hu List.not_mem_nil

theorem NoLost.store (hsame : ∀ f, Equivalence (same f)) {finished : List (Update α)} {cell : α}
    (h : NoLost same finished cell) {u : Update α} (hu : StoreKeeps same finished cell u) :
    NoLost same (finished ++ [u]) u.stored := by
  intro x hx f hc
  rcases List.mem_append.mp hx with hx | hx
  · by_cases hcu : u.Changes same f
    · -- the new update replaces the field
      exact .inr ⟨u, List.mem_append_right _ (List.mem_singleton_self u), (hu f).2 hcu x hx hc, hcu⟩
    · rcases h x hx f hc with hin | ⟨y, hy, hlt, hcy⟩
      · left
        have hloaded : same f u.loaded cell := (hu f).1 hcu
        have hstored : same f u.loaded u.stored := not_not.mp hcu
        exact (hsame f).trans hin ((hsame f).trans ((hsame f).symm hloaded) hstored)
      · exact .inr ⟨y, List.mem_append_left _ hy, hlt, hcy⟩
  · rw [List.mem_singleton.mp hx]
    exact .inl ((hsame f).refl _)

/-- An update that starts after every finished one and finds the cell as it loaded it loses nothing. -/
theorem StoreKeeps.of_latest (hsame : ∀ f, Equivalence (same f)) {finished : List (Update α)}
    {u : Update α} (hlast : ∀ u' ∈ finished, u'.start < u.start) :
    StoreKeeps same finished u.loaded u :=
  fun f => ⟨fun _ => (hsame f).refl _, fun _ u' hu' _ => hlast u' hu'⟩

end SharedCell
