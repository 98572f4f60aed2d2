import Mathlib.Logic.Function.Basic

/-!
# Turbolite.Lib.LockFile

A lock file. Openers look the file up by its name, an exclusive advisory lock belongs to the file that
was opened and to the descriptor that took it, and the name can be unlinked while the file is open. Two
descriptors exclude each other as long as they have the same file open, so the lock guards the name
exactly as long as every locked file is the one the name stands for (`Anchored`).
-/

namespace LockFile

/-- Files and descriptors are numbered; a removed file keeps its number. -/
structure Files where
  /-- the file of the name -/
  named : Option Nat := none
  /-- the file a descriptor has open -/
  file : Nat → Option Nat := fun _ => none
  /-- the descriptor that holds the lock of a file -/
  owner : Nat → Option Nat := fun _ => none
  /-- the next file to be created -/
  next : Nat := 0

namespace Files

/-- `open` with `O_CREAT`. -/
def openOrCreate (f : Files) (d : Nat) : Files :=
  match f.named with
  | some i => { f with file := Function.update f.file d (some i) }
  | none =>
    { f with
      named := some f.next
      file := Function.update f.file d (some f.next)
      next := f.next + 1 }

/-- A non-blocking exclusive lock; `none` when another descriptor holds it. -/
def tryLock (f : Files) (d : Nat) : Option Files :=
  (f.file d).bind fun i =>
    match f.owner i with
    | none => some { f with owner := Function.update f.owner i (some d) }
    | some _ => none

/-- Give the lock of a descriptor back. -/
def unlock (f : Files) (d : Nat) : Files :=
  { f with owner := fun i => if f.owner i = some d then none else f.owner i }

/-- Close a descriptor; its lock goes with it. -/
def close (f : Files) (d : Nat) : Files :=
  { f.unlock d with file := Function.update f.file d none }

/-- Remove the name. -/
def unlink (f : Files) : Files := { f with named := none }

/-- A descriptor holds the lock of the file it has open. -/
def Holds (f : Files) (d : Nat) : Prop := ∃ i, f.file d = some i ∧ f.owner i = some d

/-- Files that were not created are neither named nor open nor locked, and a lock is held through an
open descriptor. -/
structure Sound (f : Files) : Prop where
  named_lt : ∀ i, f.named = some i → i < f.next
  file_lt : ∀ d i, f.file d = some i → i < f.next
  owner_file : ∀ i d, f.owner i = some d → f.file d = some i

/-- Every locked file is the one the name stands for. -/
def Anchored (f : Files) : Prop := ∀ i d, f.owner i = some d → f.named = some i

/-- The lock of an anchored file has one holder. -/
theorem Anchored.sole {f : Files} (h : f.Anchored) {d e : Nat} (hd : f.Holds d) (he : f.Holds e) :
    d = e := by
  obtain ⟨i, -, hi⟩ := hd
  obtain ⟨j, -, hj⟩ := he
  have hij : i = j := Option.some.inj ((h i d hi).symm.trans (h j e hj))
  subst hij
  exact Option.some.inj (hi.symm.trans hj)

theorem sound_init : ({} : Files).Sound := ⟨by simp, by simp, by simp⟩

theorem anchored_init : ({} : Files).Anchored := by simp [Anchored]

section

variable {f f' : Files} {d e : Nat}

/-! ### What each call keeps -/

theorem owner_unlock {i : Nat} : (f.unlock d).owner i = some e ↔ f.owner i = some e ∧ e ≠ d := by
  unfold unlock
  dsimp only
  split
  · rename_i h
    rw [h]
    simp only [reduceCtorEq, Option.some.injEq, false_iff]
    exact fun hde => hde.2 hde.1.symm
  · rename_i h
    constructor
    · intro he
      exact ⟨he, fun hed => h (hed ▸ he)⟩
    · exact fun he => he.1

theorem Sound.openOrCreate (h : f.Sound) (hd : f.file d = none) : (f.openOrCreate d).Sound := by
  -- the descriptor was closed, so it holds no lock
  have howner : ∀ i e, f.owner i = some e → e ≠ d := by
    intro i e he hed
    have := h.owner_file i e he
    rw [hed, hd] at this
    cases this
  unfold Files.openOrCreate
  cases hnamed : f.named with
  | some i =>
    exact
      { named_lt := by simpa [hnamed] using h.named_lt
        file_lt := by
          intro e j hj
          simp only [Function.update_apply] at hj
          split at hj
          · cases hj
            exact h.named_lt i hnamed
          · exact h.file_lt e j hj
        owner_file := by
          intro j e he
          simp only [Function.update_apply, if_neg (howner j e he)]
          exact h.owner_file j e he }
  | none =>
    exact
      { named_lt := by simp
        file_lt := by
          intro e j hj
          simp only [Function.update_apply] at hj
          split at hj
          · cases hj
            exact Nat.lt_succ_self _
          · exact Nat.lt_succ_of_lt (h.file_lt e j hj)
        owner_file := by
          intro j e he
          simp only [Function.update_apply, if_neg (howner j e he)]
          exact h.owner_file j e he }

theorem Anchored.openOrCreate (h : f.Anchored) : (f.openOrCreate d).Anchored := by
  unfold Files.openOrCreate
  cases hnamed : f.named with
  | some i => simpa [Anchored, hnamed] using h
  | none =>
    -- nothing is locked when there is no name
    intro i e he
    have := h i e he
    rw [hnamed] at this
    cases this

theorem tryLock_inv (h : f.tryLock d = some f') : ∃ i, f.file d = some i ∧ f.owner i = none ∧
    f' = { f with owner := Function.update f.owner i (some d) } := by
  unfold tryLock at h
  obtain ⟨i, hi, h⟩ := Option.bind_eq_some_iff.mp h
  cases howner : f.owner i with
  | some e => simp [howner] at h
  | none =>
    simp only [howner, Option.some.injEq] at h
    exact ⟨i, hi, howner, h.symm⟩

theorem Sound.tryLock (h : f.Sound) (hl : f.tryLock d = some f') : f'.Sound := by
  obtain ⟨i, hi, -, rfl⟩ := tryLock_inv hl
  exact
    { named_lt := h.named_lt
      file_lt := h.file_lt
      owner_file := by
        intro j e he
        simp only [Function.update_apply] at he
        split at he
        · rename_i hji
          cases he
          rw [hji]
          exact hi
        · exact h.owner_file j e he }

/-- A lock is anchored when the file it is taken on has the name. -/
theorem Anchored.tryLock (h : f.Anchored) (hl : f.tryLock d = some f') (hname : f.file d = f.named) :
    f'.Anchored := by
  obtain ⟨i, hi, -, rfl⟩ := tryLock_inv hl
  intro j e he
  simp only [Function.update_apply] at he
  split at he
  · rename_i hji
    rw [hji, ← hi]
    exact hname.symm
  · exact h j e he

theorem holds_tryLock (hl : f.tryLock d = some f') : f'.Holds d := by
  obtain ⟨i, hi, -, rfl⟩ := tryLock_inv hl
  exact ⟨i, hi, by simp⟩

theorem Holds.tryLock (h : f.Holds e) (hl : f.tryLock d = some f') : f'.Holds e := by
  obtain ⟨i, hi, hfree, rfl⟩ := tryLock_inv hl
  obtain ⟨j, hj, hown⟩ := h
  have hne : j ≠ i := by
    intro hji
    rw [hji, hfree] at hown
    cases hown
  exact ⟨j, hj, by simpa [Function.update_apply, hne] using hown⟩

theorem Holds.openOrCreate (h : f.Holds e) (hne : e ≠ d) : (f.openOrCreate d).Holds e := by
  obtain ⟨i, hi, hown⟩ := h
  unfold Files.openOrCreate
  cases f.named with
  | some j => exact ⟨i, by simpa [Function.update_apply, hne] using hi, hown⟩
  | none => exact ⟨i, by simpa [Function.update_apply, hne] using hi, hown⟩

theorem Sound.unlock (h : f.Sound) : (f.unlock d).Sound where
  named_lt := h.named_lt
  file_lt := h.file_lt
  owner_file i e he := h.owner_file i e (owner_unlock.mp he).1

theorem Anchored.unlock (h : f.Anchored) : (f.unlock d).Anchored :=
  fun i e he => h i e (owner_unlock.mp he).1

theorem Holds.unlock (h : f.Holds e) (hne : e ≠ d) : (f.unlock d).Holds e := by
  obtain ⟨i, hi, hown⟩ := h
  exact ⟨i, hi, owner_unlock.mpr ⟨hown, hne⟩⟩

theorem Sound.close (h : f.Sound) : (f.close d).Sound where
  named_lt := h.named_lt
  file_lt e i hi := by
    simp only [Files.close, Function.update_apply] at hi
    split at hi
    · cases hi
    · exact h.file_lt e i hi
  owner_file i e he := by
    have hown := owner_unlock.mp he
    simp only [Files.close, Function.update_apply, if_neg hown.2]
    exact h.owner_file i e hown.1

theorem Anchored.close (h : f.Anchored) : (f.close d).Anchored :=
  fun i e he => h i e (owner_unlock.mp he).1

theorem Holds.close (h : f.Holds e) (hne : e ≠ d) : (f.close d).Holds e := by
  obtain ⟨i, hi, hown⟩ := h
  exact ⟨i, by simpa [Files.close, Function.update_apply, hne] using hi,
    owner_unlock.mpr ⟨hown, hne⟩⟩

theorem Sound.unlink (h : f.Sound) : f.unlink.Sound where
  named_lt := by simp [Files.unlink]
  file_lt := h.file_lt
  owner_file := h.owner_file

/-- The name may go when nobody holds a lock. -/
theorem Anchored.unlink (hfree : ∀ i, f.owner i = none) : f.unlink.Anchored := by
  intro i e he
  rw [show f.unlink.owner i = f.owner i from rfl, hfree i] at he
  cases he

end

end Files

end LockFile
