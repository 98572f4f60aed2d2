import Mathlib.Algebra.Ring.Nat
import Mathlib.Data.List.Basic

/-!
# Turbolite.Lib.Agents

Concurrent agents as a list of what each of them is doing. A step moves one agent; how many agents are
in phases of a kind then changes by that one.
-/

namespace Agents

variable {α : Type*} {l : List α} {i : Nat} {x a : α}

theorem lt_of_getElem?_eq_some (h : l[i]? = some x) : i < l.length :=
  (List.getElem?_eq_some_iff.mp h).1

/-- An agent of the kind is counted. -/
theorem toNat_le_countP (h : l[i]? = some x) (p : α → Bool) : (p x).toNat ≤ l.countP p := by
  cases hx : p x with
  | false => exact Nat.zero_le _
  | true => exact List.countP_pos_iff.mpr ⟨x, List.mem_of_getElem? h, hx⟩

theorem ite_eq_toNat (b : Bool) : (if b = true then 1 else 0) = b.toNat := by
  cases b <;> rfl

theorem countP_set_add (h : l[i]? = some x) (a : α) (p : α → Bool) :
    (l.set i a).countP p + (p x).toNat = l.countP p + (p a).toNat := by
  obtain ⟨hlt, rfl⟩ := List.getElem?_eq_some_iff.mp h
  have hle := toNat_le_countP h p
  rw [List.countP_set hlt, ite_eq_toNat, ite_eq_toNat]
  omega

theorem countP_eraseIdx_add (h : l[i]? = some x) (p : α → Bool) :
    (l.eraseIdx i).countP p + (p x).toNat = l.countP p := by
  induction l generalizing i with
  | nil => cases h
  | cons y l ih =>
    cases i with
    | zero =>
      cases h
      rw [List.eraseIdx_cons_zero, List.countP_cons, ite_eq_toNat]
    | succ i =>
      have hl := ih h
      rw [List.eraseIdx_cons_succ, List.countP_cons, List.countP_cons]
      omega

theorem countP_append_singleton (l : List α) (a : α) (p : α → Bool) :
    (l ++ [a]).countP p = l.countP p + (p a).toNat := by
  rw [List.countP_append, List.countP_singleton, ite_eq_toNat]

/-- The weights of the agents after one of them has moved. -/
theorem sum_map_set_add (h : l[i]? = some x) (a : α) (f : α → Nat) :
    ((l.set i a).map f).sum + f x = (l.map f).sum + f a := by
  induction l generalizing i with
  | nil => cases h
  | cons y l ih =>
    cases i with
    | zero =>
      cases h
      rw [List.set_cons_zero, List.map_cons, List.map_cons, List.sum_cons, List.sum_cons]
      omega
    | succ i =>
      have hl := ih h
      rw [List.set_cons_succ, List.map_cons, List.map_cons, List.sum_cons, List.sum_cons]
      omega

/-- What is in at most one of the lists is shared by no two of them. -/
theorem pairwise_disjoint_of_countP {β : Type*} [DecidableEq β] {xss : List (List β)}
    (h : ∀ b, xss.countP (fun xs => decide (b ∈ xs)) ≤ 1) : xss.Pairwise List.Disjoint := by
  induction xss with
  | nil => exact List.Pairwise.nil
  | cons xs xss ih =>
    refine List.Pairwise.cons ?_ (ih fun b => ?_)
    · intro ys hys b hxs hb
      have hrest : 0 < xss.countP fun xs => decide (b ∈ xs) :=
        List.countP_pos_iff.mpr ⟨ys, hys, decide_eq_true hb⟩
      have hle := h b
      simp only [List.countP_cons, hxs, decide_true, if_true] at hle
      omega
    · have hle := h b
      rw [List.countP_cons] at hle
      omega

/-- A phase that is there after a move was there before, or is the new one. -/
theorem mem_of_mem_set {y : α} (h : y ∈ l.set i a) (hne : y ≠ a) : y ∈ l :=
  (List.mem_or_eq_of_mem_set h).resolve_right hne

end Agents
