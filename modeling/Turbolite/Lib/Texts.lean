import Mathlib.Data.List.Basic

/-!
# Turbolite.Lib.Texts

Texts that a program builds from fields: decimal numbers, and fields behind a separator that they do
not contain. Both can be taken apart again.
-/

namespace Texts

/-! ### Decimal numbers -/

theorem nat_repr_inj {m n : Nat} (h : m.repr = n.repr) : m = n := by
  have hdigits : Nat.toDigits 10 m = Nat.toDigits 10 n := by
    rw [← Nat.toList_repr, h, Nat.toList_repr]
  rw [← Nat.ofDigitChars_ten_toDigits (n := m), hdigits, Nat.ofDigitChars_ten_toDigits]

theorem isDigit_of_mem_repr {n : Nat} {c : Char} (h : c ∈ n.repr.toList) : c.isDigit = true := by
  rw [Nat.toList_repr] at h
  exact Nat.isDigit_of_mem_toDigits (by decide) (by decide) h

theorem isDigit_of_mem_int_repr {a : Int} {c : Char} (h : c ∈ a.repr.toList) :
    c.isDigit = true ∨ c = '-' := by
  rw [Int.repr_eq_if] at h
  split at h
  · exact .inl (isDigit_of_mem_repr h)
  · rw [String.toList_append, List.mem_append] at h
    cases h with
    | inl hsign => exact .inr (by simpa using hsign)
    | inr hdigit => exact .inl (isDigit_of_mem_repr hdigit)

/-- A numeral has no sign. -/
theorem minus_append_ne_repr {s : String} {n : Nat} : "-" ++ s ≠ n.repr := by
  intro h
  have hmem : '-' ∈ n.repr.toList := by
    rw [← h]
    simp
  have hdigit := isDigit_of_mem_repr hmem
  revert hdigit
  decide

theorem int_repr_inj {a b : Int} (h : a.repr = b.repr) : a = b := by
  rw [Int.repr_eq_if, Int.repr_eq_if] at h
  split at h
  · split at h
    · have hnat := nat_repr_inj h
      omega
    · exact absurd h.symm minus_append_ne_repr
  · split at h
    · exact absurd h minus_append_ne_repr
    · have hlist := congrArg String.toList h
      simp only [String.toList_append, List.append_cancel_left_eq, String.toList_inj] at hlist
      have hnat := nat_repr_inj hlist
      omega

/-! ### Separated fields -/

/-- The last field behind a separator and what stands before it are determined. -/
theorem append_sep_inj {α : Type} {c : α} {xs ys u v : List α} (hu : c ∉ u) (hv : c ∉ v)
    (h : xs ++ c :: u = ys ++ c :: v) : xs = ys ∧ u = v := by
  induction xs generalizing ys with
  | nil =>
    cases ys with
    | nil => exact ⟨rfl, by simpa using h⟩
    | cons y ys =>
      simp only [List.nil_append, List.cons_append, List.cons.injEq] at h
      exact absurd (h.2 ▸ List.mem_append_right ys List.mem_cons_self) hu
  | cons x xs ih =>
    cases ys with
    | nil =>
      simp only [List.nil_append, List.cons_append, List.cons.injEq] at h
      exact absurd (h.2 ▸ List.mem_append_right xs List.mem_cons_self) hv
    | cons y ys =>
      simp only [List.cons_append, List.cons.injEq] at h
      obtain ⟨hxy, hrest⟩ := ih h.2
      exact ⟨by rw [h.1, hxy], hrest⟩

/-- The same for strings. -/
theorem append_field_inj {c : Char} {s t u v : String} (hu : c ∉ u.toList) (hv : c ∉ v.toList)
    (h : s ++ String.singleton c ++ u = t ++ String.singleton c ++ v) : s = t ∧ u = v := by
  have hlist := congrArg String.toList h
  simp only [String.toList_append, String.toList_singleton, List.append_assoc,
    List.singleton_append] at hlist
  obtain ⟨hst, huv⟩ := append_sep_inj hu hv hlist
  exact ⟨String.toList_inj.mp hst, String.toList_inj.mp huv⟩

end Texts
