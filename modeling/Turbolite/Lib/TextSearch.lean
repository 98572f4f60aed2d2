import Mathlib.Data.List.Infix
import Mathlib.Data.List.DropRight
import Mathlib.Data.Nat.Find

/-!
# Turbolite.Lib.TextSearch

Searching a text for a piece of text, and splitting it at one. What a search finds in a text that was
put together from parts depends on the parts alone when the piece sought and the parts meet at a
separator.
-/

namespace TextSearch

variable {α : Type}

/-! ### Where a piece occurs -/

section Infix

variable {c : α} {n x y A B : List α}

/-- A piece without the separator ends before it or begins behind it. -/
theorem append_eq_around (hc : c ∉ n) {p s : List α} (h : x ++ c :: y = p ++ n ++ s) :
    (∃ m, x = p ++ n ++ m) ∨ ∃ m, p = x ++ c :: m ∧ y = m ++ n ++ s := by
  rw [List.append_assoc] at h
  rcases List.append_eq_append_iff.mp h with ⟨m, hp, hm⟩ | ⟨m, hx, hm⟩
  · cases m with
    | nil =>
      cases n with
      | nil => exact .inl ⟨[], by simpa using hp.symm⟩
      | cons d n =>
        obtain rfl : c = d := (List.cons.inj hm).1
        exact absurd List.mem_cons_self hc
    | cons d m =>
      obtain ⟨rfl, hy⟩ := List.cons.inj hm
      exact .inr ⟨m, hp, by rw [hy, List.append_assoc]; rfl⟩
  · rcases List.append_eq_append_iff.mp hm with ⟨k, hmk, -⟩ | ⟨k, hn, hk⟩
    · exact .inl ⟨k, by rw [hx, hmk, List.append_assoc]⟩
    · cases k with
      | nil => exact .inl ⟨[], by rw [hx, hn]; simp⟩
      | cons d k =>
        obtain rfl : c = d := (List.cons.inj hk).1
        exact absurd (hn ▸ List.mem_append_right m List.mem_cons_self) hc

/-- A piece without the separator stands on one side of it. -/
theorem infix_around (hc : c ∉ n) : n <:+: x ++ c :: y ↔ n <:+: x ∨ n <:+: y := by
  constructor
  · rintro ⟨p, s, h⟩
    rcases append_eq_around hc h.symm with ⟨m, hx⟩ | ⟨m, -, hy⟩
    · exact .inl ⟨p, m, hx.symm⟩
    · exact .inr ⟨m, s, hy.symm⟩
  · rintro (hx | hy)
    · exact hx.trans (List.prefix_append x (c :: y)).isInfix
    · exact hy.trans (List.suffix_append_of_suffix (List.suffix_cons c y)).isInfix

/-- A piece with the separator in its middle stands on one side, or across it. -/
theorem infix_across (hA : c ∉ A) (hB : c ∉ B) :
    A ++ c :: B <:+: x ++ c :: y ↔
      A ++ c :: B <:+: x ∨ A ++ c :: B <:+: y ∨ (A <:+ x ∧ B <+: y) := by
  rw [List.infix_append_iff]
  constructor
  · rintro (hx | hy | ⟨n₁, n₂, heq, hsuf, hpre⟩)
    · exact .inl hx
    · rcases List.infix_cons_iff.mp hy with hpre | hy
      · cases A with
        | nil => exact .inr (.inr ⟨List.nil_suffix, (List.cons_prefix_cons.mp hpre).2⟩)
        | cons d A =>
          obtain rfl : d = c := (List.cons_prefix_cons.mp hpre).1
          exact absurd List.mem_cons_self hA
      · exact .inr (.inl hy)
    · cases n₂ with
      | nil => exact .inl (by rw [heq]; simpa using hsuf.isInfix)
      | cons d n₂ =>
        obtain ⟨rfl, hB'⟩ := List.cons_prefix_cons.mp hpre
        rcases List.append_eq_append_iff.mp heq with ⟨m, hn₁, hm⟩ | ⟨m, hA', hm⟩
        · cases m with
          | nil =>
            simp only [List.append_nil, List.nil_append, List.cons.injEq, true_and] at hn₁ hm
            exact .inr (.inr ⟨hn₁ ▸ hsuf, hm ▸ hB'⟩)
          | cons e m =>
            obtain ⟨rfl, hB''⟩ := List.cons.inj hm
            exact absurd (hB'' ▸ List.mem_append_right m List.mem_cons_self) hB
        · cases m with
          | nil =>
            simp only [List.append_nil, List.nil_append, List.cons.injEq, true_and] at hA' hm
            exact .inr (.inr ⟨hA' ▸ hsuf, hm ▸ hB'⟩)
          | cons e m =>
            obtain ⟨rfl, -⟩ := List.cons.inj hm
            exact absurd (hA' ▸ List.mem_append_right n₁ List.mem_cons_self) hA
  · rintro (hx | hy | ⟨hsuf, hpre⟩)
    · exact .inl hx
    · exact .inr (.inl (List.infix_cons hy))
    · exact .inr (.inr ⟨A, c :: B, rfl, hsuf, List.cons_prefix_cons.mpr ⟨rfl, hpre⟩⟩)

/-- A piece that begins with a separator begins no earlier than the text has one. -/
theorem infix_from (hx : c ∉ x) : c :: B <:+: x ++ y ↔ c :: B <:+: y := by
  induction x with
  | nil => rfl
  | cons d x ih =>
    have hdc : ¬ c :: B <+: d :: (x ++ y) := by
      intro hpre
      obtain rfl : c = d := (List.cons_prefix_cons.mp hpre).1
      exact hx List.mem_cons_self
    rw [List.cons_append, List.infix_cons_iff, ih fun h => hx (List.mem_cons_of_mem d h)]
    exact or_iff_right hdc

/-- Where no piece ends too early, none begins too early. -/
theorem not_prefix_before {p q r s : List α} (h : ¬ n <:+: p ++ n.dropLast) (hp : p = q ++ r)
    (hr : r ≠ []) : ¬ n <+: r ++ (n ++ s) := by
  intro hpre
  have hdrop : r ++ n.dropLast <+: r ++ (n ++ s) :=
    (List.prefix_append_right_inj r).mpr ((List.dropLast_prefix n).trans (List.prefix_append n s))
  have hlen : n.length ≤ (r ++ n.dropLast).length := by
    have hpos := List.length_pos_of_ne_nil hr
    rw [List.length_append, List.length_dropLast]
    omega
  have hcut : n <+: r ++ n.dropLast := List.prefix_of_prefix_length_le hpre hdrop hlen
  rw [hp, List.append_assoc] at h
  exact h (hcut.isInfix.trans (List.suffix_append q _).isInfix)

end Infix

/-! ### The first occurrence -/

variable [DecidableEq α]

/-- The position of the first occurrence. -/
def find (needle text : List α) : Option Nat := (text.dropInfix? needle).map (·.1.length)

section Find

variable {n p s t : List α} {k : Nat}

theorem find_eq_some_iff :
    find n t = some k ↔
      (∃ p s, t = p ++ n ++ s ∧ p.length = k) ∧ ∀ p s, t = p ++ n ++ s → k ≤ p.length := by
  simp only [find, Option.map_eq_some_iff, Prod.exists, List.dropInfix?_eq_some_iff, beq_iff_eq]
  constructor
  · rintro ⟨p, s, ⟨⟨n', ht, rfl⟩, hfirst⟩, rfl⟩
    exact ⟨⟨p, s, ht, rfl⟩, fun p' s' h => hfirst p' n' s' h rfl⟩
  · rintro ⟨⟨p, s, ht, rfl⟩, hfirst⟩
    exact ⟨p, s, ⟨⟨n, ht, rfl⟩, fun p' n' s' h hn => hfirst p' s' (hn ▸ h)⟩, rfl⟩

theorem find_eq_none_iff : find n t = none ↔ ¬ n <:+: t := by
  constructor
  · rintro h ⟨p, s, ht⟩
    classical
    -- of all occurrences there is a first one
    have hex : ∃ k, ∃ p s, t = p ++ n ++ s ∧ p.length = k := ⟨_, p, s, ht.symm, rfl⟩
    have hfirst : find n t = some (Nat.find hex) :=
      find_eq_some_iff.mpr ⟨Nat.find_spec hex, fun p' s' h' => Nat.find_min' hex ⟨p', s', h', rfl⟩⟩
    rw [h] at hfirst
    cases hfirst
  · intro h
    cases hk : find n t with
    | none => rfl
    | some k =>
      obtain ⟨⟨p, s, ht, -⟩, -⟩ := find_eq_some_iff.mp hk
      exact absurd ⟨p, s, ht.symm⟩ h

/-- Nothing ends before the piece does. -/
theorem find_append (h : ¬ n <:+: p ++ n.dropLast) : find n (p ++ n ++ s) = some p.length := by
  refine find_eq_some_iff.mpr ⟨⟨p, s, rfl, rfl⟩, fun p' s' heq => ?_⟩
  rw [List.append_assoc, List.append_assoc] at heq
  rcases List.append_eq_append_iff.mp heq with ⟨r, rfl, -⟩ | ⟨r, hp, hr⟩
  · rw [List.length_append]
    omega
  · cases r with
    | nil => rw [hp, List.append_nil]
    | cons c r =>
      exact absurd ⟨s', hr⟩ (not_prefix_before h hp (List.cons_ne_nil c r))

theorem find_prefix : find n (n ++ s) = some 0 :=
  find_eq_some_iff.mpr ⟨⟨[], s, rfl, rfl⟩, fun _ _ _ => Nat.zero_le _⟩

/-- A first occurrence is no later than a known one. -/
theorem find_le (h : t = p ++ n ++ s) : ∃ k, find n t = some k ∧ k ≤ p.length := by
  cases hk : find n t with
  | none => exact absurd ⟨p, s, h.symm⟩ (find_eq_none_iff.mp hk)
  | some k => exact ⟨k, rfl, (find_eq_some_iff.mp hk).2 p s h⟩

/-- The search goes on behind a separator that the piece has not. -/
theorem find_behind {c : α} {x y : List α} (hc : c ∉ n) (hx : ¬ n <:+: x) :
    find n (x ++ c :: y) = (find n y).map (x.length + 1 + ·) := by
  cases hk : find n y with
  | none =>
    rw [find_eq_none_iff] at hk
    rw [Option.map_none, find_eq_none_iff, infix_around hc]
    exact not_or.mpr ⟨hx, hk⟩
  | some k =>
    obtain ⟨⟨p, s, hy, rfl⟩, hfirst⟩ := find_eq_some_iff.mp hk
    rw [Option.map_some, find_eq_some_iff]
    refine ⟨⟨x ++ c :: p, s, by simp [hy], by simp; omega⟩, fun p' s' h => ?_⟩
    rcases append_eq_around hc h with ⟨m, hxm⟩ | ⟨m, rfl, hm⟩
    · exact absurd ⟨p', m, hxm.symm⟩ hx
    · have hle := hfirst m s' hm
      simp only [List.length_append, List.length_cons]
      omega

end Find

/-! ### Splitting at a piece -/

/-- `skip` characters of a piece just found are left, and `cur` is what stands before the next one. -/
def splitFrom (sep : List α) : Nat → List α → List α → List (List α)
  | _, cur, [] => [cur]
  | skip + 1, cur, _ :: text => splitFrom sep skip cur text
  | 0, cur, c :: text =>
    if sep.isPrefixOf (c :: text) then cur :: splitFrom sep (sep.length - 1) [] text
    else splitFrom sep 0 (cur ++ [c]) text

/-- What stands between the occurrences of a nonempty piece. -/
def split (sep text : List α) : List (List α) := splitFrom sep 0 [] text

section Split

variable {sep cur p t : List α}

theorem splitFrom_skip (u : List α) : splitFrom sep u.length cur (u ++ t) = splitFrom sep 0 cur t := by
  induction u with
  | nil => rfl
  | cons c u ih => rw [List.length_cons, List.cons_append, splitFrom, ih]

theorem splitFrom_append (h : ∀ q r, p = q ++ r → r ≠ [] → ¬ sep <+: r ++ t) :
    splitFrom sep 0 cur (p ++ t) = splitFrom sep 0 (cur ++ p) t := by
  induction p generalizing cur with
  | nil => rw [List.nil_append, List.append_nil]
  | cons c p ih =>
    have hc : ¬ sep.isPrefixOf (c :: (p ++ t)) = true := by
      rw [List.isPrefixOf_iff_prefix]
      exact h [] (c :: p) rfl (List.cons_ne_nil c p)
    rw [List.cons_append, splitFrom, if_neg hc, ih fun q r hp hr => h (c :: q) r (by rw [hp]; rfl) hr,
      List.append_assoc, List.singleton_append]

theorem split_of_not_infix (h : ¬ sep <:+: t) : split sep t = [t] := by
  have happend : splitFrom sep 0 [] (t ++ []) = splitFrom sep 0 ([] ++ t) [] := by
    refine splitFrom_append fun q r ht _ hpre => h ?_
    rw [List.append_nil] at hpre
    rw [ht]
    exact hpre.isInfix.trans (List.suffix_append q r).isInfix
  rwa [List.append_nil, List.nil_append] at happend

theorem split_append (hsep : sep ≠ []) (h : ¬ sep <:+: p ++ sep.dropLast) :
    split sep (p ++ (sep ++ t)) = p :: split sep t := by
  rw [split, splitFrom_append fun q r hp hr => not_prefix_before h hp hr, List.nil_append]
  obtain ⟨c, u, rfl⟩ := List.exists_cons_of_ne_nil hsep
  have hpre : (c :: u).isPrefixOf (c :: (u ++ t)) = true :=
    List.isPrefixOf_iff_prefix.mpr ⟨t, rfl⟩
  rw [List.cons_append, splitFrom, if_pos hpre, List.length_cons, Nat.add_sub_cancel,
    splitFrom_skip, split]

end Split

/-! ### The last occurrence of a character -/

/-- The position of the last occurrence. -/
def rfind (c : α) (text : List α) : Option Nat :=
  (text.reverse.idxOf? c).map fun k => text.length - 1 - k

theorem rfind_of_notMem {c : α} {t : List α} (h : c ∉ t) : rfind c t = none := by
  rw [rfind, List.idxOf?_eq_none_iff.mpr (by simpa using h), Option.map_none]

theorem idxOf?_append {c : α} {x y : List α} (h : c ∉ x) : (x ++ c :: y).idxOf? c = some x.length := by
  induction x with
  | nil => simp [List.idxOf?_cons]
  | cons d x ih =>
    have hdc : d ≠ c := by
      rintro rfl
      exact h List.mem_cons_self
    have hx : c ∉ x := fun hmem => h (List.mem_cons_of_mem d hmem)
    simp [List.idxOf?_cons, hdc, ih hx]

theorem rfind_append {c : α} {x y : List α} (h : c ∉ y) : rfind c (x ++ c :: y) = some x.length := by
  have hrev : (x ++ c :: y).reverse = y.reverse ++ c :: x.reverse := by simp
  have hmem : c ∉ y.reverse := by simpa using h
  rw [rfind, hrev, idxOf?_append hmem, Option.map_some, List.length_append, List.length_cons,
    List.length_reverse]
  congr 1
  omega

/-! ### Words -/

section Words

variable {p : α → Bool}

/-- The pieces between the blanks, without the empty ones. -/
def words (p : α → Bool) (text : List α) : List (List α) :=
  (text.splitOnP p).filter fun w => !w.isEmpty

omit [DecidableEq α] in
theorem words_of_word {w : List α} (hne : w ≠ []) (hw : ∀ c ∈ w, p c = false) : words p w = [w] := by
  rw [words, List.splitOnP_eq_singleton hw]
  cases w with
  | nil => exact absurd rfl hne
  | cons c w => rfl

omit [DecidableEq α] in
theorem words_append {w t : List α} {b : α} (hne : w ≠ []) (hw : ∀ c ∈ w, p c = false)
    (hb : p b = true) : words p (w ++ b :: t) = w :: words p t := by
  rw [words, List.splitOnP_append_cons_of_forall_mem hw b hb]
  cases w with
  | nil => exact absurd rfl hne
  | cons c w => rfl

omit [DecidableEq α] in
/-- A text that begins without a blank begins with a word. -/
theorem exists_words_cons {c : α} (t : List α) (hc : p c = false) :
    ∃ w ws, words p (c :: t) = (c :: w) :: ws := by
  obtain ⟨v, vs, hvs⟩ := List.exists_cons_of_ne_nil (List.splitOnP_ne_nil p t)
  refine ⟨v, vs.filter fun w => !w.isEmpty, ?_⟩
  rw [words, List.splitOnP_cons_eq_if_modifyHead, if_neg (by simp [hc]), hvs, List.modifyHead_cons]
  rfl

omit [DecidableEq α] in
theorem exists_mem_splitOnP {c : α} {t : List α} (hc : c ∈ t) (hp : p c = false) :
    ∃ w ∈ t.splitOnP p, c ∈ w := by
  induction t with
  | nil => cases hc
  | cons a t ih =>
    rw [List.splitOnP_cons_eq_if_modifyHead]
    by_cases ha : p a = true
    · rw [if_pos ha]
      have hct : c ∈ t := by
        rcases List.mem_cons.mp hc with rfl | hct
        · rw [hp] at ha
          cases ha
        · exact hct
      obtain ⟨w, hw, hcw⟩ := ih hct
      exact ⟨w, List.mem_cons_of_mem [] hw, hcw⟩
    · rw [if_neg ha]
      obtain ⟨v, vs, hvs⟩ := List.exists_cons_of_ne_nil (List.splitOnP_ne_nil p t)
      rw [hvs, List.modifyHead_cons]
      rcases List.mem_cons.mp hc with rfl | hct
      · exact ⟨c :: v, List.mem_cons_self, List.mem_cons_self⟩
      · obtain ⟨w, hw, hcw⟩ := ih hct
        rw [hvs] at hw
        rcases List.mem_cons.mp hw with rfl | hw
        · exact ⟨a :: w, List.mem_cons_self, List.mem_cons_of_mem a hcw⟩
        · exact ⟨w, List.mem_cons_of_mem _ hw, hcw⟩

omit [DecidableEq α] in
/-- What is not blank stands in a word. -/
theorem exists_mem_words {c : α} {t : List α} (hc : c ∈ t) (hp : p c = false) :
    ∃ w ∈ words p t, c ∈ w := by
  obtain ⟨w, hw, hcw⟩ := exists_mem_splitOnP hc hp
  refine ⟨w, List.mem_filter.mpr ⟨hw, ?_⟩, hcw⟩
  cases w with
  | nil => cases hcw
  | cons d w => rfl

end Words

end TextSearch
