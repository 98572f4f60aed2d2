import Mathlib.Data.List.Basic
import Mathlib.Data.Set.Insert

/-!
# Turbolite.Lib.RangeLocks

Advisory byte-range locks that belong to a process. A process converts or gives up its own locks at
will, and only other processes are in its way. A *guard* is what one owner inside a process believes it
has locked; the operating system knows nothing of owners, so a guard is worth something only while it
is *backed* by a lock of its process. `Guarded` is the invariant of a set of guards over a table, and
`Guarded.take` and `Guarded.drop` say when an owner may lock and unlock.
-/

namespace RangeLocks

/-- A lock excludes all others or the exclusive ones alone. -/
inductive Mode where
  | shared
  | exclusive
  deriving DecidableEq

/-- A range of bytes of the file. -/
structure Range where
  start : Nat
  len : Nat
  deriving DecidableEq

instance : Membership Nat Range := ⟨fun r b => r.start ≤ b ∧ b < r.start + r.len⟩

instance (b : Nat) (r : Range) : Decidable (b ∈ r) := inferInstanceAs (Decidable (_ ∧ _))

theorem Range.mem_iff {b : Nat} {r : Range} : b ∈ r ↔ r.start ≤ b ∧ b < r.start + r.len := .rfl

/-- The ranges have a byte in common. -/
def Range.Overlaps (r r' : Range) : Prop := ∃ b, b ∈ r ∧ b ∈ r'

theorem Range.Overlaps.symm {r r' : Range} (h : r.Overlaps r') : r'.Overlaps r :=
  let ⟨b, hb, hb'⟩ := h
  ⟨b, hb', hb⟩

theorem Range.overlaps_self {r : Range} (h : 0 < r.len) : r.Overlaps r :=
  have hb : r.start ∈ r := ⟨Nat.le_refl _, Nat.lt_add_of_pos_right h⟩
  ⟨r.start, hb, hb⟩

/-- The processes that hold each byte. -/
abbrev Table (P : Type) := Nat → List (P × Mode)

namespace Table

variable {P : Type} [DecidableEq P]

/-- No other process holds a byte of the range in a mode that is in the way. -/
def Grants (t : Table P) (p : P) (m : Mode) (r : Range) : Prop :=
  ∀ i < r.len, ∀ e ∈ t (r.start + i), e.1 = p ∨ m = .shared ∧ e.2 = .shared

instance (t : Table P) (p : P) (m : Mode) (r : Range) : Decidable (t.Grants p m r) :=
  inferInstanceAs (Decidable (∀ i < r.len, ∀ e ∈ t (r.start + i), _))

/-- The process gives up its locks on the range. -/
def unlock (t : Table P) (p : P) (r : Range) : Table P := fun b =>
  if b ∈ r then (t b).filter fun e => decide (e.1 ≠ p) else t b

/-- The range is locked; a lock the process had there is converted. -/
def lock (t : Table P) (p : P) (m : Mode) (r : Range) : Table P := fun b =>
  if b ∈ r then (p, m) :: (t b).filter fun e => decide (e.1 ≠ p) else t b

/-- The table with the lock, if no other process stands against it. -/
def tryLock (t : Table P) (p : P) (m : Mode) (r : Range) : Option (Table P) :=
  if t.Grants p m r then some (t.lock p m r) else none

/-- The process gives up everything, as when it closes any descriptor of the file. -/
def closeFile (t : Table P) (p : P) : Table P := fun b => (t b).filter fun e => decide (e.1 ≠ p)

/-- An exclusive holder of a byte is its only one, and a process has one entry. -/
structure Sound (t : Table P) : Prop where
  exclusive : ∀ b p e, (p, Mode.exclusive) ∈ t b → e ∈ t b → e.1 = p
  single : ∀ b p m m', (p, m) ∈ t b → (p, m') ∈ t b → m = m'

variable {t : Table P} {p : P} {m : Mode} {r : Range} {b : Nat} {e : P × Mode}

omit [DecidableEq P] in
theorem grants_iff : t.Grants p m r ↔
    ∀ b ∈ r, ∀ e ∈ t b, e.1 = p ∨ m = .shared ∧ e.2 = .shared := by
  constructor
  · rintro h b ⟨hle, hlt⟩ e he
    refine h (b - r.start) (by omega) e ?_
    rwa [Nat.add_sub_cancel' hle]
  · intro h i hi e he
    exact h _ ⟨Nat.le_add_right _ _, Nat.add_lt_add_left hi _⟩ e he

theorem mem_unlock : e ∈ t.unlock p r b ↔ e ∈ t b ∧ (b ∈ r → e.1 ≠ p) := by
  unfold unlock
  split
  · rename_i hb
    simp [hb]
  · rename_i hb
    simp [hb]

theorem mem_lock : e ∈ t.lock p m r b ↔ b ∈ r ∧ e = (p, m) ∨ e ∈ t b ∧ (b ∈ r → e.1 ≠ p) := by
  unfold lock
  split
  · rename_i hb
    simp [hb]
  · rename_i hb
    simp [hb]

theorem mem_closeFile : e ∈ t.closeFile p b ↔ e ∈ t b ∧ e.1 ≠ p := by
  simp [closeFile]

omit [DecidableEq P] in
/-- Fewer entries. -/
theorem Sound.mono {t' : Table P} (h : t.Sound) (hsub : ∀ b e, e ∈ t' b → e ∈ t b) : t'.Sound where
  exclusive b p e hp he := h.exclusive b p e (hsub b _ hp) (hsub b _ he)
  single b p m m' hp he := h.single b p m m' (hsub b _ hp) (hsub b _ he)

omit [DecidableEq P] in
theorem sound_empty : Sound (fun _ => [] : Table P) where
  exclusive _ _ _ h := absurd h List.not_mem_nil
  single _ _ _ _ h := absurd h List.not_mem_nil

theorem Sound.lock (h : t.Sound) (hg : t.Grants p m r) : (t.lock p m r).Sound := by
  rw [grants_iff] at hg
  refine ⟨fun b q e hq he => ?_, fun b q m₁ m₂ h₁ h₂ => ?_⟩
  · rcases mem_lock.mp hq with ⟨hb, hpm⟩ | ⟨hq, hne⟩
    · cases hpm
      rcases mem_lock.mp he with ⟨-, rfl⟩ | ⟨he, -⟩
      · rfl
      · rcases hg b hb e he with heq | ⟨hmode, -⟩
        · exact heq
        · cases hmode
    · rcases mem_lock.mp he with ⟨hb, rfl⟩ | ⟨he, -⟩
      · rcases hg b hb _ hq with heq | ⟨-, hmode⟩
        · exact absurd heq (hne hb)
        · cases hmode
      · exact h.exclusive b q e hq he
  · rcases mem_lock.mp h₁ with ⟨hb, hpm⟩ | ⟨h₁, hne₁⟩
    · cases hpm
      rcases mem_lock.mp h₂ with ⟨-, hpm⟩ | ⟨-, hne⟩
      · cases hpm
        rfl
      · exact absurd rfl (hne hb)
    · rcases mem_lock.mp h₂ with ⟨hb, hpm⟩ | ⟨h₂, -⟩
      · cases hpm
        exact absurd rfl (hne₁ hb)
      · exact h.single b q m₁ m₂ h₁ h₂

end Table

/-! ### Guards -/

/-- A lock that is held. -/
structure Guard where
  mode : Mode
  range : Range
  deriving DecidableEq

/-- Two guards that cannot both be right. -/
def Guard.Conflicts (g g' : Guard) : Prop :=
  g.range.Overlaps g'.range ∧ (g.mode = .exclusive ∨ g'.mode = .exclusive)

theorem Guard.Conflicts.symm {g g' : Guard} (h : g.Conflicts g') : g'.Conflicts g :=
  ⟨h.1.symm, h.2.symm⟩

/-- The process has what the guard stands for. -/
def Guard.Backed {P : Type} (t : Table P) (p : P) (g : Guard) : Prop :=
  ∀ b ∈ g.range, ∃ m, (p, m) ∈ t b ∧ (g.mode = .exclusive → m = .exclusive)

section Guarded

variable {P O : Type} [DecidableEq P]

/-- Every guard is backed, and no two owners of a process have conflicting guards. -/
structure Guarded (proc : O → P) (t : Table P) (held : O → Set Guard) : Prop where
  sound : t.Sound
  backed : ∀ o, ∀ g ∈ held o, g.Backed t (proc o)
  apart : ∀ o o', o ≠ o' → proc o = proc o' → ∀ g ∈ held o, ∀ g' ∈ held o', ¬ g.Conflicts g'

variable {proc : O → P} {t : Table P} {held : O → Set Guard}

omit [DecidableEq P] in
theorem guarded_empty : Guarded proc (fun _ => []) (fun _ : O => ∅) where
  sound := Table.sound_empty
  backed _ _ h := absurd h (Set.notMem_empty _)
  apart _ _ _ _ _ h := absurd h (Set.notMem_empty _)

/-- Guards of two owners never conflict, whichever processes these are in. -/
theorem Guarded.exclusion (h : Guarded proc t held) {o o' : O} (hne : o ≠ o') {g g' : Guard}
    (hg : g ∈ held o) (hg' : g' ∈ held o') : ¬ g.Conflicts g' := by
  by_cases hp : proc o = proc o'
  · exact h.apart o o' hne hp g hg g' hg'
  rintro ⟨⟨b, hb, hb'⟩, hmode⟩
  obtain ⟨m, hm, hex⟩ := h.backed o g hg b hb
  obtain ⟨m', hm', hex'⟩ := h.backed o' g' hg' b hb'
  rcases hmode with hmode | hmode
  · cases hex hmode
    exact hp (h.sound.exclusive b _ _ hm hm').symm
  · cases hex' hmode
    exact hp (h.sound.exclusive b _ _ hm' hm)

/-- An owner locks: the lock is granted, nobody in the process has a guard that conflicts with it, and
the conversion does not weaken a guard of its own. -/
theorem Guarded.take [DecidableEq O] (h : Guarded proc t held) {o : O} {g : Guard}
    (hg : t.Grants (proc o) g.mode g.range)
    (hapart : ∀ o', o' ≠ o → proc o' = proc o → ∀ g' ∈ held o', ¬ g.Conflicts g')
    (hown : ∀ g' ∈ held o, g.range.Overlaps g'.range → g.mode = .exclusive ∨ g'.mode = .shared) :
    Guarded proc (t.lock (proc o) g.mode g.range)
      (Function.update held o (insert g (held o))) := by
  have hkeep : ∀ o' g', g' ∈ held o' → g'.Backed (t.lock (proc o) g.mode g.range) (proc o') := by
    intro o' g' hg' b hb
    obtain ⟨m, hm, hex⟩ := h.backed o' g' hg' b hb
    by_cases hin : b ∈ g.range ∧ proc o' = proc o
    · obtain ⟨hin, hp⟩ := hin
      refine ⟨g.mode, Table.mem_lock.mpr (.inl ⟨hin, by rw [hp]⟩), fun hmode => ?_⟩
      -- an exclusive guard under the new lock is the owner's own
      by_cases ho : o' = o
      · subst ho
        rcases hown g' hg' ⟨b, hin, hb⟩ with hge | hge
        · exact hge
        · rw [hmode] at hge
          cases hge
      · exact absurd ⟨⟨b, hin, hb⟩, .inr hmode⟩ (hapart o' ho hp g' hg')
    · exact ⟨m, Table.mem_lock.mpr (.inr ⟨hm, fun hb' hp => hin ⟨hb', hp⟩⟩), hex⟩
  refine ⟨h.sound.lock hg, fun o' g' hg' => ?_, fun o₁ o₂ hne hp g₁ hg₁ g₂ hg₂ => ?_⟩
  · by_cases ho : o' = o
    · subst ho
      rw [Function.update_self] at hg'
      rcases hg' with rfl | hg'
      · exact fun b hb => ⟨_, Table.mem_lock.mpr (.inl ⟨hb, rfl⟩), id⟩
      · exact hkeep _ _ hg'
    · rw [Function.update_of_ne ho] at hg'
      exact hkeep _ _ hg'
  · by_cases h₁ : o₁ = o
    · subst h₁
      rw [Function.update_self] at hg₁
      rw [Function.update_of_ne (Ne.symm hne)] at hg₂
      rcases hg₁ with rfl | hg₁
      · exact hapart o₂ (Ne.symm hne) hp.symm g₂ hg₂
      · exact h.apart _ _ hne hp _ hg₁ _ hg₂
    · rw [Function.update_of_ne h₁] at hg₁
      by_cases h₂ : o₂ = o
      · subst h₂
        rw [Function.update_self] at hg₂
        rcases hg₂ with rfl | hg₂
        · exact fun hc => hapart o₁ h₁ hp g₁ hg₁ hc.symm
        · exact h.apart _ _ hne hp _ hg₁ _ hg₂
      · rw [Function.update_of_ne h₂] at hg₂
        exact h.apart _ _ hne hp _ hg₁ _ hg₂

omit [DecidableEq P] in
/-- Guards go, and with them no lock that a guard left stands for. -/
theorem Guarded.shrink {t' : Table P} {held' : O → Set Guard} (h : Guarded proc t held)
    (hheld : ∀ o, held' o ⊆ held o) (hsub : ∀ b e, e ∈ t' b → e ∈ t b)
    (hkept : ∀ o, ∀ g ∈ held' o, ∀ b ∈ g.range, ∀ m, (proc o, m) ∈ t b → (proc o, m) ∈ t' b) :
    Guarded proc t' held' where
  sound := h.sound.mono hsub
  backed o g hg b hb :=
    let ⟨m, hm, hex⟩ := h.backed o g (hheld o hg) b hb
    ⟨m, hkept o g hg b hb m hm, hex⟩
  apart o o' hne hp g hg g' hg' := h.apart o o' hne hp g (hheld o hg) g' (hheld o' hg')

/-- An owner unlocks a range on which the process is left with no guard. -/
theorem Guarded.drop {held' : O → Set Guard} (h : Guarded proc t held) {p : P} {r : Range}
    (hheld : ∀ o, held' o ⊆ held o)
    (hfree : ∀ o, proc o = p → ∀ g ∈ held' o, ¬ r.Overlaps g.range) :
    Guarded proc (t.unlock p r) held' := by
  refine h.shrink hheld (fun b e he => (Table.mem_unlock.mp he).1) fun o g hg b hb m hm => ?_
  exact Table.mem_unlock.mpr ⟨hm, fun hin hp => hfree o hp g hg ⟨b, hin, hb⟩⟩

/-- A process that is left with no guard closes the file. -/
theorem Guarded.closeFile {held' : O → Set Guard} (h : Guarded proc t held) {p : P}
    (hheld : ∀ o, held' o ⊆ held o) (hfree : ∀ o, proc o = p → held' o = ∅) :
    Guarded proc (t.closeFile p) held' := by
  refine h.shrink hheld (fun b e he => (Table.mem_closeFile.mp he).1) fun o g hg b hb m hm => ?_
  refine Table.mem_closeFile.mpr ⟨hm, fun hp => ?_⟩
  rw [hfree o hp] at hg
  exact hg

omit [DecidableEq P] in
/-- Only what the owners hold matters. -/
theorem Guarded.congr {held' : O → Set Guard} (h : Guarded proc t held)
    (heq : ∀ o, held' o = held o) : Guarded proc t held' := by
  obtain rfl : held' = held := funext heq
  exact h

end Guarded

/-! ### Tables without stray locks -/

section Exact

variable {P O : Type} [DecidableEq P]

/-- Also, every lock has a guard. -/
structure Exact (proc : O → P) (t : Table P) (held : O → Set Guard) : Prop
    extends Guarded proc t held where
  accounted : ∀ b p m, (p, m) ∈ t b → ∃ o, proc o = p ∧ ∃ g ∈ held o, b ∈ g.range ∧ g.mode = m

variable {proc : O → P} {t : Table P} {held : O → Set Guard}

omit [DecidableEq P] in
theorem exact_empty : Exact proc (fun _ => []) (fun _ : O => ∅) where
  toGuarded := guarded_empty
  accounted _ _ _ h := absurd h List.not_mem_nil

theorem Exact.take [DecidableEq O] (h : Exact proc t held) {o : O} {g : Guard}
    (hg : t.Grants (proc o) g.mode g.range)
    (hapart : ∀ o', o' ≠ o → proc o' = proc o → ∀ g' ∈ held o', ¬ g.Conflicts g')
    (hown : ∀ g' ∈ held o, g.range.Overlaps g'.range → g.mode = .exclusive ∨ g'.mode = .shared) :
    Exact proc (t.lock (proc o) g.mode g.range)
      (Function.update held o (insert g (held o))) where
  toGuarded := h.toGuarded.take hg hapart hown
  accounted b q m hm := by
    rcases Table.mem_lock.mp hm with ⟨hb, heq⟩ | ⟨hm, -⟩
    · cases heq
      exact ⟨o, rfl, g, by rw [Function.update_self]; exact Set.mem_insert _ _, hb, rfl⟩
    · obtain ⟨o', hp, g', hg', hb, hmode⟩ := h.accounted b q m hm
      refine ⟨o', hp, g', ?_, hb, hmode⟩
      by_cases ho : o' = o
      · subst ho
        rw [Function.update_self]
        exact Set.mem_insert_of_mem _ hg'
      · rwa [Function.update_of_ne ho]

theorem Exact.drop {held' : O → Set Guard} (h : Exact proc t held) {p : P} {r : Range}
    (hheld : ∀ o, held' o ⊆ held o)
    (hgone : ∀ o, ∀ g ∈ held o, g ∉ held' o → proc o = p ∧ g.range = r)
    (hfree : ∀ o, proc o = p → ∀ g ∈ held' o, ¬ r.Overlaps g.range) :
    Exact proc (t.unlock p r) held' where
  toGuarded := h.toGuarded.drop hheld hfree
  accounted b q m hm := by
    obtain ⟨hm, hkeep⟩ := Table.mem_unlock.mp hm
    obtain ⟨o, hp, g, hg, hb, hmode⟩ := h.accounted b q m hm
    refine ⟨o, hp, g, ?_, hb, hmode⟩
    by_contra hnot
    obtain ⟨hp', rfl⟩ := hgone o g hg hnot
    exact hkeep hb (hp.symm.trans hp')

theorem Exact.closeFile {held' : O → Set Guard} (h : Exact proc t held) {p : P}
    (hheld : ∀ o, held' o ⊆ held o)
    (hgone : ∀ o, ∀ g ∈ held o, g ∉ held' o → proc o = p)
    (hfree : ∀ o, proc o = p → held' o = ∅) : Exact proc (t.closeFile p) held' where
  toGuarded := h.toGuarded.closeFile hheld hfree
  accounted b q m hm := by
    obtain ⟨hm, hkeep⟩ := Table.mem_closeFile.mp hm
    obtain ⟨o, hp, g, hg, hb, hmode⟩ := h.accounted b q m hm
    refine ⟨o, hp, g, ?_, hb, hmode⟩
    by_contra hnot
    exact hkeep (hp.symm.trans (hgone o g hg hnot))

/-- A lock is granted when no guard of another process is in its way. -/
theorem Exact.grants (h : Exact proc t held) {p : P} {g : Guard}
    (hfree : ∀ o, proc o ≠ p → ∀ g' ∈ held o, ¬ g.Conflicts g') : t.Grants p g.mode g.range := by
  rw [Table.grants_iff]
  rintro b hb ⟨q, m⟩ he
  by_cases hq : q = p
  · exact .inl hq
  · obtain ⟨o, rfl, g', hg', hb', rfl⟩ := h.accounted b q m he
    right
    have hcon := hfree o hq g' hg'
    cases hm : g.mode with
    | exclusive => exact absurd ⟨⟨b, hb, hb'⟩, .inl hm⟩ hcon
    | shared =>
      cases hm' : g'.mode with
      | exclusive => exact absurd ⟨⟨b, hb, hb'⟩, .inr hm'⟩ hcon
      | shared => exact ⟨rfl, rfl⟩

omit [DecidableEq P] in
theorem Exact.congr {held' : O → Set Guard} (h : Exact proc t held)
    (heq : ∀ o, held' o = held o) : Exact proc t held' := by
  obtain rfl : held' = held := funext heq
  exact h

end Exact

end RangeLocks
