import Turbolite.WalLocks

/-!
# Turbolite.WalExclusion

When the slots of the WAL index exclude each other. The table keeps the connections of a process apart
and the file keeps processes apart, but a guard that is dropped unlocks its byte for the whole process.
A call is *orderly* if no guard is dropped on a slot that another connection of the process has locked,
no slot is locked again under an old guard, and a refused call was for slots the connection did not have.
-/

namespace Turbolite

open RangeLocks Runs

/-! ### The table -/

namespace SlotState

variable {C : Type} [DecidableEq C]

/-- The connection has the slot in the mode or a stronger one. -/
def Has (st : SlotState C) (c : C) : Mode → Prop
  | .exclusive => st.exclusive = some c
  | .shared => c ∈ st.shared ∨ st.exclusive = some c

/-- The exclusive holder is the only one. -/
def Sound (st : SlotState C) : Prop := ∀ c, st.exclusive = some c → ∀ c' ∈ st.shared, c' = c

variable {st st' : SlotState C} {c c' : C} {m m' : Mode}

omit [DecidableEq C] in
theorem sound_empty : Sound ({} : SlotState C) := fun _ h => by cases h

omit [DecidableEq C] in
/-- Two connections share. -/
theorem Sound.eq_of_exclusive (h : st.Sound) (hc : st.Has c .exclusive) (hc' : st.Has c' m') :
    c' = c := by
  cases m' with
  | exclusive => exact Option.some.inj (Eq.trans (Eq.symm hc') hc)
  | shared =>
    rcases hc' with hc' | hc'
    · exact h c hc c' hc'
    · exact Option.some.inj (hc'.symm.trans hc)

/-- A connection that gets a slot has it, and nobody loses it. -/
theorem tryLock_spec (h : st.Sound) (hl : st.tryLock m c = some st') :
    st'.Sound ∧ st'.Has c m ∧ ∀ c' m', st.Has c' m' → st'.Has c' m' := by
  cases m with
  | exclusive =>
    simp only [tryLock] at hl
    split at hl
    · cases hl
    · rename_i hfree
      cases hl
      obtain ⟨hex, hsh⟩ := not_or.mp hfree
      have hshared : ∀ c' ∈ st.shared, c' = c := by
        intro c' hc'
        by_contra hne
        exact hsh (List.any_eq_true.mpr ⟨c', hc', decide_eq_true hne⟩)
      have hexcl : ∀ c', st.exclusive = some c' → c' = c := by
        intro c' hc'
        by_contra hne
        refine hex ⟨by rw [hc']; rfl, fun heq => ?_⟩
        rw [hc'] at heq
        exact hne (Option.some.inj heq)
      refine ⟨fun c₁ hc₁ c₂ hc₂ => ?_, rfl, fun c' m' hhas => ?_⟩
      · have hne := of_decide_eq_true (List.mem_filter.mp hc₂).2
        exact absurd (hshared c₂ (List.mem_filter.mp hc₂).1) hne
      · cases m' with
        | exclusive => exact congrArg some (hexcl c' hhas).symm
        | shared =>
          rcases hhas with hhas | hhas
          · exact .inr (congrArg some (hshared c' hhas).symm)
          · exact .inr (congrArg some (hexcl c' hhas).symm)
  | shared =>
    simp only [tryLock] at hl
    split at hl
    · cases hl
    · rename_i hfree
      cases hl
      refine ⟨fun c₁ hc₁ c₂ hc₂ => ?_, .inl List.mem_insert_self, fun c' m' hhas => ?_⟩
      · rcases List.mem_insert_iff.mp hc₂ with rfl | hc₂
        · by_contra hne
          have hc₁ : st.exclusive = some c₁ := hc₁
          refine hfree ⟨by rw [hc₁]; rfl, fun heq => ?_⟩
          rw [hc₁] at heq
          exact hne (Option.some.inj heq).symm
        · exact h c₁ hc₁ c₂ hc₂
      · cases m' with
        | exclusive => exact hhas
        | shared => exact hhas.imp List.mem_insert_of_mem id

/-- Only the connection itself loses the slot. -/
theorem unlock_spec (h : st.Sound) : (st.unlock c).Sound ∧
    ∀ c' m', c' ≠ c → st.Has c' m' → (st.unlock c).Has c' m' := by
  have hexcl : ∀ c', (st.unlock c).exclusive = some c' → st.exclusive = some c' := by
    intro c' hc'
    simp only [unlock] at hc'
    split at hc'
    · cases hc'
    · exact hc'
  refine ⟨fun c₁ hc₁ c₂ hc₂ => h c₁ (hexcl c₁ hc₁) c₂ (List.mem_filter.mp hc₂).1,
    fun c' m' hne hhas => ?_⟩
  have hkeep : st.exclusive = some c' → (st.unlock c).exclusive = some c' := by
    intro hex
    simp only [unlock]
    rw [hex, if_neg fun heq => hne (Option.some.inj heq)]
  cases m' with
  | exclusive => exact hkeep hhas
  | shared =>
    exact hhas.imp (fun hmem => List.mem_filter.mpr ⟨hmem, decide_eq_true hne⟩) hkeep

end SlotState

theorem overlaps_slotGuard {m m' : Mode} {slot slot' : Nat} :
    (slotGuard m slot).range.Overlaps (slotGuard m' slot').range ↔ slot = slot' := by
  constructor
  · rintro ⟨b, hb, hb'⟩
    simp only [Range.mem_iff, slotGuard] at hb hb'
    omega
  · rintro rfl
    exact ⟨walLockOffset + slot, by simp [Range.mem_iff, slotGuard], by simp [Range.mem_iff, slotGuard]⟩

namespace WalLocks

/-- The guards that a connection relies on. A guard whose table entry is gone, or that is about to be
dropped, is not one. -/
def Conn.needed (k : Conn) : List (Nat × Mode) :=
  match k.phase with
  | .dropGuard slot _ => k.active.filter fun e => decide (e.1 ≠ slot)
  | .file mode fresh _ => fresh.map (fun slot => (slot, mode)) ++ k.active
  | .closing => []
  | .closed => []
  | _ => k.active

variable {P C : Type} [DecidableEq P] [DecidableEq C] (proc : C → P)

/-- No other connection of the process relies on a guard of the slot. -/
def Unshared (s : State P C) (c : C) (slot : Nat) : Prop :=
  ∀ c', c' ≠ c → proc c' = proc c → ∀ e ∈ (s.conns c').needed, e.1 ≠ slot

/-- When a step does not go wrong. -/
def Orderly (s : State P C) : Event C → Prop
  | .advance c =>
    let k := s.conns c
    match k.phase with
    | .dropGuard slot _ => (k.guard? slot).isSome = true → Unshared proc s c slot
    | .table mode done (slot :: _) =>
      (s.table (proc c) slot).tryLock mode c = none → ∀ x ∈ done, k.holds x = none
    | .file mode fresh (slot :: todo) =>
      if s.file.Grants (proc c) mode (slotGuard mode slot).range then k.guard? slot = none
      else ∀ x ∈ fresh ++ slot :: todo, k.holds x = none
    | .dropFresh (slot :: _) => Unshared proc s c slot
    | .closing => ∀ c', c' ≠ c → proc c' = proc c → (s.conns c').needed = []
    | _ => True
  | .fail c =>
    match (s.conns c).phase with
    | .file _ fresh todo => ∀ x ∈ fresh ++ todo, (s.conns c).holds x = none
    | _ => True
  | .request .. => True
  | .drop _ => True

/-! ### The invariant -/

/-- What a call has done so far; `has` is what the table says of the connection. -/
def PhaseFits (has : Nat → Mode → Prop) (k : Conn) : Phase → Prop
  | .table mode done todo => (done ++ todo).Nodup ∧ ∀ slot ∈ done, has slot mode
  | .file mode fresh todo => (fresh ++ todo).Nodup ∧ (∀ slot ∈ fresh ++ todo, has slot mode) ∧
      ∀ slot ∈ fresh, ∀ e ∈ k.active, e.1 ≠ slot
  | .undoTable todo => ∀ slot ∈ todo, k.holds slot = none
  | .undoFile todo fresh => (∀ slot ∈ todo, k.holds slot = none) ∧
      ∀ slot ∈ fresh, ∀ e ∈ k.active, e.1 ≠ slot
  | .dropFresh fresh => ∀ slot ∈ fresh, ∀ e ∈ k.active, e.1 ≠ slot
  | _ => True

/-- What a connection has, by where it is in its call. -/
structure Fits (has : Nat → Mode → Prop) (k : Conn) : Prop where
  linked : ∀ e ∈ k.needed, has e.1 e.2
  held : ∀ slot m, k.holds slot = some m → (slot, m) ∈ k.needed
  active : ∀ e ∈ k.active, k.holds e.1 = some e.2 ∨ (∃ todo, k.phase = .dropGuard e.1 todo) ∨
    k.phase = .closing
  phase : PhaseFits has k k.phase

/-- The guards a connection relies on. -/
def State.held (s : State P C) (c : C) : Set Guard :=
  {g | ∃ e ∈ (s.conns c).needed, slotGuard e.2 e.1 = g}

/-- What the table says of a connection. -/
def State.has (s : State P C) (c : C) (slot : Nat) (m : Mode) : Prop :=
  (s.table (proc c) slot).Has c m

/-- The slots are sound, the lock file has their guards and each connection what it holds. -/
structure Inv (s : State P C) : Prop where
  table : ∀ p slot, (s.table p slot).Sound
  guarded : Guarded proc s.file s.held
  fits : ∀ c, Fits (s.has proc c) (s.conns c)

variable {proc} {s s' : State P C} {c : C} {slot : Nat} {k : Conn}

theorem PhaseFits.mono {has has' : Nat → Mode → Prop} {phase : Phase} (h : PhaseFits has k phase)
    (himp : ∀ slot m, has slot m → has' slot m) : PhaseFits has' k phase := by
  cases phase with
  | table mode done todo => exact ⟨h.1, fun slot hslot => himp _ _ (h.2 slot hslot)⟩
  | file mode fresh todo => exact ⟨h.1, fun slot hslot => himp _ _ (h.2.1 slot hslot), h.2.2⟩
  | undoTable todo | undoFile todo fresh | dropFresh fresh => exact h
  | idle | unlock todo | dropGuard slot todo | closing | closed => trivial

theorem Fits.mono {has has' : Nat → Mode → Prop} (h : Fits has k)
    (himp : ∀ slot m, has slot m → has' slot m) : Fits has' k :=
  ⟨fun e he => himp _ _ (h.linked e he), h.held, h.active, h.phase.mono himp⟩

theorem Conn.guard?_eq_none : k.guard? slot = none ↔ ∀ e ∈ k.active, e.1 ≠ slot := by
  simp [Conn.guard?]

/-! ### One connection changes -/

omit [DecidableEq P] in
/-- A step of one connection keeps the invariant. -/
theorem Inv.update (hi : Inv proc s) (hconns : s'.conns = Function.update s.conns c k)
    (htable : ∀ p slot, (s'.table p slot).Sound)
    (hother : ∀ c', c' ≠ c → ∀ slot m, s.has proc c' slot m → s'.has proc c' slot m)
    (hguarded : Guarded proc s'.file s'.held) (hfits : Fits (s'.has proc c) k) : Inv proc s' := by
  refine ⟨htable, hguarded, fun c' => ?_⟩
  rw [hconns]
  by_cases hc : c' = c
  · subst hc
    rw [Function.update_self]
    exact hfits
  · rw [Function.update_of_ne hc]
    exact (hi.fits c').mono (hother c' hc)

omit [DecidableEq P] in
theorem held_update (hconns : s'.conns = Function.update s.conns c k) :
    s'.held = Function.update s.held c {g | ∃ e ∈ k.needed, slotGuard e.2 e.1 = g} := by
  funext c'
  unfold State.held
  rw [hconns]
  by_cases hc : c' = c
  · subst hc
    rw [Function.update_self, Function.update_self]
  · rw [Function.update_of_ne hc, Function.update_of_ne hc]

omit [DecidableEq P] in
/-- The connection relies on no guard it did not rely on. -/
theorem held_subset (hconns : s'.conns = Function.update s.conns c k)
    (hsub : ∀ e ∈ k.needed, e ∈ (s.conns c).needed) (c' : C) : s'.held c' ⊆ s.held c' := by
  rw [held_update hconns]
  by_cases hc : c' = c
  · subst hc
    rw [Function.update_self]
    rintro g ⟨e, he, hg⟩
    exact ⟨e, hsub e he, hg⟩
  · rw [Function.update_of_ne hc]

omit [DecidableEq P] in
/-- The file is left alone. -/
theorem Inv.shrink (hi : Inv proc s) (hconns : s'.conns = Function.update s.conns c k)
    (hfile : s'.file = s.file) (hsub : ∀ e ∈ k.needed, e ∈ (s.conns c).needed)
    (htable : ∀ p slot, (s'.table p slot).Sound)
    (hother : ∀ c', c' ≠ c → ∀ slot m, s.has proc c' slot m → s'.has proc c' slot m)
    (hfits : Fits (s'.has proc c) k) : Inv proc s' := by
  refine hi.update hconns htable hother ?_ hfits
  rw [hfile]
  exact hi.guarded.shrink (held_subset hconns hsub) (fun _ _ h => h) fun _ _ _ _ _ _ h => h

/-- A guard is dropped on a slot that nobody in the process relies on. -/
theorem Inv.unlockFile (hi : Inv proc s)
    (hs : s' = (s.unlockFile proc c slot).setConn c k)
    (hsub : ∀ e ∈ k.needed, e ∈ (s.conns c).needed) (hun : Unshared proc s c slot)
    (hown : ∀ e ∈ k.needed, e.1 ≠ slot) (hfits : Fits (s.has proc c) k) : Inv proc s' := by
  subst hs
  have hconns : ((s.unlockFile proc c slot).setConn c k).conns = Function.update s.conns c k := rfl
  refine hi.update hconns hi.table (fun _ _ _ _ h => h) ?_ hfits
  refine hi.guarded.drop (held_subset hconns hsub) fun c' hp g hg hov => ?_
  rw [held_update hconns] at hg
  by_cases hc : c' = c
  · subst hc
    rw [Function.update_self] at hg
    obtain ⟨e, he, rfl⟩ := hg
    exact hown e he (overlaps_slotGuard.mp hov).symm
  · rw [Function.update_of_ne hc] at hg
    obtain ⟨e, he, rfl⟩ := hg
    exact hun c' hc hp e he (overlaps_slotGuard.mp hov).symm

/-! ### The table changes -/

omit [DecidableEq C] in
theorem table_setSlot (p : P) (x : Nat) (st : SlotState C) (q : P) (slot : Nat) :
    (s.setSlot p x st).table q slot = if q = p ∧ slot = x then st else s.table q slot := by
  unfold State.setSlot
  by_cases hq : q = p
  · subst hq
    by_cases hx : slot = x
    · subst hx
      simp
    · simp [hx]
  · simp [hq]

omit [DecidableEq C] in
theorem sound_setSlot (hi : Inv proc s) {p : P} {st : SlotState C} (hst : st.Sound) (q : P) (slot' : Nat) :
    ((s.setSlot p slot st).table q slot').Sound := by
  rw [table_setSlot]
  split
  · exact hst
  · exact hi.table q slot'

omit [DecidableEq C] in
/-- Entries of a slot that its new state keeps. -/
theorem has_setSlot {p : P} {st : SlotState C} {c' : C} {slot' : Nat} {m : Mode}
    (hkeep : proc c' = p → slot' = slot → (s.table p slot).Has c' m → st.Has c' m)
    (h : s.has proc c' slot' m) : (s.setSlot p slot st).has proc c' slot' m := by
  unfold State.has at h ⊢
  rw [table_setSlot]
  split
  · rename_i heq
    obtain ⟨hp, rfl⟩ := heq
    rw [hp] at h
    exact hkeep hp rfl h
  · exact h

/-- The connection gives an entry back that it does not rely on. -/
theorem Inv.unlockSlot (hi : Inv proc s) (hs : s' = (s.unlockSlot proc c slot).setConn c k)
    (hsub : ∀ e ∈ k.needed, e ∈ (s.conns c).needed)
    (hfits : Fits (fun slot' m => slot' ≠ slot ∧ s.has proc c slot' m) k) : Inv proc s' := by
  subst hs
  have hspec := SlotState.unlock_spec (c := c) (hi.table (proc c) slot)
  refine hi.shrink rfl rfl hsub (fun p slot' => sound_setSlot hi hspec.1 p slot') (fun c' hc slot' m h => ?_)
    (hfits.mono fun slot' m h => ?_)
  · exact has_setSlot (fun _ _ hhas => hspec.2 c' m hc hhas) h
  · exact has_setSlot (fun _ heq => absurd heq h.1) h.2

/-! ### The phases -/

/-- The phases in which a connection relies on what is in `active_locks`. -/
def Phase.Plain : Phase → Prop
  | .dropGuard .. | .file .. | .closing | .closed => False
  | _ => True

theorem needed_of_plain (h : k.phase.Plain) : k.needed = k.active := by
  unfold Conn.needed
  cases hphase : k.phase with
  | dropGuard slot todo | file mode fresh todo | closing | closed =>
    rw [hphase] at h
    exact absurd h id
  | idle | unlock todo | table mode done todo | undoTable todo | undoFile todo fresh | dropFresh fresh => rfl

/-- Every guard in `active_locks` is for a slot the connection holds. -/
theorem Fits.holds_of_active {has : Nat → Mode → Prop} (h : Fits has k)
    (hdrop : ∀ slot todo, k.phase ≠ .dropGuard slot todo) (hclose : k.phase ≠ .closing)
    {e : Nat × Mode} (he : e ∈ k.active) : k.holds e.1 = some e.2 := by
  rcases h.active e he with hh | ⟨todo, hh⟩ | hh
  · exact hh
  · exact absurd hh (hdrop _ _)
  · exact absurd hh hclose

theorem Fits.holds_of_plain {has : Nat → Mode → Prop} (h : Fits has k) (hp : k.phase.Plain)
    {e : Nat × Mode} (he : e ∈ k.active) : k.holds e.1 = some e.2 := by
  refine h.holds_of_active (fun slot todo heq => ?_) (fun heq => ?_) he
  · rw [heq] at hp
    exact hp
  · rw [heq] at hp
    exact hp

/-- From one such phase to another, with fewer entries in the table. -/
theorem Fits.rephase {has has' : Nat → Mode → Prop} (h : Fits has k) (hp : k.phase.Plain) {phase : Phase}
    (hp' : phase.Plain) (hhas : ∀ e ∈ k.active, has' e.1 e.2) (hphase : PhaseFits has' k phase) :
    Fits has' { k with phase := phase } := by
  have hneed : ({ k with phase := phase } : Conn).needed = k.active := needed_of_plain hp'
  refine ⟨?_, fun slot m hm => ?_, fun e he => .inl (h.holds_of_plain hp he), ?_⟩
  · rw [hneed]
    exact hhas
  · rw [hneed, ← needed_of_plain hp]
    exact h.held slot m hm
  · cases phase with
    | dropGuard slot todo | file mode fresh todo | closing | closed => exact absurd hp' id
    | idle | unlock todo => trivial
    | table mode done todo | undoTable todo | undoFile todo fresh | dropFresh fresh => exact hphase

theorem needed_rephase (hp : k.phase.Plain) {phase : Phase} (hp' : phase.Plain) (e : Nat × Mode)
    (he : e ∈ ({ k with phase := phase } : Conn).needed) : e ∈ k.needed := by
  rw [needed_of_plain (k := { k with phase := phase }) hp'] at he
  rwa [needed_of_plain hp]

theorem Fits.linked_of_plain {has : Nat → Mode → Prop} (h : Fits has k) (hp : k.phase.Plain)
    {e : Nat × Mode} (he : e ∈ k.active) : has e.1 e.2 :=
  h.linked e ((needed_of_plain hp).symm ▸ he)

omit [DecidableEq P] in
/-- A step that changes the phase only. -/
theorem Inv.rephase (hi : Inv proc s) (hp : (s.conns c).phase.Plain) {phase : Phase}
    (hp' : phase.Plain) (hphase : PhaseFits (s.has proc c) (s.conns c) phase) :
    Inv proc (s.setConn c { s.conns c with phase := phase }) :=
  hi.shrink rfl rfl (needed_rephase hp hp') hi.table (fun _ _ _ _ h => h)
    ((hi.fits c).rephase hp hp' (fun _ he => (hi.fits c).linked_of_plain hp he) hphase)

/-- An entry goes that is for no slot the connection holds. -/
theorem Inv.undo (hi : Inv proc s) (hp : (s.conns c).phase.Plain) {phase : Phase} (hp' : phase.Plain)
    (hfree : (s.conns c).holds slot = none)
    (hphase : PhaseFits (fun slot' m => slot' ≠ slot ∧ s.has proc c slot' m) (s.conns c) phase) :
    Inv proc ((s.unlockSlot proc c slot).setConn c { s.conns c with phase := phase }) := by
  refine hi.unlockSlot rfl (needed_rephase hp hp') ((hi.fits c).rephase hp hp' (fun e he => ⟨?_, ?_⟩) hphase)
  · rintro rfl
    rw [(hi.fits c).holds_of_plain hp he] at hfree
    cases hfree
  · exact (hi.fits c).linked_of_plain hp he

/-- A release gives the entry of a slot back. -/
theorem inv_unlock {todo : List Nat} (hi : Inv proc s)
    (hphase : (s.conns c).phase = .unlock (slot :: todo)) :
    Inv proc ((s.unlockSlot proc c slot).setConn c
      { s.conns c with
        phase := .dropGuard slot todo
        holds := Function.update (s.conns c).holds slot none }) := by
  have hfits := hi.fits c
  have hp : (s.conns c).phase.Plain := by
    rw [hphase]
    trivial
  refine hi.unlockSlot rfl (fun e he => ?_) ⟨fun e he => ?_, fun slot' m hm => ?_, fun e he => ?_, trivial⟩
  · rw [needed_of_plain hp]
    exact (List.mem_filter.mp he).1
  · obtain ⟨he, hne⟩ := List.mem_filter.mp he
    exact ⟨of_decide_eq_true hne, hfits.linked_of_plain hp he⟩
  · by_cases hslot : slot' = slot
    · subst hslot
      simp at hm
    · simp only [Function.update_of_ne hslot] at hm
      have hmem := hfits.held slot' m hm
      rw [needed_of_plain hp] at hmem
      exact List.mem_filter.mpr ⟨hmem, decide_eq_true hslot⟩
  · by_cases hslot : e.1 = slot
    · exact .inr (.inl ⟨todo, by rw [hslot]⟩)
    · left
      simp only [Function.update_of_ne hslot]
      exact hfits.holds_of_plain hp he

/-- And drops its guard. -/
theorem inv_dropGuard {todo : List Nat} (hi : Inv proc s)
    (hphase : (s.conns c).phase = .dropGuard slot todo)
    (hord : ((s.conns c).guard? slot).isSome = true → Unshared proc s c slot) :
    Inv proc ((if ((s.conns c).guard? slot).isSome then s.unlockFile proc c slot else s).setConn c
      { (s.conns c).remove slot with phase := .unlock todo }) := by
  have hfits := hi.fits c
  have hneed : (s.conns c).needed = ((s.conns c).remove slot).active := by
    unfold Conn.needed
    rw [hphase]
    rfl
  have hsub : ∀ e ∈ ({ (s.conns c).remove slot with phase := .unlock todo } : Conn).needed,
      e ∈ (s.conns c).needed := fun e he => hneed.symm ▸ he
  have hfits' : Fits (s.has proc c) { (s.conns c).remove slot with phase := .unlock todo } := by
    refine ⟨fun e he => hfits.linked e (hsub e he), fun slot' m hm => ?_, fun e he => .inl ?_, trivial⟩
    · have hmem := hfits.held slot' m hm
      rwa [hneed] at hmem
    · obtain ⟨he, hne⟩ := List.mem_filter.mp he
      rcases hfits.active e he with hh | ⟨todo', hh⟩ | hh
      · exact hh
      · rw [hphase] at hh
        cases hh
        exact absurd rfl (of_decide_eq_true hne)
      · rw [hphase] at hh
        cases hh
  split
  · rename_i hsome
    refine hi.unlockFile rfl hsub (hord hsome) (fun e he => ?_) hfits'
    exact of_decide_eq_true (List.mem_filter.mp he).2
  · exact hi.shrink rfl rfl hsub hi.table (fun _ _ _ _ h => h) hfits'

/-- The table grants a slot. -/
theorem inv_table {mode : Mode} {done todo : List Nat} {st : SlotState C} (hi : Inv proc s)
    (hphase : (s.conns c).phase = .table mode done (slot :: todo))
    (hst : (s.table (proc c) slot).tryLock mode c = some st) :
    Inv proc ((s.setSlot (proc c) slot st).setConn c
      { s.conns c with phase := .table mode (done ++ [slot]) todo }) := by
  obtain ⟨hsound, hhas, hkeep⟩ := SlotState.tryLock_spec (hi.table (proc c) slot) hst
  have hp : (s.conns c).phase.Plain := by
    rw [hphase]
    trivial
  have hmono : ∀ c' slot' m, s.has proc c' slot' m → (s.setSlot (proc c) slot st).has proc c' slot' m :=
    fun c' slot' m h => has_setSlot (fun _ _ h' => hkeep c' m h') h
  have hfits := (hi.fits c).mono (hmono c)
  refine hi.shrink rfl rfl (needed_rephase hp trivial) (fun p slot' => sound_setSlot hi hsound p slot')
    (fun c' _ => hmono c') (hfits.rephase hp trivial (fun _ he => hfits.linked_of_plain hp he) ?_)
  have hdone := hfits.phase
  rw [hphase] at hdone
  refine ⟨?_, fun slot' hslot' => ?_⟩
  · rw [List.append_assoc]
    exact hdone.1
  · rcases List.mem_append.mp hslot' with hslot' | hslot'
    · exact hdone.2 slot' hslot'
    · rw [List.mem_singleton.mp hslot']
      show ((s.setSlot (proc c) slot st).table (proc c) slot).Has c mode
      rw [table_setSlot, if_pos ⟨rfl, rfl⟩]
      exact hhas

omit [DecidableEq P] in
/-- The whole range is in the table. -/
theorem inv_table_done {mode : Mode} {done : List Nat} (hi : Inv proc s)
    (hphase : (s.conns c).phase = .table mode done []) :
    Inv proc (s.setConn c { s.conns c with phase := .file mode [] done }) := by
  have hp : (s.conns c).phase.Plain := by
    rw [hphase]
    trivial
  have hfits := hi.fits c
  have hdone := hfits.phase
  rw [hphase] at hdone
  have hneed : (s.conns c).needed = (s.conns c).active := needed_of_plain hp
  refine hi.shrink rfl rfl (fun e he => hneed ▸ he) hi.table (fun _ _ _ _ h => h)
    ⟨fun e he => hfits.linked_of_plain hp he, fun slot m hm => ?_,
      fun e he => .inl (hfits.holds_of_plain hp he), ?_, hdone.2, fun slot hslot => by cases hslot⟩
  · have hmem := hfits.held slot m hm
    rwa [hneed] at hmem
  · have hnodup := hdone.1
    rwa [List.append_nil] at hnodup

omit [DecidableEq P] in
/-- Every slot is locked, and the call returns. -/
theorem inv_file_done {mode : Mode} {fresh : List Nat} (hi : Inv proc s)
    (hphase : (s.conns c).phase = .file mode fresh []) :
    Inv proc (s.setConn c
      { active := fresh.map (fun slot => (slot, mode)) ++ (s.conns c).active
        phase := .idle
        holds := fun slot => if slot ∈ fresh then some mode else (s.conns c).holds slot }) := by
  have hfits := hi.fits c
  have hdone := hfits.phase
  rw [hphase] at hdone
  have hneed : (s.conns c).needed =
      fresh.map (fun slot => (slot, mode)) ++ (s.conns c).active := by
    unfold Conn.needed
    rw [hphase]
  refine hi.shrink rfl rfl (fun e he => hneed ▸ he) hi.table (fun _ _ _ _ h => h)
    ⟨fun e he => hfits.linked e (hneed ▸ he), fun slot m hm => ?_, fun e he => .inl ?_, trivial⟩
  · show (slot, m) ∈ fresh.map (fun slot => (slot, mode)) ++ (s.conns c).active
    simp only at hm
    split at hm
    · rename_i hslot
      cases hm
      exact List.mem_append_left _ (List.mem_map_of_mem hslot)
    · have hmem := hfits.held slot m hm
      rwa [hneed] at hmem
  · simp only
    rcases List.mem_append.mp he with he | he
    · obtain ⟨slot, hslot, rfl⟩ := List.mem_map.mp he
      exact if_pos hslot
    · rw [if_neg fun hmem => hdone.2.2 _ hmem e he rfl]
      refine hfits.holds_of_active (fun slot todo heq => ?_) (fun heq => ?_) he
      · rw [hphase] at heq
        cases heq
      · rw [hphase] at heq
        cases heq

/-- The file grants a slot that the connection has no guard for. -/
theorem inv_takeGuard {mode : Mode} {fresh todo : List Nat} (hi : Inv proc s)
    (hphase : (s.conns c).phase = .file mode fresh (slot :: todo))
    (hgrant : s.file.Grants (proc c) mode (slotGuard mode slot).range)
    (hord : (s.conns c).guard? slot = none) :
    Inv proc ((s.takeGuard proc c mode slot).setConn c
      { (s.conns c).remove slot with phase := .file mode (fresh ++ [slot]) todo }) := by
  have hfits := hi.fits c
  obtain ⟨hnodup, hhas, hnew⟩ : (fresh ++ slot :: todo).Nodup ∧
      (∀ x ∈ fresh ++ slot :: todo, s.has proc c x mode) ∧
      ∀ x ∈ fresh, ∀ e ∈ (s.conns c).active, e.1 ≠ x := by
    have hdone := hfits.phase
    rwa [hphase] at hdone
  have hnone := Conn.guard?_eq_none.mp hord
  -- the slot has no guard of this connection yet, so nothing is replaced
  have hremove : (s.conns c).remove slot = s.conns c := by
    unfold Conn.remove
    rw [List.filter_eq_self.mpr fun e he => decide_eq_true (hnone e he)]
  have htake : s.takeGuard proc c mode slot =
      { s with file := s.file.lock (proc c) mode (slotGuard mode slot).range } := by
    unfold State.takeGuard
    rw [hord]
    rfl
  rw [hremove, htake]
  have hneed : (s.conns c).needed =
      fresh.map (fun slot => (slot, mode)) ++ (s.conns c).active := by
    unfold Conn.needed
    rw [hphase]
  have hfresh : slot ∉ fresh := fun hmem =>
    (List.nodup_append.mp hnodup).2.2 slot hmem slot List.mem_cons_self rfl
  -- one guard more is needed: that of the slot
  have hneed' : ∀ e, e ∈ ({ s.conns c with phase := .file mode (fresh ++ [slot]) todo } : Conn).needed ↔
      e = (slot, mode) ∨ e ∈ (s.conns c).needed := by
    intro e
    rw [hneed]
    show e ∈ (fresh ++ [slot]).map (fun slot => (slot, mode)) ++ (s.conns c).active ↔ _
    simp only [List.map_append, List.map_cons, List.map_nil, List.mem_append, List.mem_singleton]
    tauto
  have hslot : s.has proc c slot mode := hhas slot (List.mem_append_right _ List.mem_cons_self)
  have hguard := hi.guarded.take (o := c) (g := slotGuard mode slot) hgrant ?_ ?_
  · refine hi.update (k := { s.conns c with phase := .file mode (fresh ++ [slot]) todo }) rfl hi.table
      (fun _ _ _ _ h => h) (hguard.congr fun c' => ?_) ⟨fun e he => ?_, fun slot' m hm => ?_,
      fun e he => .inl ?_, ?_, fun x hx => ?_, fun x hx e he => ?_⟩
    · -- what the connection relies on is what it holds
      rw [held_update (s := s) rfl]
      by_cases hc : c' = c
      · subst hc
        rw [Function.update_self, Function.update_self]
        ext g
        constructor
        · rintro ⟨e, he, rfl⟩
          rcases (hneed' e).mp he with rfl | he
          · exact Set.mem_insert _ _
          · exact Set.mem_insert_of_mem _ ⟨e, he, rfl⟩
        · rintro (rfl | ⟨e, he, rfl⟩)
          · exact ⟨(slot, mode), (hneed' _).mpr (.inl rfl), rfl⟩
          · exact ⟨e, (hneed' _).mpr (.inr he), rfl⟩
      · rw [Function.update_of_ne hc, Function.update_of_ne hc]
    · rcases (hneed' e).mp he with rfl | he
      · exact hslot
      · exact hfits.linked e he
    · exact (hneed' _).mpr (.inr (hfits.held slot' m hm))
    · refine hfits.holds_of_active (fun slot' todo' heq => ?_) (fun heq => ?_) he
      · rw [hphase] at heq
        cases heq
      · rw [hphase] at heq
        cases heq
    · rw [List.append_assoc]
      exact hnodup
    · rw [List.append_assoc] at hx
      exact hhas x hx
    · rcases List.mem_append.mp hx with hx | hx
      · exact hnew x hx e he
      · rw [List.mem_singleton.mp hx]
        exact hnone e he
  · -- the table keeps the other connections of the process away
    rintro c' hne hp g' ⟨e, he, rfl⟩ ⟨hov, hmode⟩
    have heq := overlaps_slotGuard.mp hov
    have hhas' := (hi.fits c').linked e he
    unfold State.has at hhas' hslot
    rw [hp, ← heq] at hhas'
    rcases hmode with hmode | hmode
    · have hmode : mode = .exclusive := hmode
      rw [hmode] at hslot
      exact hne ((hi.table (proc c) slot).eq_of_exclusive hslot hhas')
    · have hmode : e.2 = .exclusive := hmode
      rw [hmode] at hhas'
      exact hne ((hi.table (proc c) slot).eq_of_exclusive hhas' hslot).symm
  · -- nor has the connection itself another guard on these bytes
    rintro g' ⟨e, he, rfl⟩ hov
    have heq := overlaps_slotGuard.mp hov
    rw [hneed] at he
    rcases List.mem_append.mp he with he | he
    · obtain ⟨x, hx, rfl⟩ := List.mem_map.mp he
      exact absurd (heq ▸ hx) hfresh
    · exact absurd heq.symm (hnone e he)

omit [DecidableEq P] in
/-- The file refuses a slot: the new guards are not relied on any more. -/
theorem inv_refused {mode : Mode} {fresh todo : List Nat} (hi : Inv proc s)
    (hphase : (s.conns c).phase = .file mode fresh todo)
    (hord : ∀ x ∈ fresh ++ todo, (s.conns c).holds x = none) :
    Inv proc (s.setConn c { s.conns c with phase := .undoFile (fresh ++ todo) fresh }) := by
  have hfits := hi.fits c
  have hdone := hfits.phase
  rw [hphase] at hdone
  have hneed : (s.conns c).needed =
      fresh.map (fun slot => (slot, mode)) ++ (s.conns c).active := by
    unfold Conn.needed
    rw [hphase]
  have hsub : ∀ e ∈ (s.conns c).active, e ∈ (s.conns c).needed :=
    fun e he => hneed ▸ List.mem_append_right _ he
  refine hi.shrink rfl rfl hsub hi.table (fun _ _ _ _ h => h)
    ⟨fun e he => hfits.linked e (hsub e he), fun slot m hm => ?_, fun e he => .inl ?_, hord, hdone.2.2⟩
  · have hmem := hfits.held slot m hm
    rw [hneed] at hmem
    rcases List.mem_append.mp hmem with hmem | hmem
    · obtain ⟨x, hx, heq⟩ := List.mem_map.mp hmem
      obtain ⟨rfl, -⟩ := Prod.mk.inj heq
      rw [hord x (List.mem_append_left _ hx)] at hm
      cases hm
    · exact hmem
  · refine hfits.holds_of_active (fun slot todo heq => ?_) (fun heq => ?_) he
    · rw [hphase] at heq
      cases heq
    · rw [hphase] at heq
      cases heq

theorem inv_closing (hi : Inv proc s) (hphase : (s.conns c).phase = .closing)
    (hord : ∀ c', c' ≠ c → proc c' = proc c → (s.conns c').needed = []) :
    Inv proc { s with
      file := s.file.closeFile (proc c)
      conns := Function.update s.conns c { s.conns c with active := [], phase := .closed } } := by
  have hnone : ∀ slot, (s.conns c).holds slot = none := by
    intro slot
    cases hm : (s.conns c).holds slot with
    | none => rfl
    | some m =>
      have hmem := (hi.fits c).held slot m hm
      unfold Conn.needed at hmem
      rw [hphase] at hmem
      cases hmem
  have hsub : ∀ e ∈ ({ s.conns c with active := [], phase := .closed } : Conn).needed,
      e ∈ (s.conns c).needed := fun e he => by cases he
  refine hi.update rfl hi.table (fun _ _ _ _ h => h) ?_ ⟨fun e he => absurd he List.not_mem_nil, fun slot m hm => ?_,
    fun e he => absurd he List.not_mem_nil, trivial⟩
  · refine hi.guarded.closeFile (held_subset rfl hsub) fun c' hp => ?_
    rw [held_update (s := s) rfl]
    refine Set.eq_empty_of_forall_notMem fun g hg => ?_
    by_cases hc : c' = c
    · subst hc
      rw [Function.update_self] at hg
      obtain ⟨e, he, -⟩ := hg
      cases he
    · rw [Function.update_of_ne hc] at hg
      obtain ⟨e, he, -⟩ := hg
      rw [hord c' hc hp] at he
      cases he
  · rw [hnone slot] at hm
    cases hm

theorem inv_drop (hi : Inv proc s) :
    Inv proc { s with
      table := Function.update s.table (proc c) fun slot => (s.table (proc c) slot).unlock c
      conns := Function.update s.conns c
        { s.conns c with phase := .closing, holds := fun _ => none } } := by
  have htable : ∀ p slot, Function.update s.table (proc c)
      (fun slot => (s.table (proc c) slot).unlock c) p slot =
        if p = proc c then (s.table p slot).unlock c else s.table p slot := by
    intro p slot
    by_cases hp : p = proc c
    · rw [if_pos hp, hp, Function.update_self]
    · rw [if_neg hp, Function.update_of_ne hp]
  refine hi.shrink rfl rfl (fun e he => by cases he) (fun p slot => ?_) (fun c' hc slot m h => ?_)
    ⟨fun e he => absurd he List.not_mem_nil, fun slot m hm => (by cases hm), fun e _ => .inr (.inr rfl), trivial⟩
  · simp only [htable]
    split
    · exact (SlotState.unlock_spec (hi.table p slot)).1
    · exact hi.table p slot
  · unfold State.has at h ⊢
    simp only [htable]
    split
    · exact (SlotState.unlock_spec (hi.table _ slot)).2 c' m hc h
    · exact h

/-! ### Runs -/

theorem inv_advance (hi : Inv proc s) (hord : Orderly proc s (.advance c))
    (hs : advance proc s c = some s') : Inv proc s' := by
  have hdone := (hi.fits c).phase
  simp only [Orderly] at hord
  unfold advance at hs
  simp only at hs
  -- in a phase without file locks under way the needed guards are the active ones
  have hplain : ∀ phase, (s.conns c).phase = phase → phase.Plain → (s.conns c).phase.Plain :=
    fun phase heq hp => heq ▸ hp
  split at hs
  · cases hs
  · rename_i hphase
    cases hs
    exact hi.rephase (hplain _ hphase trivial) trivial trivial
  · rename_i slot todo hphase
    cases hs
    exact inv_unlock hi hphase
  · rename_i slot todo hphase
    cases hs
    rw [hphase] at hord
    exact inv_dropGuard hi hphase hord
  · rename_i mode done hphase
    cases hs
    exact inv_table_done hi hphase
  · rename_i mode done slot todo hphase
    rw [hphase] at hord
    split at hs
    · rename_i st hst
      cases hs
      exact inv_table hi hphase hst
    · rename_i hst
      cases hs
      exact hi.rephase (hplain _ hphase trivial) trivial (hord hst)
  · rename_i hphase
    cases hs
    exact hi.rephase (hplain _ hphase trivial) trivial trivial
  · rename_i slot todo hphase
    cases hs
    rw [hphase] at hdone
    exact hi.undo (hplain _ hphase trivial) trivial (hdone slot List.mem_cons_self)
      fun x hx => hdone x (List.mem_cons_of_mem _ hx)
  · rename_i mode fresh hphase
    cases hs
    exact inv_file_done hi hphase
  · rename_i mode fresh slot todo hphase
    simp only [hphase] at hord
    split at hs
    · rename_i hgrant
      cases hs
      rw [if_pos hgrant] at hord
      exact inv_takeGuard hi hphase hgrant hord
    · rename_i hrefuse
      cases hs
      rw [if_neg hrefuse] at hord
      exact inv_refused hi hphase hord
  · rename_i fresh hphase
    cases hs
    rw [hphase] at hdone
    exact hi.rephase (hplain _ hphase trivial) trivial hdone.2
  · rename_i slot todo fresh hphase
    cases hs
    rw [hphase] at hdone
    exact hi.undo (hplain _ hphase trivial) trivial (hdone.1 slot List.mem_cons_self)
      ⟨fun x hx => hdone.1 x (List.mem_cons_of_mem _ hx), hdone.2⟩
  · rename_i hphase
    cases hs
    exact hi.rephase (hplain _ hphase trivial) trivial trivial
  · rename_i slot fresh hphase
    cases hs
    rw [hphase] at hdone hord
    have hp := hplain _ hphase trivial
    refine hi.unlockFile rfl (needed_rephase hp trivial) hord (fun e he => ?_)
      ((hi.fits c).rephase hp trivial (fun _ he => (hi.fits c).linked_of_plain hp he)
        fun x hx => hdone x (List.mem_cons_of_mem _ hx))
    exact hdone slot List.mem_cons_self e he
  · rename_i hphase
    cases hs
    rw [hphase] at hord
    exact inv_closing hi hphase hord
  · cases hs

/-- Only the next file lock of a call can fail. -/
theorem fail_inv (h : step proc s (.fail c) = some s') :
    ∃ mode fresh slot todo, (s.conns c).phase = .file mode fresh (slot :: todo) ∧
      s' = s.setConn c { s.conns c with phase := .undoFile (fresh ++ slot :: todo) fresh } := by
  simp only [step] at h
  split at h
  · rename_i mode fresh slot todo hphase
    exact ⟨mode, fresh, slot, todo, hphase, (Option.some.inj h).symm⟩
  · cases h

/-- A connection is dropped between two calls. -/
theorem drop_inv (h : step proc s (.drop c) = some s') : (s.conns c).phase = .idle ∧
    s' = { s with
      table := Function.update s.table (proc c) fun slot => (s.table (proc c) slot).unlock c
      conns := Function.update s.conns c { s.conns c with phase := .closing, holds := fun _ => none } } := by
  simp only [step, Option.ite_none_right_eq_some, Option.some.injEq] at h
  exact ⟨h.1, h.2.symm⟩

theorem step_inv {e : Event C} (hi : Inv proc s) (hord : Orderly proc s e)
    (hs : step proc s e = some s') : Inv proc s' := by
  cases e with
  | request c start stop lock =>
    simp only [step] at hs
    split at hs
    · rename_i hidle
      cases hs
      have hp : (s.conns c).phase.Plain := by
        rw [hidle]
        trivial
      have hnodup : ([] ++ List.range' start (stop - start)).Nodup := List.nodup_range'
      cases lock with
      | none => exact hi.rephase hp trivial trivial
      | shared | exclusive => exact hi.rephase hp trivial ⟨hnodup, fun _ hx => by cases hx⟩
    · cases hs
  | advance c => exact inv_advance hi hord hs
  | fail c =>
    obtain ⟨mode, fresh, slot, todo, hphase, rfl⟩ := fail_inv hs
    simp only [Orderly] at hord
    rw [hphase] at hord
    exact inv_refused hi hphase hord
  | drop c =>
    obtain ⟨-, rfl⟩ := drop_inv hs
    exact inv_drop hi

/-- In a run of orderly steps, no slot is held exclusively by one connection while another holds it, in
one process or several. -/
theorem wal_slots_exclude (proc : C → P) {es : List (Event C)} {s' : State P C}
    (hord : Meets (step proc) (Orderly proc) {} es) (hrun : run (step proc) {} es = some s')
    {c c' : C} (hne : c ≠ c') (slot : Nat) (hex : (s'.conns c).holds slot = some .exclusive) :
    (s'.conns c').holds slot = none := by
  have hinit : Inv proc ({} : State P C) := by
    refine ⟨fun _ _ => SlotState.sound_empty, guarded_empty.congr fun c => ?_, fun c =>
      ⟨fun e he => absurd he List.not_mem_nil, fun slot m hm => (by cases hm), fun e he => absurd he List.not_mem_nil, trivial⟩⟩
    exact Set.eq_empty_of_forall_notMem fun g ⟨e, he, _⟩ => List.not_mem_nil he
  have hi : Inv proc s' := run_invariant (fun _ _ _ h hc hs => step_inv h hc hs) hinit hord hrun
  cases hm : (s'.conns c').holds slot with
  | none => rfl
  | some m =>
    have hg : slotGuard .exclusive slot ∈ s'.held c := ⟨_, (hi.fits c).held slot _ hex, rfl⟩
    have hg' : slotGuard m slot ∈ s'.held c' := ⟨_, (hi.fits c').held slot _ hm, rfl⟩
    exact absurd ⟨overlaps_slotGuard.mpr rfl, .inl rfl⟩ (hi.guarded.exclusion hne hg hg')

/-- What is left to ask of a step when every connection has a process of its own. -/
def calm (proc : C → P) (s : State P C) : Event C → Bool
  | .advance c =>
    let k := s.conns c
    match k.phase with
    | .table mode done (slot :: _) =>
      ((s.table (proc c) slot).tryLock mode c).isSome || done.all fun x => (k.holds x).isNone
    | .file mode fresh (slot :: todo) =>
      if s.file.Grants (proc c) mode (slotGuard mode slot).range then (k.guard? slot).isNone
      else (fresh ++ slot :: todo).all fun x => (k.holds x).isNone
    | _ => true
  | .fail _ => false
  | .request .. => true
  | .drop _ => true

theorem orderly_of_calm (hinj : Function.Injective proc) {e : Event C} (hc : calm proc s e = true) :
    Orderly proc s e := by
  have hun : ∀ c slot, Unshared proc s c slot := fun c slot c' hne hp => absurd (hinj hp) hne
  cases e with
  | request c start stop lock => trivial
  | drop c => trivial
  | fail c => cases hc
  | advance c =>
    simp only [calm] at hc
    simp only [Orderly]
    split
    · exact fun _ => hun c _
    · rename_i hphase
      simp only [hphase] at hc
      intro hnone x hx
      rw [hnone] at hc
      exact Option.isNone_iff_eq_none.mp (List.all_eq_true.mp hc x hx)
    · rename_i hphase
      simp only [hphase] at hc
      split
      · rename_i hgrant
        rw [if_pos hgrant] at hc
        exact Option.isNone_iff_eq_none.mp hc
      · rename_i hrefuse
        rw [if_neg hrefuse] at hc
        exact fun x hx => Option.isNone_iff_eq_none.mp (List.all_eq_true.mp hc x hx)
    · exact hun c _
    · exact fun c' hne hp => absurd (hinj hp) hne
    · trivial

namespace Example

/-- A connection locks slot 0. -/
def lockSlot (c : Nat) (lock : WalIndexLock) : List (Event Nat) :=
  [.request c 0 1 lock, .advance c, .advance c, .advance c, .advance c]

/-- A connection gives slot 0 back. -/
def releaseSlot (c : Nat) : List (Event Nat) :=
  [.request c 0 1 .none, .advance c, .advance c, .advance c]

end Example

open Example

/-- Two processes: the second is refused. -/
theorem second_process_gets_no_slot : ∃ s', run (step (id : Nat → Nat)) {}
      (lockSlot 0 .exclusive ++ lockSlot 1 .shared) = some s' ∧
    (s'.conns 0).holds 0 = some .exclusive ∧ (s'.conns 1).holds 0 = none := by
  have hrun : (run (step (id : Nat → Nat)) {} (lockSlot 0 .exclusive ++ lockSlot 1 .shared)).map
      (fun s => (s.conns 0).holds 0) = some (some .exclusive) := by decide +kernel
  obtain ⟨s', hs', hex⟩ := Option.map_eq_some_iff.mp hrun
  have hcalm : Meets (step (id : Nat → Nat)) (fun s e => calm id s e = true) {}
      (lockSlot 0 .exclusive ++ lockSlot 1 .shared) := by decide +kernel
  exact ⟨s', hs', hex, wal_slots_exclude (id : Nat → Nat)
    (hcalm.imp fun s e => orderly_of_calm Function.injective_id) hs' (by decide) 0 hex⟩

/-- Two readers in one process: when one of them is done, another process gets the slot exclusively
under the other. -/
theorem reader_loses_slot : ∃ s', run (step fun c : Nat => c / 2) {}
      (lockSlot 0 .shared ++ lockSlot 1 .shared ++ releaseSlot 0 ++ lockSlot 2 .exclusive) = some s' ∧
    (s'.conns 2).holds 0 = some .exclusive ∧ (s'.conns 1).holds 0 = some .shared ∧
    ¬ ∀ c c', c ≠ c' → ∀ slot, (s'.conns c).holds slot = some .exclusive →
      (s'.conns c').holds slot = none := by
  have hrun : (run (step fun c : Nat => c / 2) {}
      (lockSlot 0 .shared ++ lockSlot 1 .shared ++ releaseSlot 0 ++ lockSlot 2 .exclusive)).map
        (fun s => ((s.conns 2).holds 0, (s.conns 1).holds 0)) =
      some (some .exclusive, some .shared) := by decide +kernel
  obtain ⟨s', hs', heq⟩ := Option.map_eq_some_iff.mp hrun
  obtain ⟨h₂, h₁⟩ : (s'.conns 2).holds 0 = some .exclusive ∧ (s'.conns 1).holds 0 = some .shared :=
    Prod.ext_iff.mp heq
  refine ⟨s', hs', h₂, h₁, fun hall => ?_⟩
  have hnone := hall 2 1 (by decide) 0 h₂
  rw [h₁] at hnone
  cases hnone

end WalLocks

end Turbolite
