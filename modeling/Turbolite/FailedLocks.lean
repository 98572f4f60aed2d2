import Turbolite.DbExclusion
import Turbolite.WalExclusion

/-!
# Turbolite.FailedLocks

What a lock call that returns `Ok(false)` or an error leaves behind. A WAL call gives back the slots it
went through by number, also those the connection had before; a database call for Shared gives up every
range before it tries, and one for Exclusive gives up the shared range. `refused_iff` and `failed_iff`
say exactly when nothing has changed, whatever other connections and handles do during the call.
-/

namespace Turbolite

open RangeLocks Runs

/-! ### The table of the WAL index -/

namespace SlotState

variable {C : Type} [DecidableEq C]

/-- What the table says of a connection: whether it has the slot shared, and exclusively. -/
def entry (st : SlotState C) (c : C) : Bool × Bool :=
  (decide (c ∈ st.shared), decide (st.exclusive = some c))

variable {st st' : SlotState C} {c c' : C} {m : Mode}

theorem entry_unlock_self : (st.unlock c).entry c = (false, false) := by
  have hshared : c ∉ (st.unlock c).shared := fun h => of_decide_eq_true (List.mem_filter.mp h).2 rfl
  have hexclusive : (st.unlock c).exclusive ≠ some c := by
    simp only [unlock]
    split
    · rintro ⟨⟩
    · rename_i hne
      exact hne
  rw [entry, decide_eq_false hshared, decide_eq_false hexclusive]

theorem entry_unlock_of_ne (hne : c' ≠ c) : (st.unlock c').entry c = st.entry c := by
  have hshared : c ∈ (st.unlock c').shared ↔ c ∈ st.shared := by
    simp [unlock, Ne.symm hne]
  have hexclusive : (st.unlock c').exclusive = some c ↔ st.exclusive = some c := by
    simp only [unlock]
    split
    · rename_i heq
      rw [heq]
      exact iff_of_false (by rintro ⟨⟩) fun h => hne (Option.some.inj h)
    · rfl
  rw [entry, entry, decide_eq_decide.mpr hshared, decide_eq_decide.mpr hexclusive]

/-- A slot that another connection gets. -/
theorem entry_tryLock_of_ne (hne : c' ≠ c) (h : st.tryLock m c' = some st') :
    st'.entry c = st.entry c := by
  cases m with
  | exclusive =>
    simp only [tryLock] at h
    split at h
    · cases h
    · rename_i hfree
      cases h
      have hold : st.exclusive ≠ some c := by
        intro hex
        refine hfree (.inl ⟨by rw [hex]; rfl, ?_⟩)
        rw [hex]
        exact fun heq => hne (Option.some.inj heq).symm
      have hnew : some c' ≠ some c := fun heq => hne (Option.some.inj heq)
      simp [entry, hold, hnew, Ne.symm hne]
  | shared =>
    simp only [tryLock] at h
    split at h
    · cases h
    · cases h
      simp [entry, Ne.symm hne]

end SlotState

/-! ### Calls of the WAL index -/

namespace WalLocks

variable {P C : Type} [DecidableEq P] [DecidableEq C] (proc : C → P)

/-- What the lock table has of one connection and slot. -/
def State.entry (s : State P C) (c : C) (slot : Nat) : Bool × Bool := (s.table (proc c) slot).entry c

/-- No call of the connection begins. -/
def Quiet (c : C) (_ : State P C) : Event C → Prop
  | .request c' _ _ _ => c' ≠ c
  | .drop c' => c' ≠ c
  | .advance _ => True
  | .fail _ => True

instance (c : C) (s : State P C) : (e : Event C) → Decidable (Quiet c s e)
  | .request c' _ _ _ => inferInstanceAs (Decidable (c' ≠ c))
  | .drop c' => inferInstanceAs (Decidable (c' ≠ c))
  | .advance _ => .isTrue trivial
  | .fail _ => .isTrue trivial

/-- The phases that try to lock. -/
def Phase.tries : Phase → Bool
  | .table .. | .file .. => true
  | _ => false

/-- The phases that give slots back. -/
def Phase.undoes : Phase → Bool
  | .undoTable _ | .undoFile .. | .dropFresh _ => true
  | _ => false

theorem Phase.undoes_of_tries {phase : Phase} (h : phase.tries = true) : phase.undoes = false := by
  cases phase with
  | table | file => rfl
  | _ => cases h

/-- A call from `s` that is refused, gives slots back from `rollback` on and is about to return
`Ok(false)` or an error in `s'`. Other connections do what they like in between. -/
inductive Refused (s : State P C) (c : C) (start stop : Nat) (lock : WalIndexLock) (rollback : Phase)
    (s' : State P C) : Prop where
  | intro (m r r' : State P C) (es fs : List (Event C)) (e : Event C)
    (request : step proc s (.request c start stop lock) = some m)
    (before : Meets (step proc) (Quiet c) m es) (tried : run (step proc) m es = some r)
    (trying : (r.conns c).phase.tries = true) (refusal : step proc r e = some r')
    (refused : (r'.conns c).phase = rollback) (undoes : rollback.undoes = true)
    (after : Meets (step proc) (Quiet c) r' fs) (undone : run (step proc) r' fs = some s')
    (returns : (s'.conns c).phase = .undoTable [] ∨ (s'.conns c).phase = .dropFresh [])

/-- The connection has the slots and the guards it had, in the same modes. -/
structure Unchanged (c : C) (s s' : State P C) : Prop where
  table : ∀ slot, s'.entry proc c slot = s.entry proc c slot
  guards : ∀ slot, (s'.conns c).guard? slot = (s.conns c).guard? slot

/-- The connection had none of the slots in the table, and none of the guards, that the rollback gives
back. -/
def GivesBackNothing (c : C) (s : State P C) : Phase → Prop
  | .undoTable slots => ∀ x ∈ slots, s.entry proc c x = (false, false)
  | .undoFile slots fresh => (∀ x ∈ slots, s.entry proc c x = (false, false)) ∧
      ∀ x ∈ fresh, (s.conns c).guard? x = none
  | _ => True

/-! #### What a call has changed -/

/-- The call has changed the table at the slots `given` only, and lost the guards `dropped`. -/
structure Changed (s₀ : State P C) (c : C) (s : State P C) (given dropped : List Nat) : Prop where
  active : (s.conns c).active = (s₀.conns c).active.filter fun e => decide (e.1 ∉ dropped)
  table : ∀ x, x ∉ given → s.entry proc c x = s₀.entry proc c x

/-- As long as the call tries. -/
def Trying (s₀ : State P C) (c : C) (s : State P C) : Prop :=
  match (s.conns c).phase with
  | .table _ done _ => Changed proc s₀ c s done []
  | .file _ fresh todo => Changed proc s₀ c s (fresh ++ todo) fresh
  | _ => True

/-- Of the slots `given`, all but those still to come are free. -/
structure Undone (s₀ : State P C) (c : C) (s : State P C) (given dropped todo : List Nat) : Prop
    extends Changed proc s₀ c s given dropped where
  inside : ∀ x ∈ todo, x ∈ given
  free : ∀ x ∈ given, x ∈ todo ∨ s.entry proc c x = (false, false)

/-- From the refusal on. -/
def Undoing (s₀ : State P C) (c : C) (rollback : Phase) (s : State P C) : Prop :=
  match rollback, (s.conns c).phase with
  | .undoTable given, .undoTable todo => Undone proc s₀ c s given [] todo
  | .undoFile given dropped, .undoFile todo _ => Undone proc s₀ c s given dropped todo
  | .undoFile given dropped, .dropFresh _ => Undone proc s₀ c s given dropped []
  | _, .idle => True
  | _, _ => False

variable {proc} {s₀ s s' : State P C} {c : C} {given dropped todo : List Nat} {slot : Nat} {k : Conn}

/-- Who takes the step. -/
def Event.conn : Event C → C
  | .request c _ _ _ => c
  | .advance c => c
  | .fail c => c
  | .drop c => c

section Frame

omit [DecidableEq P] in
theorem conns_setConn_of_ne {c' : C} (hne : c' ≠ c) : (s.setConn c' k).conns c = s.conns c :=
  Function.update_of_ne (Ne.symm hne) ..

omit [DecidableEq P] in
theorem conns_setConn_self : (s.setConn c k).conns c = k := Function.update_self ..

/-- A slot of another connection in the table. -/
theorem entry_setSlot_of_ne {c' : C} {x : Nat} {st : SlotState C}
    (hst : st.entry c = (s.table (proc c') x).entry c) :
    (s.setSlot (proc c') x st).entry proc c slot = s.entry proc c slot := by
  unfold State.entry
  rw [table_setSlot]
  split
  · rename_i h
    rw [hst, h.1, h.2]
  · rfl

theorem entry_unlockSlot_of_ne {c' : C} (hne : c' ≠ c) {x : Nat} :
    (s.unlockSlot proc c' x).entry proc c slot = s.entry proc c slot :=
  entry_setSlot_of_ne (SlotState.entry_unlock_of_ne hne)

/-- A slot the connection gives back. -/
theorem entry_unlockSlot_self {x : Nat} : (s.unlockSlot proc c x).entry proc c slot =
    if slot = x then (false, false) else s.entry proc c slot := by
  unfold State.entry State.unlockSlot
  rw [table_setSlot]
  split
  · rename_i h
    rw [if_pos h.2, SlotState.entry_unlock_self]
  · rename_i h
    rw [if_neg fun heq => h ⟨rfl, heq⟩]

/-- What another connection does changes nothing for this one. -/
theorem advance_frame {c' : C} (hne : c' ≠ c) (h : advance proc s c' = some s') :
    s'.conns c = s.conns c ∧ ∀ slot, s'.entry proc c slot = s.entry proc c slot := by
  unfold advance at h
  simp only at h
  split at h
  · cases h
  · cases h
    exact ⟨conns_setConn_of_ne hne, fun _ => rfl⟩
  · cases h
    exact ⟨conns_setConn_of_ne hne, fun _ => entry_unlockSlot_of_ne hne⟩
  · cases h
    refine ⟨?_, fun slot => ?_⟩
    · rw [conns_setConn_of_ne hne]
      split <;> rfl
    · unfold State.entry State.setConn
      dsimp only
      split <;> rfl
  · cases h
    exact ⟨conns_setConn_of_ne hne, fun _ => rfl⟩
  · split at h
    · rename_i st hst
      cases h
      exact ⟨conns_setConn_of_ne hne, fun _ => entry_setSlot_of_ne (SlotState.entry_tryLock_of_ne hne hst)⟩
    · cases h
      exact ⟨conns_setConn_of_ne hne, fun _ => rfl⟩
  · cases h
    exact ⟨conns_setConn_of_ne hne, fun _ => rfl⟩
  · cases h
    exact ⟨conns_setConn_of_ne hne, fun _ => entry_unlockSlot_of_ne hne⟩
  · cases h
    exact ⟨conns_setConn_of_ne hne, fun _ => rfl⟩
  · split at h
    · cases h
      refine ⟨?_, fun slot => ?_⟩
      · rw [conns_setConn_of_ne hne, State.takeGuard]
        split <;> rfl
      · unfold State.entry State.setConn State.takeGuard
        dsimp only
        split <;> rfl
    · cases h
      exact ⟨conns_setConn_of_ne hne, fun _ => rfl⟩
  · cases h
    exact ⟨conns_setConn_of_ne hne, fun _ => rfl⟩
  · cases h
    exact ⟨conns_setConn_of_ne hne, fun _ => entry_unlockSlot_of_ne hne⟩
  · cases h
    exact ⟨conns_setConn_of_ne hne, fun _ => rfl⟩
  · cases h
    exact ⟨conns_setConn_of_ne hne, fun _ => rfl⟩
  · cases h
    exact ⟨Function.update_of_ne (Ne.symm hne) .., fun _ => rfl⟩
  · cases h

theorem step_frame {e : Event C} (hne : e.conn ≠ c) (h : step proc s e = some s') :
    s'.conns c = s.conns c ∧ ∀ slot, s'.entry proc c slot = s.entry proc c slot := by
  cases e with
  | request c' start stop lock =>
    simp only [step] at h
    split at h
    · cases h
      exact ⟨conns_setConn_of_ne hne, fun _ => rfl⟩
    · cases h
  | advance c' => exact advance_frame hne h
  | fail c' =>
    obtain ⟨mode, fresh, slot, todo, -, rfl⟩ := fail_inv h
    exact ⟨conns_setConn_of_ne hne, fun _ => rfl⟩
  | drop c' =>
    obtain ⟨-, rfl⟩ := drop_inv h
    refine ⟨Function.update_of_ne (Ne.symm hne) .., fun slot => ?_⟩
    unfold State.entry
    by_cases hp : proc c = proc c'
    · rw [hp]
      dsimp only
      rw [Function.update_self]
      exact SlotState.entry_unlock_of_ne hne
    · dsimp only
      rw [Function.update_of_ne hp]

end Frame

/-! #### Trying -/

omit [DecidableEq P] in
theorem Changed.congr (h : Changed proc s₀ c s given dropped)
    (hactive : (s'.conns c).active = (s.conns c).active)
    (htable : ∀ x, x ∉ given → s'.entry proc c x = s.entry proc c x) :
    Changed proc s₀ c s' given dropped where
  active := hactive.trans h.active
  table x hx := (htable x hx).trans (h.table x hx)

/-- The table grants a slot. -/
theorem Changed.setSlot {st : SlotState C} {phase : Phase} (h : Changed proc s₀ c s given []) :
    Changed proc s₀ c ((s.setSlot (proc c) slot st).setConn c { s.conns c with phase := phase })
      (given ++ [slot]) [] where
  active := by
    rw [conns_setConn_self]
    exact h.active
  table x hx := by
    rw [List.mem_append, List.mem_singleton, not_or] at hx
    have hentry : (s.setSlot (proc c) slot st).entry proc c x = s.entry proc c x := by
      unfold State.entry
      rw [table_setSlot, if_neg fun heq => hx.2 heq.2]
    exact hentry.trans (h.table x hx.1)

omit [DecidableEq C] in
theorem table_takeGuard {mode : Mode} : (s.takeGuard proc c mode slot).table = s.table := by
  unfold State.takeGuard
  dsimp only
  split <;> rfl

/-- The file grants a slot: its old guard is gone. -/
theorem Changed.takeGuard {mode : Mode} {phase : Phase} (h : Changed proc s₀ c s given dropped) :
    Changed proc s₀ c ((s.takeGuard proc c mode slot).setConn c
      { (s.conns c).remove slot with phase := phase }) given (dropped ++ [slot]) where
  active := by
    rw [conns_setConn_self, Conn.remove]
    dsimp only
    rw [h.active, List.filter_filter]
    refine List.filter_congr fun e _ => ?_
    simp [and_comm]
  table x hx := by
    have hentry : (s.takeGuard proc c mode slot).entry proc c x = s.entry proc c x := by
      unfold State.entry
      rw [table_takeGuard]
    exact hentry.trans (h.table x hx)

theorem trying_advance (hi : Trying proc s₀ c s) (h : advance proc s c = some s') :
    Trying proc s₀ c s' := by
  unfold advance at h
  unfold Trying at hi
  simp only at h
  split at h
  · cases h
  · cases h
    simp only [Trying, conns_setConn_self]
  · cases h
    simp only [Trying, conns_setConn_self]
  · cases h
    simp only [Trying, conns_setConn_self]
  · rename_i mode done hphase
    cases h
    rw [hphase] at hi
    simp only [Trying, conns_setConn_self, List.nil_append]
    exact hi.congr (by rw [conns_setConn_self]) fun _ _ => rfl
  · rename_i mode done slot todo hphase
    rw [hphase] at hi
    split at h
    · cases h
      simp only [Trying, conns_setConn_self]
      exact hi.setSlot
    · cases h
      simp only [Trying, conns_setConn_self]
  · cases h
    simp only [Trying, conns_setConn_self]
  · cases h
    simp only [Trying, conns_setConn_self]
  · cases h
    simp only [Trying, conns_setConn_self]
  · rename_i mode fresh slot todo hphase
    rw [hphase] at hi
    split at h
    · cases h
      simp only [Trying, conns_setConn_self, List.append_assoc, List.singleton_append]
      exact hi.takeGuard
    · cases h
      simp only [Trying, conns_setConn_self]
  · cases h
    simp only [Trying, conns_setConn_self]
  · cases h
    simp only [Trying, conns_setConn_self]
  · cases h
    simp only [Trying, conns_setConn_self]
  · cases h
    simp only [Trying, conns_setConn_self]
  · cases h
    simp only [Trying, Function.update_self]
  · cases h

/-- A step of another connection keeps what is said of this one. -/
theorem Changed.frame {e : Event C} (hne : e.conn ≠ c) (hs : step proc s e = some s')
    (h : Changed proc s₀ c s given dropped) : Changed proc s₀ c s' given dropped :=
  h.congr (congrArg Conn.active (step_frame hne hs).1) fun x _ => (step_frame hne hs).2 x

theorem trying_step {e : Event C} (hi : Trying proc s₀ c s) (hq : Quiet c s e)
    (hs : step proc s e = some s') : Trying proc s₀ c s' := by
  by_cases hne : e.conn = c
  · cases e with
    | request c' start stop lock => exact absurd hne hq
    | drop c' => exact absurd hne hq
    | advance c' =>
      obtain rfl : c' = c := hne
      exact trying_advance hi hs
    | fail c' =>
      obtain rfl : c' = c := hne
      obtain ⟨mode, fresh, slot, todo, -, rfl⟩ := fail_inv hs
      simp only [Trying, conns_setConn_self]
  · have hconn := (step_frame hne hs).1
    unfold Trying at hi ⊢
    rw [hconn]
    split
    · rename_i hphase
      rw [hphase] at hi
      exact hi.frame hne hs
    · rename_i hphase
      rw [hphase] at hi
      exact hi.frame hne hs
    · trivial

/-! #### Giving back -/

/-- The refusal: everything the call has been through is given back. -/
theorem undoing_of_refusal {r r' : State P C} {e : Event C} (hi : Trying proc s₀ c r)
    (htry : (r.conns c).phase.tries = true) (hs : step proc r e = some r')
    (hundo : (r'.conns c).phase.undoes = true) : Undoing proc s₀ c (r'.conns c).phase r' := by
  -- a step of another connection leaves the phase alone
  by_cases hne : e.conn = c
  · cases e with
    | request c' start stop lock =>
      obtain rfl : c' = c := hne
      simp only [step] at hs
      split at hs
      · rename_i hidle
        rw [hidle] at htry
        cases htry
      · cases hs
    | drop c' =>
      obtain rfl : c' = c := hne
      obtain ⟨hidle, -⟩ := drop_inv hs
      rw [hidle] at htry
      cases htry
    | fail c' =>
      obtain rfl : c' = c := hne
      obtain ⟨mode, fresh, slot, todo, hphase, rfl⟩ := fail_inv hs
      simp only [Trying, hphase] at hi
      simp only [Undoing, conns_setConn_self]
      exact ⟨hi.congr (by rw [conns_setConn_self]) fun _ _ => rfl, fun _ hx => hx, fun _ hx => .inl hx⟩
    | advance c' =>
      obtain rfl : c' = c := hne
      cases hphase : (r.conns c').phase with
      | table mode done todo =>
        simp only [Trying, hphase] at hi
        cases todo with
        | nil =>
          simp only [step, advance, hphase] at hs
          cases hs
          simp only [conns_setConn_self] at hundo
          cases hundo
        | cons slot todo =>
          simp only [step, advance, hphase] at hs
          split at hs
          · cases hs
            simp only [conns_setConn_self] at hundo
            cases hundo
          · cases hs
            simp only [Undoing, conns_setConn_self]
            exact ⟨hi.congr (by rw [conns_setConn_self]) fun _ _ => rfl, fun _ hx => hx, fun _ hx => .inl hx⟩
      | file mode fresh todo =>
        simp only [Trying, hphase] at hi
        cases todo with
        | nil =>
          simp only [step, advance, hphase] at hs
          cases hs
          simp only [conns_setConn_self] at hundo
          cases hundo
        | cons slot todo =>
          simp only [step, advance, hphase] at hs
          split at hs
          · cases hs
            simp only [conns_setConn_self] at hundo
            cases hundo
          · cases hs
            simp only [Undoing, conns_setConn_self]
            exact ⟨hi.congr (by rw [conns_setConn_self]) fun _ _ => rfl, fun _ hx => hx, fun _ hx => .inl hx⟩
      | _ =>
        rw [hphase] at htry
        cases htry
  · rw [(step_frame hne hs).1, Phase.undoes_of_tries htry] at hundo
    cases hundo

/-- An entry is given back. -/
theorem Undone.unlockSlot {phase : Phase} (h : Undone proc s₀ c s given dropped (slot :: todo)) :
    Undone proc s₀ c ((s.unlockSlot proc c slot).setConn c { s.conns c with phase := phase })
      given dropped todo where
  active := by
    rw [conns_setConn_self]
    exact h.active
  table x hx := by
    have hne : x ≠ slot := fun heq => hx (heq ▸ h.inside slot List.mem_cons_self)
    exact (entry_unlockSlot_self.trans (if_neg hne)).trans (h.table x hx)
  inside x hx := h.inside x (List.mem_cons_of_mem _ hx)
  free x hx := by
    have hentry : ((s.unlockSlot proc c slot).setConn c { s.conns c with phase := phase }).entry proc c x =
        if x = slot then (false, false) else s.entry proc c x := entry_unlockSlot_self
    rw [hentry]
    split
    · exact .inr rfl
    · rename_i hne
      exact (h.free x hx).imp_left fun hmem => (List.mem_cons.mp hmem).resolve_left hne

omit [DecidableEq P] in
theorem Undone.congr (h : Undone proc s₀ c s given dropped todo)
    (hactive : (s'.conns c).active = (s.conns c).active)
    (htable : ∀ x, s'.entry proc c x = s.entry proc c x) : Undone proc s₀ c s' given dropped todo where
  toChanged := h.toChanged.congr hactive fun x _ => htable x
  inside := h.inside
  free x hx := by
    rw [htable]
    exact h.free x hx

theorem undoing_advance {rollback : Phase} (hi : Undoing proc s₀ c rollback s)
    (h : advance proc s c = some s') : Undoing proc s₀ c rollback s' := by
  unfold Undoing at hi
  split at hi
  · rename_i given todo hphase
    cases todo with
    | nil =>
      simp only [advance, hphase] at h
      cases h
      simp only [Undoing, conns_setConn_self]
    | cons slot todo =>
      simp only [advance, hphase] at h
      cases h
      simp only [Undoing, conns_setConn_self]
      exact hi.unlockSlot
  · rename_i given dropped todo fresh hphase
    cases todo with
    | nil =>
      simp only [advance, hphase] at h
      cases h
      simp only [Undoing, conns_setConn_self]
      exact hi.congr (by rw [conns_setConn_self]) fun _ => rfl
    | cons slot todo =>
      simp only [advance, hphase] at h
      cases h
      simp only [Undoing, conns_setConn_self]
      exact hi.unlockSlot
  · rename_i given dropped fresh hphase
    cases fresh with
    | nil =>
      simp only [advance, hphase] at h
      cases h
      simp only [Undoing, conns_setConn_self]
    | cons slot fresh =>
      simp only [advance, hphase] at h
      cases h
      simp only [Undoing, conns_setConn_self]
      exact hi.congr (by rw [conns_setConn_self]) fun _ => rfl
  · rename_i hphase
    simp only [advance, hphase] at h
    cases h
  · exact hi.elim

theorem undoing_step {rollback : Phase} {e : Event C} (hi : Undoing proc s₀ c rollback s)
    (hq : Quiet c s e) (hs : step proc s e = some s') : Undoing proc s₀ c rollback s' := by
  by_cases hne : e.conn = c
  · cases e with
    | request c' start stop lock => exact absurd hne hq
    | drop c' => exact absurd hne hq
    | advance c' =>
      obtain rfl : c' = c := hne
      exact undoing_advance hi hs
    | fail c' =>
      obtain rfl : c' = c := hne
      obtain ⟨mode, fresh, slot, todo, hphase, -⟩ := fail_inv hs
      simp only [Undoing, hphase] at hi
  · obtain ⟨hconn, htable⟩ := step_frame hne hs
    have hactive := congrArg Conn.active hconn
    unfold Undoing at hi ⊢
    rw [hconn]
    split at hi
    · exact hi.congr hactive htable
    · exact hi.congr hactive htable
    · exact hi.congr hactive htable
    · trivial
    · exact hi.elim

/-! #### The call as a whole -/

/-- The guards that are left. -/
theorem guard?_of_active {k₀ : Conn} (h : k.active = k₀.active.filter fun e => decide (e.1 ∉ dropped)) :
    k.guard? slot = if slot ∈ dropped then none else k₀.guard? slot := by
  unfold Conn.guard?
  rw [h, List.find?_filter]
  split
  · rename_i hmem
    rw [List.find?_eq_none.mpr]
    · rfl
    · intro e _ he
      simp only [decide_eq_true_eq] at he
      exact he.1 (he.2 ▸ hmem)
  · rename_i hmem
    refine congrArg (fun p => (k₀.active.find? p).map (·.2)) (funext fun e => ?_)
    by_cases heq : e.1 = slot
    · simp [heq, hmem]
    · simp [heq]

omit [DecidableEq P] in
/-- When everything is given back. -/
theorem unchanged_iff (h : Undone proc s₀ c s given dropped []) : Unchanged proc c s₀ s ↔
    (∀ x ∈ given, s₀.entry proc c x = (false, false)) ∧ ∀ x ∈ dropped, (s₀.conns c).guard? x = none := by
  have hfree : ∀ x ∈ given, s.entry proc c x = (false, false) := fun x hx =>
    (h.free x hx).resolve_left List.not_mem_nil
  constructor
  · intro hu
    refine ⟨fun x hx => (hu.table x).symm.trans (hfree x hx), fun x hx => ?_⟩
    rw [← hu.guards x, guard?_of_active h.active, if_pos hx]
  · rintro ⟨hentries, hguards⟩
    refine ⟨fun x => ?_, fun x => ?_⟩
    · by_cases hx : x ∈ given
      · rw [hfree x hx, hentries x hx]
      · exact h.table x hx
    · rw [guard?_of_active h.active]
      split
      · rename_i hx
        exact (hguards x hx).symm
      · rfl

omit [DecidableEq P] in
theorem changed_self : Changed proc s c s [] [] where
  active := by simp
  table _ _ := rfl

/-- A refused call changes nothing exactly if it gives back nothing the connection had. -/
theorem refused_iff {start stop : Nat} {lock : WalIndexLock} {rollback : Phase}
    (h : Refused proc s c start stop lock rollback s') :
    Unchanged proc c s s' ↔ GivesBackNothing proc c s rollback := by
  obtain ⟨m, r, r', es, fs, e, hrequest, hbefore, htried, htry, hrefusal, rfl, hundoes, hafter, hundone,
    hreturns⟩ := h
  have hm : Trying proc s c m := by
    simp only [step] at hrequest
    split at hrequest
    · cases hrequest
      cases lock with
      | none => simp only [Trying, conns_setConn_self]
      | shared | exclusive =>
        simp only [Trying, conns_setConn_self]
        exact changed_self.congr (by rw [conns_setConn_self]) fun _ _ => rfl
    · cases hrequest
  have hr := run_invariant (fun _ _ _ hi hq hs => trying_step hi hq hs) hm hbefore htried
  have hr' := undoing_of_refusal hr htry hrefusal hundoes
  have hs' := run_invariant (fun _ _ _ hi hq hs => undoing_step hi hq hs) hr' hafter hundone
  unfold Undoing at hs'
  split at hs'
  · rename_i given todo hrollback hphase
    obtain rfl : todo = [] := by
      rcases hreturns with hr | hr <;> rw [hphase] at hr <;> cases hr
      rfl
    rw [unchanged_iff hs', hrollback]
    exact and_iff_left fun x hx => absurd hx List.not_mem_nil
  · rename_i hphase
    rcases hreturns with hr | hr <;> rw [hphase] at hr <;> cases hr
  · rename_i given dropped fresh hrollback hphase
    rw [unchanged_iff hs', hrollback]
    rfl
  · rename_i hphase
    rcases hreturns with hr | hr <;> rw [hphase] at hr <;> cases hr
  · exact hs'.elim

end WalLocks

/-! ### Calls of the database file -/

namespace DbLocks

variable {P H : Type} [DecidableEq P] [DecidableEq H] (proc : H → P)

/-- No call of the handle begins. -/
def Quiet (h : H) (_ : State P H) : Event H → Prop
  | .request h' _ => h' ≠ h
  | .close h' => h' ≠ h
  | .drop _ _ => True
  | .advance _ => True
  | .fail _ => True

instance (h : H) (s : State P H) : (e : Event H) → Decidable (Quiet h s e)
  | .request h' _ => inferInstanceAs (Decidable (h' ≠ h))
  | .close h' => inferInstanceAs (Decidable (h' ≠ h))
  | .drop _ _ => .isTrue trivial
  | .advance _ => .isTrue trivial
  | .fail _ => .isTrue trivial

/-- A call from `s` that the event `e`, in state `r`, ends with `Ok(false)` or an error: the level is not
the one asked for. Other handles do what they like in between. -/
inductive Failed (s : State P H) (h : H) (kind : LockKind) (r : State P H) (e : Event H)
    (s' : State P H) : Prop where
  | intro (m : State P H) (es : List (Event H)) (request : step proc s (.request h kind) = some m)
    (during : Meets (step proc) (Quiet h) m es) (reached : run (step proc) m es = some r)
    (busy : (r.handles h).phase ≠ .idle) (last : step proc r e = some s')
    (returns : (s'.handles h).phase = .idle) (failed : (s'.handles h).lock ≠ kind)

/-- The level and the ranges are those from before; a pending range may have come. -/
structure Intact (h : H) (s s' : State P H) : Prop where
  level : (s'.handles h).lock = (s.handles h).lock
  ranges : ∀ g, g ≠ .pending → (g ∈ (s'.handles h).active ↔ g ∈ (s.handles h).active)
  pending : .pending ∈ (s.handles h).active → .pending ∈ (s'.handles h).active

/-- The shared range is taken again. -/
def Retaken (h : H) (r : State P H) (e : Event H) : Prop :=
  e = .advance h ∧ r.table.Grants (proc h) DbGuard.shared.guard.mode DbGuard.shared.guard.range

/-- A call for Shared had no ranges to give up. One for Exclusive that gave up the shared range fails
only after it has that range again. -/
def Restores (h : H) (kind : LockKind) (s r : State P H) (e : Event H) : Prop :=
  match kind, (r.handles h).phase with
  | .shared, _ => (s.handles h).active = []
  | .exclusive, .takeRange => .shared ∉ (s.handles h).active
  | .exclusive, .restoreShared => .shared ∈ (s.handles h).active ↔ Retaken proc h r e
  | _, _ => True

/-! #### What a call has changed -/

/-- The ranges from before, with the pending one; `shared` says whether the shared one is among them. -/
structure Escalated (before active : List DbGuard) (shared : Prop) : Prop where
  others : ∀ g, g ≠ .pending → g ≠ .shared → (g ∈ active ↔ g ∈ before)
  pending : .pending ∈ active
  shared_iff : .shared ∈ active ↔ shared
  nodup : active.Nodup

/-- Where the call is, and what it has given up and taken. -/
def During (before : HandleLocks) (kind : LockKind) (l : HandleLocks) : Prop :=
  match l.phase with
  | .idle => True
  | .clear shared => l.lock = before.lock ∧ kind = if shared then .shared else .none
  | .probePending => l.lock = before.lock ∧ kind = .shared ∧ l.active = []
  | .dropProbe => l.lock = before.lock ∧ kind = .shared ∧ l.active = [.probe]
  | .takeShared => l.lock = before.lock ∧ kind = .shared ∧ l.active = []
  | .takeReserved => l.lock = before.lock ∧ kind = .reserved ∧ l.active = before.active
  | .takePending => l.lock = before.lock ∧ kind = .pending ∧ l.active = before.active
  | .exclusivePending => l.lock = before.lock ∧ kind = .exclusive ∧ l.active = before.active
  | .dropShared => l.lock = before.lock ∧ kind = .exclusive ∧
      Escalated before.active l.active (.shared ∈ before.active)
  | .takeRange => l.lock = before.lock ∧ kind = .exclusive ∧ Escalated before.active l.active False
  | .restoreShared => l.lock = before.lock ∧ kind = .exclusive ∧ Escalated before.active l.active False

variable {proc} {s s' : State P H} {h : H} {kind : LockKind} {before l : HandleLocks}

/-- Who takes the step. -/
def Event.handle : Event H → H
  | .request h _ => h
  | .drop h _ => h
  | .advance h => h
  | .fail h => h
  | .close h => h

omit [DecidableEq P] in
theorem handles_setHandle_self : (s.setHandle h l).handles h = l := Function.update_self ..

omit [DecidableEq P] in
theorem handles_setHandle_of_ne {h' : H} (hne : h' ≠ h) : (s.setHandle h' l).handles h = s.handles h :=
  Function.update_of_ne (Ne.symm hne) ..

theorem handles_dropGuard_of_ne {h' : H} (hne : h' ≠ h) {g : DbGuard} :
    (s.dropGuard proc h' g).handles h = s.handles h := Function.update_of_ne (Ne.symm hne) ..

theorem handles_insertGuard_of_ne {h' : H} (hne : h' ≠ h) {g : DbGuard} :
    (s.insertGuard proc h' g).handles h = s.handles h := by
  unfold State.insertGuard
  dsimp only
  split
  · rfl
  · exact Function.update_of_ne (Ne.symm hne) ..

omit [DecidableEq P] in
theorem handles_finish_of_ne {h' : H} (hne : h' ≠ h) (out : LockKind ⊕ Phase) :
    (s.finish h' out).handles h = s.handles h := by
  cases out <;> exact handles_setHandle_of_ne hne

/-- What another handle does changes nothing for this one. -/
theorem advance_frame {h' : H} (hne : h' ≠ h) (hs : advance proc s h' = some s') :
    s'.handles h = s.handles h := by
  unfold advance at hs
  dsimp only at hs
  split at hs
  · cases hs
  · split at hs
    · cases hs
      split
      · exact handles_setHandle_of_ne hne
      · exact handles_setHandle_of_ne hne
    · cases hs
  · cases hs
    exact (handles_setHandle_of_ne hne).trans (handles_dropGuard_of_ne hne)
  · cases hs
    refine (handles_setHandle_of_ne hne).trans ?_
    split
    · exact handles_dropGuard_of_ne hne
    · rfl
  · obtain ⟨g, -, rfl⟩ := Option.map_eq_some_iff.mp hs
    split
    · exact (handles_finish_of_ne hne _).trans (handles_insertGuard_of_ne hne)
    · exact handles_setHandle_of_ne hne

theorem step_frame {e : Event H} (hne : e.handle ≠ h) (hs : step proc s e = some s') :
    s'.handles h = s.handles h := by
  cases e with
  | request h' kind =>
    obtain ⟨-, rfl | ⟨phase, -, rfl⟩⟩ := request_inv hs
    · rfl
    · exact handles_setHandle_of_ne hne
  | drop h' g =>
    obtain ⟨-, -, rfl⟩ := drop_inv hs
    exact handles_dropGuard_of_ne hne
  | advance h' => exact advance_frame hne hs
  | fail h' =>
    obtain ⟨-, rfl⟩ := fail_inv hs
    exact handles_setHandle_of_ne hne
  | close h' =>
    obtain ⟨-, rfl⟩ := close_inv hs
    exact Function.update_of_ne (Ne.symm hne) ..

/-! #### The steps of the call -/

theorem handles_insertGuard (g : DbGuard) : (s.insertGuard proc h g).handles h =
    { s.handles h with
      active := if g ∈ (s.handles h).active then (s.handles h).active else g :: (s.handles h).active } := by
  unfold State.insertGuard
  dsimp only
  split
  · rfl
  · exact Function.update_self ..

/-- A range that the ranges from before may already have. -/
theorem mem_inserted {g g' : DbGuard} {active : List DbGuard} :
    g' ∈ (if g ∈ active then active else g :: active) ↔ g' = g ∨ g' ∈ active := by
  split
  · rename_i hmem
    exact ⟨.inr, fun hor => hor.elim (fun heq => heq ▸ hmem) id⟩
  · exact List.mem_cons

theorem nodup_inserted {g : DbGuard} {active : List DbGuard} (hnd : active.Nodup) :
    (if g ∈ active then active else g :: active).Nodup := by
  split
  · exact hnd
  · rename_i hmem
    exact List.nodup_cons.mpr ⟨hmem, hnd⟩

theorem escalated_of_pending {active : List DbGuard} (hnd : active.Nodup) :
    Escalated active (if .pending ∈ active then active else .pending :: active) (.shared ∈ active) where
  others _ hp _ := mem_inserted.trans (or_iff_right hp)
  pending := mem_inserted.mpr (.inl rfl)
  shared_iff := mem_inserted.trans (or_iff_right nofun)
  nodup := nodup_inserted hnd

theorem Escalated.dropShared {before active : List DbGuard} {shared : Prop}
    (he : Escalated before active shared) : Escalated before (active.erase .shared) False where
  others g hp hs := (List.mem_erase_of_ne hs).trans (he.others g hp hs)
  pending := (List.mem_erase_of_ne (by decide)).mpr he.pending
  shared_iff := iff_of_false he.nodup.not_mem_erase id
  nodup := he.nodup.erase _

theorem Escalated.retake {before active : List DbGuard} {shared : Prop}
    (he : Escalated before active shared) :
    Escalated before (if .shared ∈ active then active else .shared :: active) True where
  others g hp hs := (mem_inserted.trans (or_iff_right hs)).trans (he.others g hp hs)
  pending := mem_inserted.mpr (.inr he.pending)
  shared_iff := iff_of_true (mem_inserted.mpr (.inl rfl)) trivial
  nodup := nodup_inserted he.nodup

theorem during_request (hnd : (s.handles h).active.Nodup) {m : State P H}
    (hs : step proc s (.request h kind) = some m) : During (s.handles h) kind (m.handles h) := by
  simp only [step] at hs
  split at hs
  · rename_i hidle
    split at hs
    · cases hs
      simp only [During, hidle]
    · rename_i phase hphase
      cases hs
      rw [State.setPhase, handles_setHandle_self]
      unfold HandleLocks.request at hphase
      split at hphase
      · cases hphase
      · cases kind with
        | none | shared =>
          cases hphase
          exact ⟨rfl, rfl⟩
        | reserved | pending =>
          dsimp only at hphase
          split at hphase
          · cases hphase
          · cases hphase
            exact ⟨rfl, rfl, rfl⟩
        | exclusive =>
          dsimp only at hphase
          split at hphase
          · cases hphase
          · split at hphase
            · rename_i hpending
              cases hphase
              have he := escalated_of_pending hnd
              rw [if_pos hpending] at he
              exact ⟨rfl, rfl, he⟩
            · cases hphase
              exact ⟨rfl, rfl, rfl⟩
  · cases hs

/-- A try is granted, or refused. -/
theorem advance_tries {g : DbGuard} (hg : (s.handles h).phase.tries = some g)
    (hs : advance proc s h = some s') :
    s.table.Grants (proc h) g.guard.mode g.guard.range ∧
        s' = (s.insertGuard proc h g).finish h (s.handles h).phase.granted ∨
      ¬ s.table.Grants (proc h) g.guard.mode g.guard.range ∧
        s' = s.setPhase h (s.handles h).phase.refused := by
  unfold advance at hs
  dsimp only at hs
  split at hs
  · cases hs
  · rename_i hphase
    rw [hphase] at hg
    cases hg
  · rename_i hphase
    rw [hphase] at hg
    cases hg
  · rename_i hphase
    rw [hphase] at hg
    cases hg
  · rw [hg, Option.map_some] at hs
    split at hs
    · rename_i hgrant
      cases hs
      exact .inl ⟨hgrant, rfl⟩
    · rename_i hrefuse
      cases hs
      exact .inr ⟨hrefuse, rfl⟩

theorem during_advance (hnd : before.active.Nodup) (hi : During before kind (s.handles h))
    (hs : advance proc s h = some s') : During before kind (s'.handles h) := by
  -- a call that has returned is no longer under way
  have hidle : ∀ l : HandleLocks, l.phase = .idle → During before kind l := by
    intro l hl
    simp only [During, hl]
  cases hphase : (s.handles h).phase with
  | idle =>
    simp only [advance, hphase] at hs
    cases hs
  | clear shared =>
    simp only [During, hphase] at hi
    simp only [advance, hphase] at hs
    split at hs
    · rename_i hempty
      cases hs
      split
      · rename_i hshared
        rw [State.setPhase, handles_setHandle_self]
        rw [if_pos hshared] at hi
        exact ⟨hi.1, hi.2, hempty⟩
      · rw [handles_setHandle_self]
        exact hidle _ rfl
    · cases hs
  | dropProbe =>
    simp only [During, hphase] at hi
    simp only [advance, hphase] at hs
    cases hs
    rw [State.setPhase, handles_setHandle_self, State.dropGuard]
    dsimp only
    rw [Function.update_self]
    exact ⟨hi.1, hi.2.1, by dsimp only; rw [hi.2.2]; rfl⟩
  | dropShared =>
    simp only [During, hphase] at hi
    simp only [advance, hphase] at hs
    cases hs
    rw [State.setPhase, handles_setHandle_self]
    have he := hi.2.2.dropShared
    split
    · rw [State.dropGuard]
      dsimp only
      rw [Function.update_self]
      exact ⟨hi.1, hi.2.1, he⟩
    · rename_i hmem
      rw [List.erase_of_not_mem hmem] at he
      exact ⟨hi.1, hi.2.1, he⟩
  | probePending =>
    simp only [During, hphase] at hi
    rcases advance_tries (by rw [hphase]; rfl) hs with ⟨-, rfl⟩ | ⟨-, rfl⟩
    · rw [hphase, Phase.granted, State.finish, State.setPhase, handles_setHandle_self,
        handles_insertGuard, hi.2.2]
      exact ⟨hi.1, hi.2.1, rfl⟩
    · rw [State.setPhase, handles_setHandle_self]
      exact hidle _ (by rw [hphase]; rfl)
  | exclusivePending =>
    simp only [During, hphase] at hi
    rcases advance_tries (by rw [hphase]; rfl) hs with ⟨-, rfl⟩ | ⟨-, rfl⟩
    · rw [hphase, Phase.granted, State.finish, State.setPhase, handles_setHandle_self,
        handles_insertGuard, hi.2.2]
      exact ⟨hi.1, hi.2.1, escalated_of_pending hnd⟩
    · rw [State.setPhase, handles_setHandle_self]
      exact hidle _ (by rw [hphase]; rfl)
  | takeRange =>
    simp only [During, hphase] at hi
    rcases advance_tries (by rw [hphase]; rfl) hs with ⟨-, rfl⟩ | ⟨-, rfl⟩
    · rw [hphase, Phase.granted, State.finish, handles_setHandle_self]
      exact hidle _ rfl
    · rw [State.setPhase, handles_setHandle_self, hphase]
      exact hi
  | restoreShared =>
    rcases advance_tries (by rw [hphase]; rfl) hs with ⟨-, rfl⟩ | ⟨-, rfl⟩
    · rw [hphase, Phase.granted, State.finish, State.setPhase, handles_setHandle_self]
      exact hidle _ rfl
    · rw [State.setPhase, handles_setHandle_self]
      exact hidle _ (by rw [hphase]; rfl)
  | takeShared | takeReserved | takePending =>
    rcases advance_tries (by rw [hphase]; rfl) hs with ⟨-, rfl⟩ | ⟨-, rfl⟩
    · rw [hphase, Phase.granted, State.finish, handles_setHandle_self]
      exact hidle _ rfl
    · rw [State.setPhase, handles_setHandle_self]
      exact hidle _ (by rw [hphase]; rfl)

theorem during_step (hnd : before.active.Nodup) {e : Event H} (hi : During before kind (s.handles h))
    (hq : Quiet h s e) (hs : step proc s e = some s') : During before kind (s'.handles h) := by
  by_cases hne : e.handle = h
  · cases e with
    | request h' kind => exact absurd hne hq
    | close h' => exact absurd hne hq
    | advance h' =>
      obtain rfl : h' = h := hne
      exact during_advance hnd hi hs
    | drop h' g =>
      obtain rfl : h' = h := hne
      obtain ⟨⟨shared, hphase⟩, -, rfl⟩ := drop_inv hs
      simp only [During, hphase] at hi
      rw [State.dropGuard]
      dsimp only
      rw [Function.update_self]
      simp only [During, hphase]
      exact hi
    | fail h' =>
      obtain rfl : h' = h := hne
      obtain ⟨-, rfl⟩ := fail_inv hs
      rw [State.setPhase, handles_setHandle_self]
      simp only [During]
  · rw [step_frame hne hs]
    exact hi

/-! #### The call as a whole -/

section Ends

variable {r : State P H} {e : Event H}

omit [DecidableEq P] [DecidableEq H] in
theorem intact_of_nil (hlevel : (s'.handles h).lock = (s.handles h).lock)
    (hactive : (s'.handles h).active = []) : Intact h s s' ↔ (s.handles h).active = [] := by
  constructor
  · intro hk
    refine List.eq_nil_iff_forall_not_mem.mpr fun g hg => ?_
    by_cases hp : g = .pending
    · have := hk.pending (hp ▸ hg)
      rw [hactive] at this
      exact List.not_mem_nil this
    · have := (hk.ranges g hp).mpr hg
      rw [hactive] at this
      exact List.not_mem_nil this
  · intro hnil
    rw [← hnil] at hactive
    exact ⟨hlevel, fun g _ => by rw [hactive], fun hp => by rwa [hactive]⟩

omit [DecidableEq P] [DecidableEq H] in
theorem intact_of_eq (hlevel : (s'.handles h).lock = (s.handles h).lock)
    (hactive : (s'.handles h).active = (s.handles h).active) : Intact h s s' :=
  ⟨hlevel, fun g _ => by rw [hactive], fun hp => by rwa [hactive]⟩

omit [DecidableEq P] [DecidableEq H] in
theorem intact_of_escalated (shared : Prop) (hlevel : (s'.handles h).lock = (s.handles h).lock)
    (he : Escalated (s.handles h).active (s'.handles h).active shared) :
    Intact h s s' ↔ (.shared ∈ (s.handles h).active ↔ shared) := by
  constructor
  · intro hk
    rw [← he.shared_iff]
    exact (hk.ranges .shared nofun).symm
  · intro hshared
    refine ⟨hlevel, fun g hp => ?_, fun _ => he.pending⟩
    by_cases hs : g = .shared
    · rw [hs, he.shared_iff, hshared]
    · exact he.others g hp hs

omit [DecidableEq P] [DecidableEq H] in
/-- A try that was refused, or failed, ends the call. -/
theorem stopped_iff (hi : During (s.handles h) kind (r.handles h))
    (htries : (r.handles h).phase.tries.isSome = true)
    (hstop : s'.handles h = { r.handles h with phase := .idle })
    (hlost : (r.handles h).phase = .restoreShared → ¬ Retaken proc h r e) :
    Intact h s s' ↔ Restores proc h kind s r e := by
  have hlock : (s'.handles h).lock = (r.handles h).lock := by rw [hstop]
  have hactive : (s'.handles h).active = (r.handles h).active := by rw [hstop]
  cases hphase : (r.handles h).phase with
  | idle | clear | dropProbe | dropShared =>
    rw [hphase] at htries
    cases htries
  | probePending | takeShared =>
    simp only [During, hphase] at hi
    obtain ⟨hlevel, rfl, hnil⟩ := hi
    simp only [Restores]
    exact intact_of_nil (hlock.trans hlevel) (hactive.trans hnil)
  | takeReserved | takePending =>
    simp only [During, hphase] at hi
    obtain ⟨hlevel, rfl, hsame⟩ := hi
    simp only [Restores]
    exact iff_of_true (intact_of_eq (hlock.trans hlevel) (hactive.trans hsame)) trivial
  | exclusivePending =>
    simp only [During, hphase] at hi
    obtain ⟨hlevel, rfl, hsame⟩ := hi
    simp only [Restores, hphase]
    exact iff_of_true (intact_of_eq (hlock.trans hlevel) (hactive.trans hsame)) trivial
  | takeRange =>
    simp only [During, hphase] at hi
    obtain ⟨hlevel, rfl, he⟩ := hi
    simp only [Restores, hphase]
    rw [intact_of_escalated False (hlock.trans hlevel) (hactive ▸ he), iff_false]
  | restoreShared =>
    simp only [During, hphase] at hi
    obtain ⟨hlevel, rfl, he⟩ := hi
    simp only [Restores, hphase]
    rw [intact_of_escalated False (hlock.trans hlevel) (hactive ▸ he), iff_false, iff_false_right (hlost hphase)]

/-- The last step of a call that fails, when it is an own one of the machine. -/
theorem failed_advance_iff (hi : During (s.handles h) kind (r.handles h))
    (hs : advance proc r h = some s') (hreturns : (s'.handles h).phase = .idle)
    (hfailed : (s'.handles h).lock ≠ kind) : Intact h s s' ↔ Restores proc h kind s r (.advance h) := by
  -- the phases that do not try to lock go on, or return `Ok(true)`
  have htries : (r.handles h).phase.tries.isSome = true := by
    cases hphase : (r.handles h).phase with
    | idle =>
      simp only [advance, hphase] at hs
      cases hs
    | clear shared =>
      simp only [During, hphase] at hi
      simp only [advance, hphase] at hs
      split at hs
      · cases hs
        split at hreturns
        · rw [State.setPhase, handles_setHandle_self] at hreturns
          cases hreturns
        · rename_i hshared
          rw [if_neg hshared, handles_setHandle_self] at hfailed
          rw [if_neg hshared] at hi
          exact absurd hi.2.symm hfailed
      · cases hs
    | dropProbe | dropShared =>
      simp only [advance, hphase] at hs
      cases hs
      rw [State.setPhase, handles_setHandle_self] at hreturns
      cases hreturns
    | _ => rfl
  obtain ⟨g, hg⟩ := Option.isSome_iff_exists.mp htries
  rcases advance_tries hg hs with ⟨hgrant, rfl⟩ | ⟨hrefuse, rfl⟩
  · cases hphase : (r.handles h).phase with
    | idle | clear | dropProbe | dropShared =>
      rw [hphase] at htries
      cases htries
    | probePending | exclusivePending =>
      rw [hphase, Phase.granted, State.finish, State.setPhase, handles_setHandle_self] at hreturns
      cases hreturns
    | takeShared | takeReserved | takePending | takeRange =>
      rw [hphase, Phase.granted, State.finish, handles_setHandle_self] at hfailed
      simp only [During, hphase] at hi
      exact absurd hi.2.1.symm hfailed
    | restoreShared =>
      rw [hphase] at hg
      cases hg
      simp only [During, hphase] at hi
      obtain ⟨hlevel, rfl, he⟩ := hi
      have hend : ((r.insertGuard proc h .shared).finish h Phase.restoreShared.granted).handles h =
          { (r.insertGuard proc h .shared).handles h with phase := .idle } := handles_setHandle_self
      simp only [Restores, hphase]
      rw [intact_of_escalated True (by rw [hend, handles_insertGuard]; exact hlevel)
        (by rw [hend, handles_insertGuard]; exact he.retake)]
      exact iff_congr Iff.rfl (iff_of_true trivial ⟨rfl, hgrant⟩)
  · have hstop : (r.setPhase h (r.handles h).phase.refused).handles h =
        { r.handles h with phase := (r.handles h).phase.refused } := handles_setHandle_self
    have hidle : (r.handles h).phase.refused = .idle := by
      rw [hstop] at hreturns
      exact hreturns
    refine stopped_iff hi htries (hstop.trans (by rw [hidle])) fun hphase hretaken => hrefuse ?_
    rw [hphase] at hg
    cases hg
    exact hretaken.2

/-- A call that fails leaves level and ranges as they were, but for a pending range, exactly if it had
nothing to give up or has it again. `active_db_locks` is a map: no range is in it twice. -/
theorem failed_iff (hnd : (s.handles h).active.Nodup) (hf : Failed proc s h kind r e s') :
    Intact h s s' ↔ Restores proc h kind s r e := by
  obtain ⟨m, es, hrequest, hduring, hreached, hbusy, hlast, hreturns, hfailed⟩ := hf
  have hr := run_invariant (fun _ _ _ hi hq hs => during_step hnd hi hq hs)
    (during_request hnd hrequest) hduring hreached
  by_cases hne : e.handle = h
  · cases e with
    | request h' kind =>
      obtain rfl : h' = h := hne
      exact absurd (request_inv hlast).1 hbusy
    | close h' =>
      obtain rfl : h' = h := hne
      exact absurd (close_inv hlast).1 hbusy
    | drop h' g =>
      obtain rfl : h' = h := hne
      obtain ⟨⟨shared, hphase⟩, -, rfl⟩ := drop_inv hlast
      rw [State.dropGuard] at hreturns
      dsimp only at hreturns
      rw [Function.update_self, hphase] at hreturns
      cases hreturns
    | advance h' =>
      obtain rfl : h' = h := hne
      exact failed_advance_iff hr hlast hreturns hfailed
    | fail h' =>
      obtain rfl : h' = h := hne
      obtain ⟨htries, rfl⟩ := fail_inv hlast
      exact stopped_iff hr htries handles_setHandle_self fun _ hretaken => by cases hretaken.1
  · rw [step_frame hne hlast] at hreturns
    exact absurd hreturns hbusy

end Ends

end DbLocks

/-! ### Both lock calls -/

/-- When a lock call that fails leaves everything as it was: for the WAL index and for the database
file, in every state and whatever others do during the call. A call for a level that the code refuses
at once, or that fails before the first lock, has done nothing. -/
theorem failed_locks_iff {P C H : Type} [DecidableEq P] [DecidableEq C] [DecidableEq H] (conn : C → P)
    (handle : H → P) :
    (∀ s c start stop lock rollback s', WalLocks.Refused conn s c start stop lock rollback s' →
      (WalLocks.Unchanged conn c s s' ↔ WalLocks.GivesBackNothing conn c s rollback)) ∧
    (∀ s h kind r e s', (s.handles h).active.Nodup → DbLocks.Failed handle s h kind r e s' →
      (DbLocks.Intact h s s' ↔ DbLocks.Restores handle h kind s r e)) ∧
    ∀ s h kind s', (s.handles h).phase = .idle → (s.handles h).request kind = none →
      DbLocks.step handle s (.request h kind) = some s' → s' = s := by
  refine ⟨fun _ _ _ _ _ _ _ h => WalLocks.refused_iff h,
    fun _ _ _ _ _ _ hnd hf => DbLocks.failed_iff hnd hf, fun s h kind s' hidle hnone hs => ?_⟩
  simp only [DbLocks.step, if_pos hidle, hnone, Option.some.injEq] at hs
  exact hs.symm

/-! ### Calls on concrete locks -/

section Runs

variable {P C H : Type} [DecidableEq P] [DecidableEq C] [DecidableEq H]

/-- A refused call, read off the phases of a run. -/
theorem WalLocks.refused_of_run {proc : C → P} {s₀ s : WalLocks.State P C}
    {before : List (WalLocks.Event C)} (c : C) (start stop : Nat) (lock : WalIndexLock)
    (es : List (WalLocks.Event C)) (e : WalLocks.Event C) (fs : List (WalLocks.Event C))
    (trying rollback back : WalLocks.Phase) (hs : run (step proc) s₀ before = some s)
    (hquiet : ∀ x ∈ es ++ fs, ∀ m, Quiet c (m : WalLocks.State P C) x)
    (hr : (run (step proc) s₀ (before ++ .request c start stop lock :: es)).map
      (fun r => (r.conns c).phase) = some trying) (htry : trying.tries = true)
    (hr' : (run (step proc) s₀ (before ++ .request c start stop lock :: (es ++ [e]))).map
      (fun r => (r.conns c).phase) = some rollback) (hundo : rollback.undoes = true)
    (hs' : (run (step proc) s₀ (before ++ .request c start stop lock :: (es ++ e :: fs))).map
      (fun r => (r.conns c).phase) = some back) (hback : back = .undoTable [] ∨ back = .dropFresh []) :
    ∃ s', run (step proc) s₀ (before ++ .request c start stop lock :: (es ++ e :: fs)) = some s' ∧
      Refused proc s c start stop lock rollback s' := by
  obtain ⟨s', hrun, hphase⟩ := Option.map_eq_some_iff.mp hs'
  refine ⟨s', hrun, ?_⟩
  obtain ⟨_, hpre, hrest⟩ := run_append.mp hrun
  obtain rfl := Option.some.inj (hs.symm.trans hpre)
  obtain ⟨m, hm, hrest⟩ := run_cons.mp hrest
  obtain ⟨r, hes, hrest⟩ := run_append.mp hrest
  obtain ⟨r', he, hfs⟩ := run_cons.mp hrest
  have hrunr := run_append.mpr ⟨_, hs, run_cons.mpr ⟨m, hm, hes⟩⟩
  have hlast : run (step proc) r [e] = some r' := run_cons.mpr ⟨r', he, run_nil r'⟩
  have hrunr' := run_append.mpr ⟨_, hs, run_cons.mpr ⟨m, hm, run_append.mpr ⟨r, hes, hlast⟩⟩⟩
  rw [hrunr, Option.map_some, Option.some.injEq] at hr
  rw [hrunr', Option.map_some, Option.some.injEq] at hr'
  exact .intro m r r' es fs e hm
    (Meets.of_forall (fun x hx => hquiet x (List.mem_append_left _ hx)) m) hes (hr ▸ htry) he hr' hundo
    (Meets.of_forall (fun x hx => hquiet x (List.mem_append_right _ hx)) r') hfs (hphase ▸ hback)

/-- A call that fails, read off the phases of a run. -/
theorem DbLocks.failed_of_run {proc : H → P} {s₀ s : DbLocks.State P H}
    {before : List (DbLocks.Event H)} (h : H) (kind lock : LockKind) (es : List (DbLocks.Event H))
    (e : DbLocks.Event H) (busy : DbLocks.Phase)
    (hs : run (step proc) s₀ before = some s)
    (hquiet : ∀ x ∈ es, ∀ m, Quiet h (m : DbLocks.State P H) x)
    (hr : (run (step proc) s₀ (before ++ .request h kind :: es)).map
      (fun r => (r.handles h).phase) = some busy) (hbusy : busy ≠ .idle)
    (hs' : (run (step proc) s₀ (before ++ .request h kind :: (es ++ [e]))).map
      (fun r => ((r.handles h).phase, (r.handles h).lock)) = some (.idle, lock)) (hlock : lock ≠ kind) :
    ∃ r s', run (step proc) s₀ (before ++ .request h kind :: (es ++ [e])) = some s' ∧
      Failed proc s h kind r e s' ∧ (r.handles h).phase = busy := by
  obtain ⟨s', hrun, hphase⟩ := Option.map_eq_some_iff.mp hs'
  obtain ⟨hidle, hlevel⟩ : (s'.handles h).phase = .idle ∧ (s'.handles h).lock = lock :=
    Prod.ext_iff.mp hphase
  obtain ⟨_, hpre, hrest⟩ := run_append.mp hrun
  obtain rfl := Option.some.inj (hs.symm.trans hpre)
  obtain ⟨m, hm, hrest⟩ := run_cons.mp hrest
  obtain ⟨r, hes, hrest⟩ := run_append.mp hrest
  obtain ⟨_, he, hnil⟩ := run_cons.mp hrest
  obtain rfl := Option.some.inj hnil
  have hrunr := run_append.mpr ⟨_, hs, run_cons.mpr ⟨m, hm, hes⟩⟩
  rw [hrunr, Option.map_some, Option.some.injEq] at hr
  exact ⟨r, _, hrun, .intro m es hm (Meets.of_forall hquiet m) hes (hr ▸ hbusy) he hidle
    (hlevel ▸ hlock), hr⟩

end Runs

namespace Example

/-- Connections 0 and 1, each in a process of its own, lock slot 0 shared. -/
def readers : List (WalLocks.Event Nat) :=
  WalLocks.Example.lockSlot 0 .shared ++ WalLocks.Example.lockSlot 1 .shared

/-- Handle 0 is at Reserved, and handle 1 has kept its pending range after a refused call for
Exclusive. -/
def reservedAndPending : List (DbLocks.Event Nat) :=
  DbLocks.Example.takeShared 0 ++ DbLocks.Example.takeShared 1 ++
    [.request 0 .reserved, .advance 0] ++
    [.request 1 .exclusive, .advance 1, .advance 1, .advance 1, .advance 1]

end Example

open Example

/-- A writer in another process: connection 1 and handle 1 had nothing, are refused, and have nothing. -/
theorem refused_newcomers_unchanged :
    (∃ s s', run (WalLocks.step (id : Nat → Nat)) {} (WalLocks.Example.lockSlot 0 .exclusive) = some s ∧
      WalLocks.Refused id s 1 0 1 .shared (.undoFile [0] []) s' ∧ WalLocks.Unchanged id 1 s s') ∧
    ∃ s r s', run (DbLocks.step (id : Nat → Nat)) {} (DbLocks.Example.takeExclusive 0) = some s ∧
      DbLocks.Failed id s 1 .shared r (.advance 1) s' ∧ DbLocks.Intact 1 s s' := by
  obtain ⟨hwal, hdb, -⟩ := failed_locks_iff (id : Nat → Nat) (id : Nat → Nat)
  constructor
  · have hbefore : (run (WalLocks.step (id : Nat → Nat)) {}
        (WalLocks.Example.lockSlot 0 .exclusive)).map (fun s => s.entry id 1 0) =
          some (false, false) := by decide +kernel
    obtain ⟨s, hs, hnone⟩ := Option.map_eq_some_iff.mp hbefore
    obtain ⟨s', -, hrefused⟩ := WalLocks.refused_of_run 1 0 1 .shared [.advance 1, .advance 1]
      (.advance 1) [.advance 1, .advance 1] (.file .shared [] [0]) (.undoFile [0] []) (.dropFresh []) hs
      (by simp [WalLocks.Quiet]) (by decide +kernel) rfl (by decide +kernel) rfl (by decide +kernel)
      (.inr rfl)
    refine ⟨s, s', hs, hrefused, (hwal _ _ _ _ _ _ _ hrefused).mpr ⟨?_, fun _ hx => by cases hx⟩⟩
    exact List.forall_mem_singleton.mpr hnone
  · have hbefore : (run (DbLocks.step (id : Nat → Nat)) {} (DbLocks.Example.takeExclusive 0)).map
        (fun s => (s.handles 1).active) = some [] := by decide +kernel
    obtain ⟨s, hs, hnone⟩ := Option.map_eq_some_iff.mp hbefore
    obtain ⟨r, s', -, hfailed, -⟩ := DbLocks.failed_of_run 1 .shared .none [.advance 1]
      (.advance 1) .probePending hs (by simp [DbLocks.Quiet])
      (by decide +kernel) nofun (by decide +kernel) nofun
    exact ⟨s, r, s', hs, hfailed, (hdb _ _ _ _ _ _ (by rw [hnone]; exact List.nodup_nil) hfailed).mpr hnone⟩

/-- An upgrade that another process refuses takes the shared slot out of the table, and a downgrade that
another process refuses takes the ranges of a handle that stays at Reserved. -/
theorem refused_holders_lose :
    (∃ s s', run (WalLocks.step (id : Nat → Nat)) {} readers = some s ∧
      WalLocks.Refused id s 0 0 1 .exclusive (.undoFile [0] []) s' ∧
      s.entry id 0 0 = (true, false) ∧ s'.entry id 0 0 = (false, false) ∧
      ¬ WalLocks.Unchanged id 0 s s') ∧
    ∃ s r s', run (DbLocks.step (id : Nat → Nat)) {} reservedAndPending = some s ∧
      DbLocks.Failed id s 0 .shared r (.advance 0) s' ∧ (s'.handles 0).lock = .reserved ∧
      (s'.handles 0).active = [] ∧ ¬ DbLocks.Intact 0 s s' := by
  constructor
  · have hbefore : (run (WalLocks.step (id : Nat → Nat)) {} readers).map (fun s => s.entry id 0 0) =
        some (true, false) := by decide +kernel
    obtain ⟨s, hs, hheld⟩ := Option.map_eq_some_iff.mp hbefore
    obtain ⟨s', hs', hrefused⟩ := WalLocks.refused_of_run 0 0 1 .exclusive [.advance 0, .advance 0]
      (.advance 0) [.advance 0, .advance 0] (.file .exclusive [] [0]) (.undoFile [0] []) (.dropFresh []) hs
      (by simp [WalLocks.Quiet]) (by decide +kernel) rfl (by decide +kernel) rfl (by decide +kernel)
      (.inr rfl)
    have hafter : (run (WalLocks.step (id : Nat → Nat)) {} (readers ++ .request 0 0 1 .exclusive ::
        ([.advance 0, .advance 0] ++ .advance 0 :: [.advance 0, .advance 0]))).map
          (fun s => s.entry id 0 0) = some (false, false) := by decide +kernel
    rw [hs', Option.map_some, Option.some.injEq] at hafter
    refine ⟨s, s', hs, hrefused, hheld, hafter, fun hsame => ?_⟩
    have := hsame.table 0
    rw [hafter, hheld] at this
    cases this
  · have hbefore : (run (DbLocks.step (id : Nat → Nat)) {} reservedAndPending).map
        (fun s => decide (.reserved ∈ (s.handles 0).active)) = some true := by decide +kernel
    obtain ⟨s, hs, hheld⟩ := Option.map_eq_some_iff.mp hbefore
    obtain ⟨r, s', hs', hfailed, -⟩ := DbLocks.failed_of_run 0 .shared .reserved
      [.drop 0 .shared, .drop 0 .reserved, .advance 0] (.advance 0) .probePending hs (by simp [DbLocks.Quiet]) (by decide +kernel) nofun (by decide +kernel) nofun
    have hafter : (run (DbLocks.step (id : Nat → Nat)) {} (reservedAndPending ++ .request 0 .shared ::
        ([.drop 0 .shared, .drop 0 .reserved, .advance 0] ++ [.advance 0]))).map
          (fun s => ((s.handles 0).lock, (s.handles 0).active)) = some (.reserved, []) := by decide +kernel
    rw [hs', Option.map_some, Option.some.injEq] at hafter
    obtain ⟨hlock, hactive⟩ : (s'.handles 0).lock = .reserved ∧ (s'.handles 0).active = [] :=
      Prod.ext_iff.mp hafter
    refine ⟨s, r, s', hs, hfailed, hlock, hactive, fun hintact => ?_⟩
    have hmem := (hintact.ranges .reserved nofun).mpr (of_decide_eq_true hheld)
    rw [hactive] at hmem
    cases hmem

end Turbolite
