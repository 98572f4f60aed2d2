import Turbolite.Lib.Agents
import Turbolite.Lib.Runs

/-!
# Turbolite.RemoteIoBudget

`RemoteIoBudget` (`prefetch.rs`): two counters that acquirers raise by compare-and-swap, and a condition
variable that a full budget sends the foreground reader to. An agent is one acquisition with the permit
it returns; its phases are the atomic steps of `try_acquire_prefetch`, `acquire_foreground` and the
`Drop` of the permit, and any agent may take the next step. The counters hold along every run; that a
free permit is not slept on holds along the runs that `wakeups_iff` names.
-/

namespace Turbolite

open Runs Agents

/-- The permits in all, and those that only a foreground request may take. -/
structure RemoteIoBudget where
  total : Nat
  foregroundReserved : Nat

namespace RemoteIoBudget

/-- `RemoteIoBudget::new`. -/
def new (total foregroundReserved : Nat) : RemoteIoBudget where
  total := max total 1
  foregroundReserved := min foregroundReserved (max total 1)

/-- `prefetch_limit`. -/
def prefetchLimit (b : RemoteIoBudget) : Nat := b.total - b.foregroundReserved

/-- Where an agent is in the source. -/
inductive Phase where
  /-- at the limit check of `try_acquire_prefetch` -/
  | tryPrefetch
  | loadPrefetch
  | swapPrefetch (current : Nat)
  /-- the inner loop, with `prefetch_in_flight` raised -/
  | loadFlight
  | swapFlight (current : Nat)
  /-- at the `fetch_sub` before `None` -/
  | giveBack
  /-- at `mutex.lock`, or waiting for the mutex again after `notify_one` -/
  | lock (notified : Bool)
  | load (notified : Bool)
  | swap (notified : Bool) (current : Nat)
  /-- at `condvar.wait` -/
  | wait (notified : Bool)
  | asleep
  /-- at `note_max`, with `in_flight` raised -/
  | noteMax (prefetch : Bool) (value : Nat)
  /-- at the drop of the guard -/
  | unlock
  /-- the permit, until its `Drop` lowers `in_flight` -/
  | permit (prefetch : Bool)
  | dropPrefetch
  /-- at `notify_one` -/
  | notify
  | done
  deriving DecidableEq, Repr

/-- The counters, the mutex and the agents. -/
structure State where
  inFlight : Nat := 0
  prefetchInFlight : Nat := 0
  maxInFlight : Nat := 0
  locked : Bool := false
  agents : List Phase := []

/-- A call, or one step of one. -/
inductive Event where
  /-- a call of `try_acquire_prefetch` -/
  | tryAcquirePrefetch
  /-- a call of `acquire_foreground` -/
  | acquireForeground
  /-- the next atomic step of an agent -/
  | advance (i : Nat)
  /-- `notify_one` of an agent, with the sleeper it wakes -/
  | notifyOne (i : Nat) (sleeper : Option Nat)

namespace State

/-- One agent goes on. -/
def move (s : State) (i : Nat) (phase : Phase) : State := { s with agents := s.agents.set i phase }

end State

variable (b : RemoteIoBudget)

/-- The atomic step of agent `i` in its phase. -/
def advance (s : State) (i : Nat) : Phase → Option State
  | .tryPrefetch => some (s.move i (if b.prefetchLimit = 0 then .done else .loadPrefetch))
  | .loadPrefetch =>
    some (s.move i
      (if b.prefetchLimit ≤ s.prefetchInFlight then .done else .swapPrefetch s.prefetchInFlight))
  | .swapPrefetch current =>
    if s.prefetchInFlight = current then
      some { s.move i .loadFlight with prefetchInFlight := current + 1 }
    else some (s.move i .loadPrefetch)
  | .loadFlight =>
    some (s.move i (if b.total ≤ s.inFlight then .giveBack else .swapFlight s.inFlight))
  | .swapFlight current =>
    if s.inFlight = current then
      some { s.move i (.noteMax true (current + 1)) with inFlight := current + 1 }
    else some (s.move i .loadFlight)
  | .giveBack => some { s.move i .done with prefetchInFlight := s.prefetchInFlight - 1 }
  | .lock notified =>
    if s.locked then none else some { s.move i (.load notified) with locked := true }
  | .load notified =>
    some (s.move i (if s.inFlight < b.total then .swap notified s.inFlight else .wait notified))
  | .swap notified current =>
    if s.inFlight = current then
      some { s.move i (.noteMax false (current + 1)) with inFlight := current + 1 }
    -- a failed swap waits, however many permits are free
    else some (s.move i (.wait notified))
  | .wait _ => some { s.move i .asleep with locked := false }
  | .noteMax prefetch value =>
    some { s.move i (if prefetch then .permit true else .unlock) with
      maxInFlight := max s.maxInFlight value }
  | .unlock => some { s.move i (.permit false) with locked := false }
  | .permit prefetch =>
    some { s.move i (if prefetch then .dropPrefetch else .notify) with inFlight := s.inFlight - 1 }
  | .dropPrefetch => some { s.move i .notify with prefetchInFlight := s.prefetchInFlight - 1 }
  | .asleep | .notify | .done => none

/-- The next state; none where the step does not apply. -/
def step (s : State) : Event → Option State
  | .tryAcquirePrefetch => some { s with agents := s.agents ++ [.tryPrefetch] }
  | .acquireForeground => some { s with agents := s.agents ++ [.lock false] }
  | .advance i => s.agents[i]?.bind (advance b s i)
  | .notifyOne i none =>
    if s.agents[i]? = some .notify ∧ .asleep ∉ s.agents then some (s.move i .done) else none
  | .notifyOne i (some j) =>
    if s.agents[i]? = some .notify ∧ s.agents[j]? = some .asleep then
      some ((s.move i .done).move j (.lock true))
    else none

/-! ### Kinds of agents -/

namespace Phase

/-- A live permit. -/
def isPermit : Phase → Bool
  | .permit _ => true
  | _ => false

/-- An acquirer past its increment of `in_flight`. -/
def incremented : Phase → Bool
  | .noteMax .. | .unlock => true
  | _ => false

/-- The agent holds a permit of a prefetch. -/
def isPrefetchPermit : Phase → Bool
  | .permit true => true
  | _ => false

/-- Counted in `in_flight`. -/
def inFlight : Phase → Bool
  | .permit _ | .noteMax .. | .unlock => true
  | _ => false

/-- Counted in `prefetch_in_flight`. -/
def prefetchInFlight : Phase → Bool
  | .loadFlight | .swapFlight _ | .giveBack | .noteMax true _ | .permit true | .dropPrefetch => true
  | _ => false

/-- A wake-up that is under way: a drop between its `fetch_sub` and its `notify_one`, or a notified
acquirer that has not acquired or gone back to sleep. -/
def waking : Phase → Bool
  | .dropPrefetch | .notify | .lock true | .load true | .swap true _ | .wait true => true
  | _ => false

end Phase

/-! ### The property -/

/-- Wake-ups under way. -/
def State.wakeUps (s : State) : Nat := s.agents.countP Phase.waking

/-- What the counters promise in one state. -/
structure CountersRight (b : RemoteIoBudget) (s : State) : Prop where
  counted : s.inFlight = s.agents.countP Phase.isPermit + s.agents.countP Phase.incremented
  bounded : s.inFlight ≤ b.total
  reserved : s.agents.countP Phase.isPrefetchPermit ≤ b.total - b.foregroundReserved

/-- The budget in one state. -/
structure Sound (b : RemoteIoBudget) (s : State) : Prop extends CountersRight b s where
  /-- nobody sleeps on a free permit that no wake-up is under way for -/
  heard : .asleep ∈ s.agents → b.total - s.inFlight ≤ s.wakeUps

/-- When an acquirer goes to sleep, the wake-ups of others are under way for every free permit. -/
def Patient (b : RemoteIoBudget) (s : State) : Event → Prop
  | .advance i => ∀ notified, s.agents[i]? = some (.wait notified) →
      b.total - s.inFlight ≤ (s.agents.eraseIdx i).countP Phase.waking
  | _ => True

/-! ### One step -/

/-- The value read before a swap leaves room for it. -/
def Fits (b : RemoteIoBudget) : Phase → Prop
  | .swapPrefetch current => current < b.prefetchLimit
  | .swapFlight current | .swap _ current => current < b.total
  | _ => True

/-- The counters count the agents, and stay below their limits. -/
structure Counted (b : RemoteIoBudget) (s : State) : Prop where
  flight : s.inFlight = s.agents.countP Phase.inFlight
  prefetch : s.prefetchInFlight = s.agents.countP Phase.prefetchInFlight
  bounded : s.inFlight ≤ b.total
  limited : s.prefetchInFlight ≤ b.prefetchLimit
  fits : ∀ phase ∈ s.agents, Fits b phase

/-- While an agent sleeps, a wake-up is under way for each permit that is free. -/
def Heard (b : RemoteIoBudget) (s : State) : Prop :=
  .asleep ∈ s.agents → b.total - s.inFlight ≤ s.wakeUps

/-- Agent `i` goes from `x` to `a`. -/
structure Moved (b : RemoteIoBudget) (s s' : State) (i : Nat) (x a : Phase) : Prop where
  agents : s'.agents = s.agents.set i a
  flight : s'.inFlight + x.inFlight.toNat = s.inFlight + a.inFlight.toNat
  prefetch : s'.prefetchInFlight + x.prefetchInFlight.toNat =
    s.prefetchInFlight + a.prefetchInFlight.toNat
  bounded : s'.inFlight ≤ b.total
  limited : s'.prefetchInFlight ≤ b.prefetchLimit
  fits : Fits b a
  /-- no wake-up is lost without a permit taken for it, unless the agent goes to sleep -/
  wakes : (a ≠ .asleep ∧ s.inFlight + x.waking.toNat ≤ s'.inFlight + a.waking.toNat) ∨
    ∃ notified, x = .wait notified ∧ a = .asleep ∧ s'.inFlight = s.inFlight

section Steps

variable {b} {s s' : State} {i : Nat} {x a : Phase}

/-- A step that leaves both counters alone. -/
theorem Moved.of_same (hc : Counted b s) (hagents : s'.agents = s.agents.set i a)
    (hf : s'.inFlight = s.inFlight) (hp : s'.prefetchInFlight = s.prefetchInFlight)
    (hflight : x.inFlight = a.inFlight) (hprefetch : x.prefetchInFlight = a.prefetchInFlight)
    (hfits : Fits b a) (hasleep : a ≠ .asleep) (hwaking : x.waking = a.waking) :
    Moved b s s' i x a := by
  refine ⟨hagents, by rw [hf, hflight], by rw [hp, hprefetch], hf ▸ hc.bounded, hp ▸ hc.limited,
    hfits, .inl ⟨hasleep, (hf ▸ hwaking ▸ Nat.le_refl _)⟩⟩

/-- What the atomic steps do. -/
theorem moved_of_advance (hc : Counted b s) (hx : s.agents[i]? = some x)
    (h : advance b s i x = some s') : ∃ a, Moved b s s' i x a := by
  have hfits := hc.fits x (List.mem_of_getElem? hx)
  have hflight := hc.flight ▸ toNat_le_countP hx Phase.inFlight
  have hprefetch := hc.prefetch ▸ toNat_le_countP hx Phase.prefetchInFlight
  have hbounded := hc.bounded
  have hlimited := hc.limited
  cases x with
  | tryPrefetch =>
    cases h
    by_cases hlimit : b.prefetchLimit = 0
    · exact ⟨.done, .of_same hc (by rw [if_pos hlimit]; rfl) rfl rfl rfl rfl trivial (by simp) rfl⟩
    · exact ⟨.loadPrefetch, .of_same hc (by rw [if_neg hlimit]; rfl) rfl rfl rfl rfl trivial (by simp) rfl⟩
  | loadPrefetch =>
    cases h
    by_cases hfull : b.prefetchLimit ≤ s.prefetchInFlight
    · exact ⟨.done, .of_same hc (by rw [if_pos hfull]; rfl) rfl rfl rfl rfl trivial (by simp) rfl⟩
    · exact ⟨.swapPrefetch s.prefetchInFlight,
        .of_same hc (by rw [if_neg hfull]; rfl) rfl rfl rfl rfl (Nat.lt_of_not_le hfull) (by simp) rfl⟩
  | swapPrefetch current =>
    simp only [advance] at h
    split at h
    · rename_i heq
      cases h
      exact ⟨.loadFlight, rfl, rfl, by rw [heq]; rfl, hbounded, hfits, trivial, .inl ⟨by simp, Nat.le_refl _⟩⟩
    · cases h
      exact ⟨.loadPrefetch, .of_same hc rfl rfl rfl rfl rfl trivial (by simp) rfl⟩
  | loadFlight =>
    cases h
    by_cases hfull : b.total ≤ s.inFlight
    · exact ⟨.giveBack, .of_same hc (by rw [if_pos hfull]; rfl) rfl rfl rfl rfl trivial (by simp) rfl⟩
    · exact ⟨.swapFlight s.inFlight,
        .of_same hc (by rw [if_neg hfull]; rfl) rfl rfl rfl rfl (Nat.lt_of_not_le hfull) (by simp) rfl⟩
  | swapFlight current =>
    simp only [advance] at h
    split at h
    · rename_i heq
      cases h
      refine ⟨.noteMax true (current + 1), rfl, by rw [heq]; rfl, rfl, hfits, hlimited, trivial, .inl ⟨by simp, ?_⟩⟩
      rw [heq]
      exact Nat.le_succ _
    · cases h
      exact ⟨.loadFlight, .of_same hc rfl rfl rfl rfl rfl trivial (by simp) rfl⟩
  | giveBack =>
    cases h
    exact ⟨.done, rfl, rfl, Nat.sub_add_cancel hprefetch, hbounded, Nat.le_trans (Nat.sub_le ..) hlimited,
      trivial, .inl ⟨by simp, Nat.le_refl _⟩⟩
  | lock notified =>
    simp only [advance] at h
    split at h
    · cases h
    · cases h
      exact ⟨.load notified, .of_same hc rfl rfl rfl rfl rfl trivial (by simp) (by cases notified <;> rfl)⟩
  | load notified =>
    cases h
    by_cases hfree : s.inFlight < b.total
    · exact ⟨.swap notified s.inFlight, .of_same hc (by rw [if_pos hfree]; rfl) rfl rfl rfl rfl hfree
        (by simp) (by cases notified <;> rfl)⟩
    · exact ⟨.wait notified, .of_same hc (by rw [if_neg hfree]; rfl) rfl rfl rfl rfl trivial
        (by simp) (by cases notified <;> rfl)⟩
  | swap notified current =>
    simp only [advance] at h
    split at h
    · rename_i heq
      cases h
      refine ⟨.noteMax false (current + 1), rfl, by rw [heq]; rfl, rfl, hfits, hlimited, trivial,
        .inl ⟨by simp, ?_⟩⟩
      -- the wake-up is used for the permit
      rw [heq]
      exact Nat.add_le_add_left (Bool.toNat_le _) _
    · cases h
      exact ⟨.wait notified, .of_same hc rfl rfl rfl rfl rfl trivial (by simp) (by cases notified <;> rfl)⟩
  | wait notified =>
    cases h
    exact ⟨.asleep, rfl, rfl, rfl, hbounded, hlimited, trivial, .inr ⟨notified, rfl, rfl, rfl⟩⟩
  | noteMax prefetch value =>
    cases h
    cases prefetch with
    | true => exact ⟨.permit true, .of_same hc rfl rfl rfl rfl rfl trivial (by simp) rfl⟩
    | false => exact ⟨.unlock, .of_same hc rfl rfl rfl rfl rfl trivial (by simp) rfl⟩
  | unlock =>
    cases h
    exact ⟨.permit false, .of_same hc rfl rfl rfl rfl rfl trivial (by simp) rfl⟩
  | permit prefetch =>
    cases h
    have hcancel : s.inFlight - 1 + 1 = s.inFlight := Nat.sub_add_cancel hflight
    -- the drop owes a wake-up for the permit it frees
    cases prefetch with
    | true => exact ⟨.dropPrefetch, rfl, hcancel, rfl, Nat.le_trans (Nat.sub_le ..) hbounded, hlimited, trivial,
        .inl ⟨by simp, Nat.le_of_eq hcancel.symm⟩⟩
    | false => exact ⟨.notify, rfl, hcancel, rfl, Nat.le_trans (Nat.sub_le ..) hbounded, hlimited, trivial,
        .inl ⟨by simp, Nat.le_of_eq hcancel.symm⟩⟩
  | dropPrefetch =>
    cases h
    exact ⟨.notify, rfl, rfl, Nat.sub_add_cancel hprefetch, hbounded, Nat.le_trans (Nat.sub_le ..) hlimited,
      trivial, .inl ⟨by simp, Nat.le_refl _⟩⟩
  | asleep | notify | done => cases h

theorem Counted.of_moved (hc : Counted b s) (hx : s.agents[i]? = some x) (hm : Moved b s s' i x a) :
    Counted b s' := by
  have hflight := countP_set_add hx a Phase.inFlight
  have hprefetch := countP_set_add hx a Phase.prefetchInFlight
  have hmoved := hm.flight
  have hmoved' := hm.prefetch
  have hcount := hc.flight
  have hcount' := hc.prefetch
  refine ⟨?_, ?_, hm.bounded, hm.limited, fun phase hphase => ?_⟩
  · rw [hm.agents]
    omega
  · rw [hm.agents]
    omega
  · rw [hm.agents] at hphase
    rcases List.mem_or_eq_of_mem_set hphase with hold | rfl
    · exact hc.fits phase hold
    · exact hm.fits

theorem Heard.of_moved (hh : Heard b s) (hx : s.agents[i]? = some x) (hm : Moved b s s' i x a)
    (hpatient : Patient b s (.advance i)) : Heard b s' := by
  intro hasleep
  have hwakes := countP_set_add hx a Phase.waking
  unfold State.wakeUps
  rw [hm.agents] at hasleep ⊢
  rcases hm.wakes with ⟨hne, hle⟩ | ⟨notified, rfl, rfl, hsame⟩
  · have hbefore := hh (mem_of_mem_set hasleep hne.symm)
    unfold State.wakeUps at hbefore
    omega
  · -- the agent that goes to sleep has its own wake-up no more
    have hothers := hpatient notified hx
    have herase := countP_eraseIdx_add hx Phase.waking
    have hnone : Phase.waking .asleep = false := rfl
    rw [hnone, Bool.toNat_false] at hwakes
    omega

/-- A move that no counter sees. -/
theorem Counted.move (hc : Counted b s) (hx : s.agents[i]? = some x) (hflight : x.inFlight = a.inFlight)
    (hprefetch : x.prefetchInFlight = a.prefetchInFlight) (hfits : Fits b a) :
    Counted b (s.move i a) := by
  have hcount := countP_set_add hx a Phase.inFlight
  have hcount' := countP_set_add hx a Phase.prefetchInFlight
  rw [hflight] at hcount
  rw [hprefetch] at hcount'
  refine ⟨hc.flight.trans ?_, hc.prefetch.trans ?_, hc.bounded, hc.limited, fun phase hphase => ?_⟩
  · exact (Nat.add_right_cancel hcount).symm
  · exact (Nat.add_right_cancel hcount').symm
  · rcases List.mem_or_eq_of_mem_set hphase with hold | rfl
    · exact hc.fits phase hold
    · exact hfits

/-- A new call. -/
theorem Counted.append (hc : Counted b s) (hflight : a.inFlight = false)
    (hprefetch : a.prefetchInFlight = false) (hfits : Fits b a) :
    Counted b { s with agents := s.agents ++ [a] } := by
  refine ⟨?_, ?_, hc.bounded, hc.limited, fun phase hphase => ?_⟩
  · rw [countP_append_singleton, hflight]
    exact hc.flight
  · rw [countP_append_singleton, hprefetch]
    exact hc.prefetch
  · rcases List.mem_append.mp hphase with hold | hnew
    · exact hc.fits phase hold
    · obtain rfl := List.mem_singleton.mp hnew
      exact hfits

theorem Heard.append (hh : Heard b s) (hne : a ≠ .asleep) (hwaking : a.waking = false) :
    Heard b { s with agents := s.agents ++ [a] } := by
  intro hasleep
  have hold : .asleep ∈ s.agents :=
    (List.mem_append.mp hasleep).resolve_right fun h => hne (List.mem_singleton.mp h).symm
  unfold State.wakeUps
  rw [countP_append_singleton, hwaking]
  exact hh hold

/-- The sleeper that is woken is another agent. -/
theorem getElem?_move_of_notify {j : Nat} (hi : s.agents[i]? = some .notify)
    (hj : s.agents[j]? = some .asleep) : (s.move i .done).agents[j]? = some .asleep := by
  have hne : i ≠ j := by
    rintro rfl
    rw [hi] at hj
    cases hj
  exact (List.getElem?_set_ne hne).trans hj

theorem counted_step {e : Event} (hc : Counted b s) (h : step b s e = some s') : Counted b s' := by
  cases e with
  | tryAcquirePrefetch | acquireForeground =>
    cases h
    exact hc.append rfl rfl trivial
  | advance i =>
    obtain ⟨x, hx, hadvance⟩ := Option.bind_eq_some_iff.mp h
    obtain ⟨a, hm⟩ := moved_of_advance hc hx hadvance
    exact hc.of_moved hx hm
  | notifyOne i sleeper =>
    cases sleeper with
    | none =>
      simp only [step] at h
      split at h
      · rename_i hcond
        cases h
        exact hc.move hcond.1 rfl rfl trivial
      · cases h
    | some j =>
      simp only [step] at h
      split at h
      · rename_i hcond
        cases h
        have hdone : Counted b (s.move i .done) := hc.move hcond.1 rfl rfl trivial
        exact hdone.move (getElem?_move_of_notify hcond.1 hcond.2) rfl rfl trivial
      · cases h

theorem heard_step {e : Event} (hc : Counted b s) (hh : Heard b s) (hpatient : Patient b s e)
    (h : step b s e = some s') : Heard b s' := by
  cases e with
  | tryAcquirePrefetch | acquireForeground =>
    cases h
    exact hh.append (by simp) rfl
  | advance i =>
    obtain ⟨x, hx, hadvance⟩ := Option.bind_eq_some_iff.mp h
    obtain ⟨a, hm⟩ := moved_of_advance hc hx hadvance
    exact hh.of_moved hx hm hpatient
  | notifyOne i sleeper =>
    cases sleeper with
    | none =>
      simp only [step] at h
      split at h
      · rename_i hcond
        cases h
        intro hasleep
        exact absurd (mem_of_mem_set hasleep (by simp)) hcond.2
      · cases h
    | some j =>
      simp only [step] at h
      split at h
      · rename_i hcond
        obtain ⟨hi, hj⟩ := hcond
        cases h
        intro hasleep
        -- the wake-up passes from the notifier to the sleeper
        have hbefore := hh (List.mem_of_getElem? hj)
        have hnotifier := countP_set_add hi .done Phase.waking
        have hsleeper := countP_set_add (getElem?_move_of_notify hi hj) (.lock true) Phase.waking
        simp only [State.wakeUps, State.move, Phase.waking, Bool.toNat_true, Bool.toNat_false]
          at hbefore hnotifier hsleeper ⊢
        omega
      · cases h

end Steps

/-! ### Runs -/

section Runs

variable {b} {s : State} {es : List Event}

theorem counted_init : Counted b {} :=
  ⟨rfl, rfl, Nat.zero_le _, Nat.zero_le _, fun phase h => by cases h⟩

theorem heard_init : Heard b {} := fun h => by cases h

theorem counted_run (h : run (step b) {} es = some s) : Counted b s :=
  run_preserves (fun _ _ _ hc hs => counted_step hc hs) counted_init h

theorem heard_run (hm : Meets (step b) (Patient b) {} es) (h : run (step b) {} es = some s) : Heard b s := by
  have hinv : Counted b s ∧ Heard b s :=
    run_invariant (I := fun s => Counted b s ∧ Heard b s)
      (fun _ _ _ hi hp hs => ⟨counted_step hi.1 hs, heard_step hi.1 hi.2 hp hs⟩)
      ⟨counted_init, heard_init⟩ hm h
  exact hinv.2

theorem countP_inFlight (agents : List Phase) : agents.countP Phase.inFlight =
    agents.countP Phase.isPermit + agents.countP Phase.incremented := by
  induction agents with
  | nil => rfl
  | cons phase agents ih =>
    rw [List.countP_cons, List.countP_cons, List.countP_cons, ih]
    cases phase <;> simp [Phase.inFlight, Phase.isPermit, Phase.incremented] <;> omega

theorem countP_prefetchPermits (agents : List Phase) :
    agents.countP Phase.isPrefetchPermit ≤ agents.countP Phase.prefetchInFlight := by
  refine List.countP_mono_left fun phase _ h => ?_
  cases phase with
  | permit prefetch =>
    cases prefetch with
    | true => rfl
    | false => cases h
  | _ => cases h

theorem Counted.right (h : Counted b s) : CountersRight b s := by
  refine ⟨?_, h.bounded, ?_⟩
  · rw [h.flight, countP_inFlight]
  · have hle := countP_prefetchPermits s.agents
    have hlimited := h.limited
    unfold prefetchLimit at hlimited
    rw [h.prefetch] at hlimited
    exact Nat.le_trans hle hlimited

/-- The acquirer that goes to sleep leaves the wake-ups of the others. -/
theorem patient_of_heard {i : Nat} {s' : State} (h : step b s (.advance i) = some s')
    (hh : Heard b s') : Patient b s (.advance i) := by
  intro notified hx
  simp only [step, hx, Option.bind_some, advance, Option.some.injEq] at h
  subst h
  have hbefore := hh (List.mem_of_getElem? (List.getElem?_set_self (lt_of_getElem?_eq_some hx)))
  have hwakes := countP_set_add hx .asleep Phase.waking
  have herase := countP_eraseIdx_add hx Phase.waking
  simp only [State.wakeUps, State.move, Phase.waking, Bool.toNat_false] at hbefore hwakes herase ⊢
  omega

/-- In every run the counters are right, and in every state nobody sleeps on a free permit, exactly when
each acquirer that goes to sleep is heard. -/
theorem sound_iff_patient (total foregroundReserved : Nat) (es : List Event) :
    (∀ s, run (step (new total foregroundReserved)) {} es = some s →
      CountersRight (new total foregroundReserved) s) ∧
    ((∀ es₁ es₂ s, es = es₁ ++ es₂ → run (step (new total foregroundReserved)) {} es₁ = some s →
        Sound (new total foregroundReserved) s) ↔
      Meets (step (new total foregroundReserved)) (Patient (new total foregroundReserved)) {} es) := by
  refine ⟨fun s hr => (counted_run hr).right, fun h => .of_prefixes fun es₁ e es₂ m heq hr => ?_,
    fun hm es₁ es₂ s heq hr => ?_⟩
  · cases e with
    | advance i =>
      intro notified hx
      obtain ⟨s', hs⟩ : ∃ s', step (new total foregroundReserved) m (.advance i) = some s' := by
        simp [step, hx, advance]
      have hrun : run (step (new total foregroundReserved)) {} (es₁ ++ [.advance i]) = some s' :=
        run_append.mpr ⟨m, hr, run_cons.mpr ⟨s', hs, rfl⟩⟩
      have hsound := h (es₁ ++ [.advance i]) es₂ s' (by rw [heq, List.append_assoc]; rfl) hrun
      exact patient_of_heard hs hsound.heard notified hx
    | tryAcquirePrefetch | acquireForeground | notifyOne => trivial
  · rw [heq] at hm
    exact ⟨(counted_run hr).right, heard_run hm.of_append hr⟩

end Runs

/-- The only permit is dropped between the load and the wait. -/
def lostWakeUp : List Event :=
  [.acquireForeground, .advance 0, .advance 0, .advance 0, .advance 0, .advance 0,
    .acquireForeground, .advance 1, .advance 1,
    .advance 0, .notifyOne 0 none, .advance 1]

/-- The budget is empty, nobody is going to wake the sleeper, and it sleeps. -/
theorem wake_up_lost : ∃ s, run (step (new 1 0)) {} lostWakeUp = some s ∧
    s.agents = [.done, .asleep] ∧ s.inFlight = 0 ∧ s.wakeUps = 0 ∧ ¬ Sound (new 1 0) s := by
  refine ⟨_, rfl, rfl, rfl, rfl, fun h => ?_⟩
  have hheard := h.heard (by decide)
  exact absurd hheard (by decide)

end RemoteIoBudget

end Turbolite
