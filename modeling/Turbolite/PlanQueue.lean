import Mathlib.Data.Finset.Basic
import Mathlib.Data.List.Nodup
import Mathlib.Data.List.Flatten
import Mathlib.Tactic.Ring
import Mathlib.Tactic.SplitIfs
import Turbolite.Lib.Runs

/-!
# Turbolite.PlanQueue

The advisory plans of queries on their way from the trace callback to the reads (`query_plan.rs`). A
batch goes into the queue of the pushing thread and into a global mirror; a drain takes the queue of its
own thread, or else the mirror, whose ids are then remembered as consumed until the pushing thread meets
them. Queue, mirror and consumed ids are locked one after the other, never together, and a phase is what
a thread does between two of them. Threads do not end.

The log of returns is kept on the side, and so is what every thread pushed. `batches_delivered_once` says
over which runs no batch is delivered twice.
-/

namespace Turbolite.PlanQueue

open Runs

/-! ### State -/

/-- `PlannedAccessBatch`. -/
structure Batch (α : Type) where
  id : Nat
  accesses : List α
  deriving DecidableEq, Repr

/-- The ids of the batches. -/
def ids {α : Type} (bs : List (Batch α)) : List Nat := bs.map (·.id)

/-- Where a thread is in the source. -/
inductive Phase (α : Type) where
  | idle
  /-- `push_planned_accesses` with its id -/
  | numbered (b : Batch α)
  /-- in the own queue, not yet in the mirror -/
  | queued (b : Batch α)
  /-- `drain_planned_accesses` with the content of the own queue -/
  | took (bs : List (Batch α))
  /-- with the batches that nobody consumed -/
  | checked (bs : List (Batch α))
  /-- with an empty queue, before the lock of the mirror -/
  | fallback
  /-- with the content of the mirror -/
  | tookMirror (bs : List (Batch α))

/-- What one drain returns. `owed` are the batches of its thread that no drain had returned before. -/
structure Return (α : Type) where
  thread : Nat
  ownQueue : Bool
  batches : List (Batch α)
  owed : List (Batch α)

/-- The accesses the caller gets. -/
def Return.accesses {α : Type} (r : Return α) : List α := r.batches.flatMap (·.accesses)

/-- The queues of the threads, their mirror and the threads. -/
structure State (α : Type) where
  nextId : Nat := 1
  queue : Nat → List (Batch α) := fun _ => []
  mirror : List (Batch α) := []
  consumed : Finset Nat := ∅
  phase : Nat → Phase α := fun _ => .idle
  /-- in push order -/
  pushed : Nat → List (Batch α) := fun _ => []
  returned : List (Return α) := []

/-- A call, or one step of one. -/
inductive Event (α : Type) where
  | push (t : Nat) (accesses : List α)
  | drain (t : Nat)
  | advance (t : Nat)

variable {α : Type}

namespace State

/-- One thread goes on. -/
def setPhase (s : State α) (t : Nat) (p : Phase α) : State α :=
  { s with phase := Function.update s.phase t p }

/-- The queue of one thread changes. -/
def setQueue (s : State α) (t : Nat) (bs : List (Batch α)) : State α :=
  { s with queue := Function.update s.queue t bs }

/-- The ids of all drains. -/
def returnedIds (s : State α) : List Nat := s.returned.flatMap fun r => ids r.batches

/-- The batches of the thread that no drain returned, in push order. -/
def undelivered (s : State α) (t : Nat) : List (Batch α) :=
  (s.pushed t).filter fun b => b.id ∉ s.returnedIds

/-- The drain ends. -/
def finish (s : State α) (t : Nat) (ownQueue : Bool) (bs : List (Batch α)) : State α :=
  { s.setPhase t .idle with
    returned := s.returned ++
      [{ thread := t, ownQueue := ownQueue, batches := bs, owed := s.undelivered t }] }

end State

/-! ### Steps -/

/-- The batches that are not consumed, and the consumed ids without those met. -/
def filterConsumed (consumed : Finset Nat) : List (Batch α) → List (Batch α) × Finset Nat
  | [] => ([], consumed)
  | b :: bs =>
    if b.id ∈ consumed then filterConsumed (consumed.erase b.id) bs
    else (b :: (filterConsumed consumed bs).1, (filterConsumed consumed bs).2)

/-- The thread goes on to its next lock. -/
def advance (s : State α) (t : Nat) : Phase α → Option (State α)
  | .idle => none
  | .numbered b => some { (s.setQueue t (s.queue t ++ [b])).setPhase t (.queued b) with
      pushed := Function.update s.pushed t (s.pushed t ++ [b]) }
  | .queued b => some { s.setPhase t .idle with mirror := s.mirror ++ [b] }
  | .took bs =>
    let kept := (filterConsumed s.consumed bs).1
    let s' := { s with consumed := (filterConsumed s.consumed bs).2 }
    some (if kept = [] then s'.finish t true [] else s'.setPhase t (.checked kept))
  | .checked bs =>
    some { s.finish t true bs with mirror := s.mirror.filter fun b => b.id ∉ ids bs }
  | .fallback =>
    some (if s.mirror = [] then s.finish t false []
      else { s.setPhase t (.tookMirror s.mirror) with mirror := [] })
  | .tookMirror bs =>
    some { s.finish t false bs with consumed := s.consumed ∪ (ids bs).toFinset }

/-- One step of one thread. An id is the counter, which wraps. -/
def step (s : State α) : Event α → Option (State α)
  | .push t accesses =>
    match s.phase t with
    | .idle =>
      if accesses = [] then some s
      else some { s.setPhase t (.numbered ⟨s.nextId % 2 ^ 64, accesses⟩) with
        nextId := s.nextId + 1 }
    | _ => none
  | .drain t =>
    match s.phase t with
    | .idle =>
      some (if s.queue t = [] then s.setPhase t .fallback
        else (s.setQueue t []).setPhase t (.took (s.queue t)))
    | _ => none
  | .advance t => advance s t (s.phase t)

/-- The step does not run into a drain that is half done: nobody checks a batch which another thread took
from the mirror and did not record yet, and nobody takes the mirror while it shows a batch which its
thread checked and did not remove yet. Ids do not wrap. -/
def Clear (s : State α) : Event α → Prop
  | .push _ _ => s.nextId < 2 ^ 64
  | .drain _ => True
  | .advance t =>
    match s.phase t with
    | .took bs => ∀ u ms, s.phase u = .tookMirror ms → List.Disjoint (ids bs) (ids ms)
    | .fallback => ∀ u ks, s.phase u = .checked ks → List.Disjoint (ids s.mirror) (ids ks)
    | _ => True

/-! ### What is promised -/

/-- Batches of the thread that still wait for it: in its queue, or taken out by a drain that has not
looked at the consumed ids. -/
def waiting (s : State α) (t : Nat) : List (Batch α) :=
  match s.phase t with
  | .took bs => bs ++ s.queue t
  | _ => s.queue t

/-- Every batch is returned at most once; a drain of the own queue returns what its thread is owed, in
push order, and a drain of the mirror is made by threads that are owed nothing; consumed ids wait for
their thread, in its queue unless a drain just took it. -/
structure Delivered (s : State α) : Prop where
  once : s.returnedIds.Nodup
  own : ∀ r ∈ s.returned, r.ownQueue = true → r.batches = r.owed
  foreign : ∀ r ∈ s.returned, r.ownQueue = false → r.owed = []
  consumed : ∀ i ∈ s.consumed, ∃ t, i ∈ ids (waiting s t)
  consumedQueued : (∀ t bs, s.phase t ≠ .took bs) → ∀ i ∈ s.consumed, ∃ t, i ∈ ids (s.queue t)


/-! ### Where a batch is -/

/-- Where the batch of an id is; `t` is the thread that pushed it. -/
inductive Place where
  | unborn
  | numbered (t : Nat)
  /-- in the queue only -/
  | queued (t : Nat)
  /-- in the queue and in the mirror -/
  | mirrored (t : Nat)
  /-- in the queue, taken from the mirror by `u` -/
  | held (t u : Nat)
  /-- in the queue, returned and consumed -/
  | spent (t : Nat)
  /-- checked by its thread, in the mirror -/
  | kept (t : Nat)
  /-- returned, and nowhere else -/
  | done (t : Nat)
  deriving DecidableEq

namespace Place

/-- In the queue of the thread, or taken out of it. -/
def waitsFor (t : Nat) : Place → Bool
  | queued t' | mirrored t' | held t' _ | spent t' => t = t'
  | _ => false

/-- It was pushed by the thread, and the push is past the queue. -/
def pushedBy (t : Nat) : Place → Bool
  | queued t' | mirrored t' | held t' _ | spent t' | kept t' | done t' => t = t'
  | _ => false

/-- It is in the mirror. -/
def inMirror : Place → Bool
  | mirrored _ | kept _ => true
  | _ => false

/-- The thread has taken it from the mirror. -/
def heldBy (u : Nat) : Place → Bool
  | held _ u' => u = u'
  | _ => false

/-- It was returned and is in the queue yet. -/
def isSpent : Place → Bool
  | spent _ => true
  | _ => false

/-- A drain has returned it. -/
def isReturned : Place → Bool
  | spent _ | done _ => true
  | _ => false

/-- The thread checks its batches. -/
def check (t : Nat) : Place → Place
  | mirrored t' => if t = t' then kept t else mirrored t'
  | spent t' => if t = t' then done t else spent t'
  | p => p

/-- The thread removes its checked batches from the mirror and returns them. -/
def retain (t : Nat) : Place → Place
  | kept t' => if t = t' then done t else kept t'
  | p => p

/-- The thread takes the mirror. -/
def takeMirror (u : Nat) : Place → Place
  | mirrored t => held t u
  | p => p

/-- The thread records what it took as consumed. -/
def record (u : Nat) : Place → Place
  | held t u' => if u = u' then spent t else held t u'
  | p => p

end Place

/-- The batches that the thread has checked. -/
def Phase.kept : Phase α → List (Batch α)
  | checked bs => bs
  | _ => []

/-- The batches that the thread has taken from the mirror. -/
def Phase.held : Phase α → List (Batch α)
  | tookMirror bs => bs
  | _ => []

/-- The thread is in a drain. -/
def Phase.drains : Phase α → Bool
  | took _ | checked _ | fallback | tookMirror _ => true
  | _ => false

/-- The thread is in a push. -/
def Phase.pushes : Phase α → Bool
  | numbered _ | queued _ => true
  | _ => false

/-- Every record of the state says where the batches are. -/
structure Placed (s : State α) (place : Nat → Place) : Prop where
  unborn : ∀ i, s.nextId ≤ i → place i = .unborn
  numbered : ∀ t b, s.phase t = .numbered b → place b.id = .numbered t
  queued : ∀ t i, place i = .queued t ↔ ∃ b, s.phase t = .queued b ∧ b.id = i
  quiet : ∀ t, (s.phase t).drains = true → s.queue t = []
  pushed : ∀ t i, i ∈ ids (s.pushed t) ↔ (place i).pushedBy t = true
  mirror : ∀ i, i ∈ ids s.mirror ↔ (place i).inMirror = true
  held : ∀ u i, i ∈ ids (s.phase u).held ↔ (place i).heldBy u = true
  consumed : ∀ i, i ∈ s.consumed ↔ (place i).isSpent = true
  returned : ∀ i, i ∈ s.returnedIds ↔ (place i).isReturned = true
  waits : ∀ t, waiting s t = (s.pushed t).filter fun b => (place b.id).waitsFor t
  kept : ∀ t, (s.phase t).kept = (s.pushed t).filter fun b => place b.id = .kept t
  nodupPushed : ∀ t, (ids (s.pushed t)).Nodup
  nodupMirror : (ids s.mirror).Nodup
  nodupHeld : ∀ u, (ids (s.phase u).held).Nodup
  nodupReturned : s.returnedIds.Nodup

section Facts

variable {s : State α} {place : Nat → Place} {t i : Nat} {b : Batch α}

theorem mem_ids {bs : List (Batch α)} : i ∈ ids bs ↔ ∃ b ∈ bs, b.id = i := List.mem_map

theorem mem_ids_filter {bs : List (Batch α)} (p : Nat → Bool) :
    i ∈ ids (bs.filter fun b => p b.id) ↔ i ∈ ids bs ∧ p i = true := by
  simp only [mem_ids, List.mem_filter]
  constructor
  · rintro ⟨b, ⟨hb, hp⟩, rfl⟩
    exact ⟨⟨b, hb, rfl⟩, hp⟩
  · rintro ⟨⟨b, hb, rfl⟩, hp⟩
    exact ⟨b, ⟨hb, hp⟩, rfl⟩

theorem Place.waitsFor_pushedBy {p : Place} (h : p.waitsFor t = true) : p.pushedBy t = true := by
  cases p <;> simp_all [waitsFor, pushedBy]

/-! ### What a move changes -/

section Moves

attribute [local grind] Place.check Place.retain Place.record Place.inMirror Place.heldBy Place.isSpent
  Place.isReturned Place.waitsFor

theorem Place.inMirror_check (t : Nat) (p : Place) : (p.check t).inMirror = p.inMirror := by
  cases p <;> grind

theorem Place.heldBy_check (t u : Nat) (p : Place) : (p.check t).heldBy u = p.heldBy u := by
  cases p <;> grind

theorem Place.isSpent_check (t : Nat) (p : Place) :
    (p.check t).isSpent = (p.isSpent && !p.waitsFor t) := by
  cases p <;> grind

theorem Place.isReturned_check (t : Nat) (p : Place) : (p.check t).isReturned = p.isReturned := by
  cases p <;> grind

theorem Place.waitsFor_check {t t' : Nat} (h : t' ≠ t) (p : Place) :
    (p.check t).waitsFor t' = p.waitsFor t' := by
  cases p <;> grind

theorem Place.check_eq_kept {t t' : Nat} (h : t' ≠ t) (p : Place) :
    p.check t = .kept t' ↔ p = .kept t' := by
  cases p <;> grind

theorem Place.inMirror_retain (t : Nat) (p : Place) :
    (p.retain t).inMirror = (p.inMirror && p != .kept t) := by
  cases p <;> grind

theorem Place.heldBy_retain (t u : Nat) (p : Place) : (p.retain t).heldBy u = p.heldBy u := by
  cases p <;> grind

theorem Place.isSpent_retain (t : Nat) (p : Place) : (p.retain t).isSpent = p.isSpent := by
  cases p <;> grind

theorem Place.isReturned_retain (t : Nat) (p : Place) :
    (p.retain t).isReturned = (p.isReturned || p == .kept t) := by
  cases p <;> grind

theorem Place.waitsFor_retain (t t' : Nat) (p : Place) :
    (p.retain t).waitsFor t' = p.waitsFor t' := by
  cases p <;> grind

theorem Place.retain_eq_kept (t t' : Nat) (p : Place) :
    p.retain t = .kept t' ↔ p = .kept t' ∧ t' ≠ t := by
  cases p <;> grind

theorem Place.isReturned_record (u : Nat) (p : Place) :
    (p.record u).isReturned = (p.isReturned || p.heldBy u) := by
  cases p <;> grind

theorem Place.isSpent_record (u : Nat) (p : Place) :
    (p.record u).isSpent = (p.isSpent || p.heldBy u) := by
  cases p <;> grind

theorem Place.heldBy_record (u u' : Nat) (p : Place) :
    (p.record u).heldBy u' = (p.heldBy u' && u' != u) := by
  cases p <;> grind

theorem Place.inMirror_record (u : Nat) (p : Place) : (p.record u).inMirror = p.inMirror := by
  cases p <;> grind

theorem Place.waitsFor_record (u t : Nat) (p : Place) : (p.record u).waitsFor t = p.waitsFor t := by
  cases p <;> grind

theorem Place.record_eq_kept (u t : Nat) (p : Place) : p.record u = .kept t ↔ p = .kept t := by
  cases p <;> grind

end Moves

/-! ### Reading the records -/

theorem Placed.mem_waiting (h : Placed s place) :
    i ∈ ids (waiting s t) ↔ (place i).waitsFor t = true := by
  rw [h.waits, mem_ids_filter fun i => (place i).waitsFor t, h.pushed]
  exact ⟨And.right, fun hw => ⟨Place.waitsFor_pushedBy hw, hw⟩⟩

theorem Placed.mem_kept (h : Placed s place) :
    i ∈ ids (s.phase t).kept ↔ place i = .kept t := by
  rw [h.kept, mem_ids_filter fun i => decide (place i = .kept t), h.pushed]
  constructor
  · rintro ⟨-, hk⟩
    exact of_decide_eq_true hk
  · intro hk
    exact ⟨by rw [hk]; simp [Place.pushedBy], decide_eq_true hk⟩

/-- A batch is owed to its thread unless a drain returned it. -/
theorem Placed.undelivered (h : Placed s place) (t : Nat) :
    s.undelivered t = (s.pushed t).filter fun b => !(place b.id).isReturned := by
  refine List.filter_congr fun b _ => ?_
  rw [Bool.eq_iff_iff, decide_eq_true_iff, h.returned, Bool.not_eq_true', Bool.not_eq_true]

/-! ### Batches that are not consumed -/

theorem filterConsumed_spec {bs : List (Batch α)} (consumed : Finset Nat) (h : (ids bs).Nodup) :
    (filterConsumed consumed bs).1 = bs.filter (fun b => b.id ∉ consumed) ∧
      ∀ i, i ∈ (filterConsumed consumed bs).2 ↔ i ∈ consumed ∧ i ∉ ids bs := by
  induction bs generalizing consumed with
  | nil => simp [filterConsumed, ids]
  | cons b bs ih =>
    obtain ⟨hb, hnd⟩ := List.nodup_cons.mp h
    by_cases hin : b.id ∈ consumed
    · obtain ⟨h1, h2⟩ := ih (consumed.erase b.id) hnd
      simp only [filterConsumed, if_pos hin]
      constructor
      · rw [h1, List.filter_cons_of_neg (by simpa using hin)]
        refine List.filter_congr fun c hc => ?_
        have hne : c.id ≠ b.id := fun he => hb (mem_ids.mpr ⟨c, hc, he⟩)
        simp [hne]
      · intro i
        rw [h2, Finset.mem_erase]
        simp only [ids, List.map_cons, List.mem_cons, not_or]
        tauto
    · obtain ⟨h1, h2⟩ := ih consumed hnd
      simp only [filterConsumed, if_neg hin]
      constructor
      · rw [h1, List.filter_cons_of_pos (by simpa using hin)]
      · intro i
        rw [h2]
        simp only [ids, List.map_cons, List.mem_cons, not_or]
        constructor
        · rintro ⟨hi, hn⟩
          exact ⟨hi, fun he => hin (he ▸ hi), hn⟩
        · rintro ⟨hi, -, hn⟩
          exact ⟨hi, hn⟩

/-! ### Relabelling -/

/-- A change of places that leaves pushes alone. -/
structure Relabels (f : Place → Place) : Prop where
  unborn : f .unborn = .unborn
  numbered : ∀ t, f (.numbered t) = .numbered t
  queued : ∀ p t, f p = .queued t ↔ p = .queued t
  pushedBy : ∀ p t, (f p).pushedBy t = p.pushedBy t

theorem relabels_check (t : Nat) : Relabels (Place.check t) := by
  refine ⟨rfl, fun _ => rfl, fun p t' => ?_, fun p t' => ?_⟩
  all_goals
    cases p <;> simp only [Place.check]
    all_goals split_ifs <;> simp_all [Place.pushedBy]

theorem relabels_retain (t : Nat) : Relabels (Place.retain t) := by
  refine ⟨rfl, fun _ => rfl, fun p t' => ?_, fun p t' => ?_⟩
  all_goals
    cases p <;> simp only [Place.retain]
    all_goals split_ifs <;> simp_all [Place.pushedBy]

theorem relabels_takeMirror (u : Nat) : Relabels (Place.takeMirror u) := by
  refine ⟨rfl, fun _ => rfl, fun p t' => ?_, fun p t' => ?_⟩
  all_goals cases p <;> simp [Place.takeMirror, Place.pushedBy]

theorem relabels_record (u : Nat) : Relabels (Place.record u) := by
  refine ⟨rfl, fun _ => rfl, fun p t' => ?_, fun p t' => ?_⟩
  all_goals
    cases p <;> simp only [Place.record]
    all_goals split_ifs <;> simp_all [Place.pushedBy]

/-- The part of the records that a step of a drain leaves alone, after a change of places. -/
structure Records (s s' : State α) (t : Nat) (p : Phase α) : Prop where
  nextId : s'.nextId = s.nextId
  pushed : s'.pushed = s.pushed
  queue : s'.queue = s.queue
  phase : s'.phase = Function.update s.phase t p
  old : (s.phase t).pushes = false ∧ (s.phase t).drains = true
  new : p.pushes = false

theorem Records.phase_of_ne {s s' : State α} {t : Nat} {p : Phase α} (hr : Records s s' t p)
    {t' : Nat} (h : t' ≠ t) : s'.phase t' = s.phase t' := by
  rw [hr.phase, Function.update_of_ne h]

theorem Records.phase_self {s s' : State α} {t : Nat} {p : Phase α} (hr : Records s s' t p) :
    s'.phase t = p := by
  rw [hr.phase, Function.update_self]

/-- A step of a drain that moves batches along `f`. -/
theorem Placed.relabel (h : Placed s place) {s' : State α} {p : Phase α} (hr : Records s s' t p)
    {f : Place → Place} (hf : Relabels f)
    (hmirror : ∀ i, i ∈ ids s'.mirror ↔ (f (place i)).inMirror = true)
    (hheld : ∀ u i, i ∈ ids (s'.phase u).held ↔ (f (place i)).heldBy u = true)
    (hconsumed : ∀ i, i ∈ s'.consumed ↔ (f (place i)).isSpent = true)
    (hreturned : ∀ i, i ∈ s'.returnedIds ↔ (f (place i)).isReturned = true)
    (hwaits : ∀ t', waiting s' t' = (s.pushed t').filter fun b => (f (place b.id)).waitsFor t')
    (hkept : ∀ t', (s'.phase t').kept = (s.pushed t').filter fun b => f (place b.id) = .kept t')
    (hnm : (ids s'.mirror).Nodup) (hnh : ∀ u, (ids (s'.phase u).held).Nodup)
    (hnr : s'.returnedIds.Nodup) : Placed s' fun i => f (place i) where
  unborn i hi := by rw [h.unborn i (hr.nextId ▸ hi), hf.unborn]
  numbered t' b hb := by
    by_cases ht : t' = t
    · subst ht
      rw [hr.phase_self] at hb
      have hnew := hr.new
      rw [hb] at hnew
      cases hnew
    · rw [hr.phase_of_ne ht] at hb
      rw [h.numbered t' b hb, hf.numbered]
  queued t' i := by
    rw [hf.queued, h.queued]
    by_cases ht : t' = t
    · subst ht
      constructor
      · rintro ⟨b, hb, -⟩
        have hold := hr.old.1
        rw [hb] at hold
        cases hold
      · rintro ⟨b, hb, -⟩
        rw [hr.phase_self] at hb
        have hnew := hr.new
        rw [hb] at hnew
        cases hnew
    · rw [hr.phase_of_ne ht]
  quiet t' hq := by
    rw [hr.queue]
    by_cases ht : t' = t
    · rw [ht]
      exact h.quiet t hr.old.2
    · exact h.quiet t' (hr.phase_of_ne ht ▸ hq)
  pushed t' i := by rw [hr.pushed, h.pushed, hf.pushedBy]
  mirror := hmirror
  held := hheld
  consumed := hconsumed
  returned := hreturned
  waits t' := by rw [hr.pushed]; exact hwaits t'
  kept t' := by rw [hr.pushed]; exact hkept t'
  nodupPushed t' := by rw [hr.pushed]; exact h.nodupPushed t'
  nodupMirror := hnm
  nodupHeld := hnh
  nodupReturned := hnr

end Facts

/-! ### Steps of a drain -/

section Drains

variable {s : State α} {place : Nat → Place} {t : Nat}

theorem waiting_of_ne {s' : State α} {p : Phase α} (hr : Records s s' t p) {t' : Nat} (h : t' ≠ t) :
    waiting s' t' = waiting s t' := by
  unfold waiting
  rw [hr.phase_of_ne h, hr.queue]

/-- A thread in a drain has an empty queue. -/
theorem Placed.waiting_self (h : Placed s place) {s' : State α} {p : Phase α}
    (hr : Records s s' t p) (hp : ∀ bs, p ≠ .took bs) : waiting s' t = [] := by
  unfold waiting
  rw [hr.phase_self, hr.queue, h.quiet t hr.old.2]
  cases p with
  | took bs => exact absurd rfl (hp bs)
  | idle | numbered | queued | checked | fallback | tookMirror => rfl

/-- Only taking the own queue and checking it moves what waits. -/
theorem Placed.waiting_eq (h : Placed s place) {s' : State α} {p : Phase α} (hr : Records s s' t p)
    (hold : ∀ bs, s.phase t ≠ .took bs) (hp : ∀ bs, p ≠ .took bs) (t' : Nat) :
    waiting s' t' = waiting s t' := by
  by_cases hne : t' = t
  · have hs : waiting s t = s.queue t := by
      unfold waiting
      split
      · rename_i bs ht
        exact absurd ht (hold bs)
      · rfl
    rw [hne, h.waiting_self hr hp, hs, h.quiet t hr.old.2]
  · exact waiting_of_ne hr hne

theorem Placed.nodupHeld_of (h : Placed s place) {s' : State α} {p : Phase α}
    (hr : Records s s' t p) (hp : p.held = []) (u : Nat) : (ids (s'.phase u).held).Nodup := by
  by_cases hu : u = t
  · rw [hu, hr.phase_self, hp]
    exact List.nodup_nil
  · rw [hr.phase_of_ne hu]
    exact h.nodupHeld u

theorem ids_append (bs cs : List (Batch α)) : ids (bs ++ cs) = ids bs ++ ids cs := List.map_append

theorem Placed.nodup_waiting (h : Placed s place) (t : Nat) : (ids (waiting s t)).Nodup := by
  rw [h.waits]
  exact (h.nodupPushed t).sublist (List.filter_sublist.map _)

theorem Placed.nodup_kept (h : Placed s place) (t : Nat) : (ids (s.phase t).kept).Nodup := by
  rw [h.kept]
  exact (h.nodupPushed t).sublist (List.filter_sublist.map _)

/-- Nothing is kept by a thread that does not have checked batches. -/
theorem Placed.ne_kept (h : Placed s place) (ht : (s.phase t).kept = []) (i : Nat) :
    place i ≠ .kept t := by
  intro hk
  have hmem := h.mem_kept.mpr hk
  rw [ht] at hmem
  cases hmem

theorem Placed.ne_queued (h : Placed s place) (ht : (s.phase t).pushes = false) (i : Nat) :
    place i ≠ .queued t := by
  intro hq
  obtain ⟨b, hb, -⟩ := (h.queued t i).mp hq
  rw [hb] at ht
  cases ht

theorem Placed.ne_held (h : Placed s place) (ht : (s.phase t).held = []) (i t' : Nat) :
    place i ≠ .held t' t := by
  intro hh
  have hmem := (h.held t i).mpr (by rw [hh]; simp [Place.heldBy])
  rw [ht] at hmem
  cases hmem

/-- What a thread that took its queue can find: batches in the mirror, and spent ones. -/
theorem Placed.of_took (h : Placed s place) {bs : List (Batch α)} (ht : s.phase t = .took bs)
    (hclear : ∀ u ms, s.phase u = .tookMirror ms → List.Disjoint (ids bs) (ids ms)) {i : Nat}
    (hi : (place i).waitsFor t = true) : place i = .mirrored t ∨ place i = .spent t := by
  have hmem : i ∈ ids bs := by
    have hw := h.mem_waiting.mpr hi
    simpa only [waiting, ht, h.quiet t (by rw [ht]; rfl), List.append_nil] using hw
  have hq := h.ne_queued (t := t) (by rw [ht]; rfl) i
  cases hp : place i with
  | held t' u =>
    have hheld := (h.held u i).mpr (by rw [hp]; simp [Place.heldBy])
    cases hu : s.phase u with
    | tookMirror ms =>
      rw [hu] at hheld
      exact absurd hheld (hclear u ms hu hmem)
    | idle | numbered | queued | took | checked | fallback =>
      rw [hu] at hheld
      cases hheld
  | queued t' =>
    rw [hp] at hi hq
    simp_all [Place.waitsFor]
  | mirrored t' | spent t' => simp_all [Place.waitsFor]
  | unborn | numbered t' | kept t' | done t' => simp_all [Place.waitsFor]

/-- The batches that a thread keeps, and what becomes of the consumed ids. -/
theorem Placed.check (h : Placed s place) {bs : List (Batch α)} (ht : s.phase t = .took bs)
    (hclear : ∀ u ms, s.phase u = .tookMirror ms → List.Disjoint (ids bs) (ids ms))
    {s' : State α} {p : Phase α} (hr : Records s s' t p) (hp : ∀ cs, p ≠ .took cs)
    (hheld : p.held = []) (hkept : p.kept = (filterConsumed s.consumed bs).1)
    (hconsumed : s'.consumed = (filterConsumed s.consumed bs).2) (hmirror : s'.mirror = s.mirror)
    (hreturned : s'.returnedIds = s.returnedIds) : Placed s' fun i => (place i).check t := by
  have hbs : bs = waiting s t := by
    simp only [waiting, ht, h.quiet t (by rw [ht]; rfl), List.append_nil]
  obtain ⟨hfilter, hleft⟩ := filterConsumed_spec s.consumed (hbs ▸ h.nodup_waiting t)
  have hfound : ∀ i, (place i).waitsFor t = true → place i = .mirrored t ∨ place i = .spent t :=
    fun i hi => h.of_took ht hclear hi
  have hnk := h.ne_kept (t := t) (by rw [ht]; rfl)
  refine h.relabel hr (relabels_check t) ?_ ?_ ?_ ?_ ?_ ?_ (hmirror ▸ h.nodupMirror) ?_
    (hreturned ▸ h.nodupReturned)
  · intro i
    rw [hmirror, h.mirror, Place.inMirror_check]
  · intro u i
    rw [Place.heldBy_check, ← h.held]
    by_cases hu : u = t
    · rw [hu, hr.phase_self, hheld, ht]
      rfl
    · rw [hr.phase_of_ne hu]
  · intro i
    rw [hconsumed, hleft, h.consumed, hbs, h.mem_waiting, Place.isSpent_check]
    simp
  · intro i
    rw [hreturned, h.returned, Place.isReturned_check]
  · intro t'
    by_cases hne : t' = t
    · subst hne
      rw [h.waiting_self hr hp, eq_comm, List.filter_eq_nil_iff]
      intro b _ hw
      -- a batch that waits is mirrored or spent, and the check moves both
      have hi := hfound b.id
      cases hpl : place b.id <;> grind [Place.check, Place.waitsFor]
    · rw [waiting_of_ne hr hne, h.waits]
      exact List.filter_congr fun b _ => (Place.waitsFor_check hne _).symm
  · intro t'
    by_cases hne : t' = t
    · subst hne
      rw [hr.phase_self, hkept, hfilter, hbs, h.waits, List.filter_filter]
      refine List.filter_congr fun b _ => ?_
      have hi := hfound b.id
      have hc := h.consumed b.id
      have hk := hnk b.id
      cases hpl : place b.id <;> grind [Place.check, Place.waitsFor, Place.isSpent]
    · rw [hr.phase_of_ne hne, h.kept]
      exact List.filter_congr fun b _ => by rw [decide_eq_decide, Place.check_eq_kept hne]
  · exact h.nodupHeld_of hr hheld

/-- The checked batches leave the mirror and are returned. -/
theorem Placed.retain (h : Placed s place) {bs : List (Batch α)} (ht : s.phase t = .checked bs)
    {s' : State α} (hr : Records s s' t .idle) (hconsumed : s'.consumed = s.consumed)
    (hmirror : s'.mirror = s.mirror.filter fun b => b.id ∉ ids bs)
    (hreturned : s'.returnedIds = s.returnedIds ++ ids bs) :
    Placed s' fun i => (place i).retain t := by
  have hmem : ∀ i, i ∈ ids bs ↔ place i = .kept t := by
    intro i
    have hk := h.mem_kept (t := t) (i := i)
    rwa [ht] at hk
  have hnd : (ids bs).Nodup := by
    have hk := h.nodup_kept t
    rwa [ht] at hk
  refine h.relabel hr (relabels_retain t) ?_ ?_ ?_ ?_ ?_ ?_ ?_ ?_ ?_
  · intro i
    rw [hmirror, mem_ids_filter fun i => decide (i ∉ ids bs), h.mirror, Place.inMirror_retain,
      decide_eq_true_iff, hmem]
    simp
  · intro u i
    rw [Place.heldBy_retain, ← h.held]
    by_cases hu : u = t
    · rw [hu, hr.phase_self, ht]
      rfl
    · rw [hr.phase_of_ne hu]
  · intro i
    rw [hconsumed, h.consumed, Place.isSpent_retain]
  · intro i
    rw [hreturned, List.mem_append, h.returned, hmem, Place.isReturned_retain]
    simp
  · intro t'
    rw [h.waiting_eq hr (by rw [ht]; intro bs hbs; cases hbs) (by intro bs hbs; cases hbs), h.waits]
    exact List.filter_congr fun b _ => by rw [Place.waitsFor_retain]
  · intro t'
    by_cases hne : t' = t
    · rw [hne, hr.phase_self, eq_comm]
      refine List.filter_eq_nil_iff.mpr fun b _ => ?_
      simp [Place.retain_eq_kept]
    · rw [hr.phase_of_ne hne, h.kept]
      exact List.filter_congr fun b _ => by rw [decide_eq_decide, Place.retain_eq_kept]; simp [hne]
  · rw [hmirror]
    exact h.nodupMirror.sublist (List.filter_sublist.map _)
  · exact h.nodupHeld_of hr rfl
  · rw [hreturned]
    refine h.nodupReturned.append hnd fun i hi hi' => ?_
    rw [h.returned, (hmem i).mp hi'] at hi
    cases hi

/-- The mirror is taken while it shows no checked batch. -/
theorem Placed.takeMirror (h : Placed s place) (ht : s.phase t = .fallback)
    (hclear : ∀ u ks, s.phase u = .checked ks → List.Disjoint (ids s.mirror) (ids ks))
    {s' : State α} (hr : Records s s' t (.tookMirror s.mirror)) (hconsumed : s'.consumed = s.consumed)
    (hmirror : s'.mirror = []) (hreturned : s'.returnedIds = s.returnedIds) :
    Placed s' fun i => (place i).takeMirror t := by
  have hnk : ∀ i u, place i ≠ .kept u := by
    intro i u hk
    have hmem := h.mem_kept.mpr hk
    have hin := (h.mirror i).mpr (by rw [hk]; rfl)
    cases hu : s.phase u with
    | checked ks =>
      rw [hu] at hmem
      exact hclear u ks hu hin hmem
    | idle | numbered | queued | took | fallback | tookMirror =>
      rw [hu] at hmem
      cases hmem
  have hnh := h.ne_held (t := t) (by rw [ht]; rfl)
  refine h.relabel hr (relabels_takeMirror t) ?_ ?_ ?_ ?_ ?_ ?_ ?_ ?_ (hreturned ▸ h.nodupReturned)
  · intro i
    have hk := hnk i
    rw [hmirror]
    cases hp : place i <;> simp_all [ids, Place.takeMirror, Place.inMirror]
  · intro u i
    by_cases hu : u = t
    · have hm := h.mirror i
      have hk := hnk i
      have hh := hnh i
      rw [hu, hr.phase_self]
      cases hp : place i <;> grind [Phase.held, Place.takeMirror, Place.inMirror, Place.heldBy]
    · rw [hr.phase_of_ne hu, h.held]
      cases hp : place i <;> simp [Place.takeMirror, Place.heldBy, hu]
  · intro i
    rw [hconsumed, h.consumed]
    cases place i <;> rfl
  · intro i
    rw [hreturned, h.returned]
    cases place i <;> rfl
  · intro t'
    rw [h.waiting_eq hr (by rw [ht]; intro bs hbs; cases hbs) (by intro bs hbs; cases hbs), h.waits]
    exact List.filter_congr fun b _ => by cases place b.id <;> rfl
  · intro t'
    have hk : (s'.phase t').kept = (s.phase t').kept := by
      by_cases hne : t' = t
      · rw [hne, hr.phase_self, ht]
        rfl
      · rw [hr.phase_of_ne hne]
    rw [hk, h.kept]
    exact List.filter_congr fun b _ => by cases place b.id <;> simp [Place.takeMirror]
  · rw [hmirror]
    exact List.nodup_nil
  · intro u
    by_cases hu : u = t
    · rw [hu, hr.phase_self]
      exact h.nodupMirror
    · rw [hr.phase_of_ne hu]
      exact h.nodupHeld u

/-- The batches taken from the mirror are consumed and returned. -/
theorem Placed.record (h : Placed s place) {bs : List (Batch α)} (ht : s.phase t = .tookMirror bs)
    {s' : State α} (hr : Records s s' t .idle) (hmirror : s'.mirror = s.mirror)
    (hconsumed : s'.consumed = s.consumed ∪ (ids bs).toFinset)
    (hreturned : s'.returnedIds = s.returnedIds ++ ids bs) :
    Placed s' fun i => (place i).record t := by
  have hmem : ∀ i, i ∈ ids bs ↔ (place i).heldBy t = true := by
    intro i
    have hh := h.held t i
    rwa [ht] at hh
  have hnd : (ids bs).Nodup := by
    have hh := h.nodupHeld t
    rwa [ht] at hh
  refine h.relabel hr (relabels_record t) ?_ ?_ ?_ ?_ ?_ ?_ (hmirror ▸ h.nodupMirror) ?_ ?_
  · intro i
    rw [hmirror, h.mirror, Place.inMirror_record]
  · intro u i
    rw [Place.heldBy_record]
    by_cases hu : u = t
    · rw [hu, hr.phase_self]
      simp [Phase.held, ids]
    · rw [hr.phase_of_ne hu, h.held]
      simp [hu]
  · intro i
    rw [hconsumed, Finset.mem_union, List.mem_toFinset, h.consumed, hmem, Place.isSpent_record]
    simp
  · intro i
    rw [hreturned, List.mem_append, h.returned, hmem, Place.isReturned_record]
    simp
  · intro t'
    rw [h.waiting_eq hr (by rw [ht]; intro bs hbs; cases hbs) (by intro bs hbs; cases hbs), h.waits]
    exact List.filter_congr fun b _ => by rw [Place.waitsFor_record]
  · intro t'
    have hk : (s'.phase t').kept = (s.phase t').kept := by
      by_cases hne : t' = t
      · rw [hne, hr.phase_self, ht]
        rfl
      · rw [hr.phase_of_ne hne]
    rw [hk, h.kept]
    exact List.filter_congr fun b _ => by rw [decide_eq_decide, Place.record_eq_kept]
  · exact h.nodupHeld_of hr rfl
  · rw [hreturned]
    refine h.nodupReturned.append hnd fun i hi hi' => ?_
    have hheld := (hmem i).mp hi'
    rw [h.returned] at hi
    cases hp : place i <;> simp_all [Place.heldBy, Place.isReturned]

/-! ### Pushes, and the start of a drain -/

/-- A new phase that moves no batch. -/
theorem Placed.rephase (h : Placed s place) {s' : State α} {p : Phase α}
    (hphase : s'.phase = Function.update s.phase t p) (hold : (s.phase t).pushes = false)
    (hnew : p.pushes = false) (hheld : p.held = (s.phase t).held) (hkept : p.kept = (s.phase t).kept)
    (hwaits : ∀ t', waiting s' t' = waiting s t')
    (hquiet : ∀ t', (s'.phase t').drains = true → s'.queue t' = []) (hnext : s'.nextId = s.nextId)
    (hpushed : s'.pushed = s.pushed) (hmirror : s'.mirror = s.mirror)
    (hconsumed : s'.consumed = s.consumed) (hreturned : s'.returnedIds = s.returnedIds) :
    Placed s' place := by
  have hne : ∀ {t'}, t' ≠ t → s'.phase t' = s.phase t' := by
    intro t' ht
    rw [hphase, Function.update_of_ne ht]
  have hself : s'.phase t = p := by rw [hphase, Function.update_self]
  have hsame : ∀ t', (s'.phase t').held = (s.phase t').held ∧
      (s'.phase t').kept = (s.phase t').kept := by
    intro t'
    by_cases ht : t' = t
    · rw [ht, hself]
      exact ⟨hheld, hkept⟩
    · rw [hne ht]
      exact ⟨rfl, rfl⟩
  constructor
  case unborn => exact fun i hi => h.unborn i (hnext ▸ hi)
  case numbered =>
    intro t' b hb
    by_cases ht : t' = t
    · rw [ht, hself] at hb
      rw [hb] at hnew
      cases hnew
    · exact h.numbered t' b (hne ht ▸ hb)
  case queued =>
    intro t' i
    by_cases ht : t' = t
    · subst ht
      rw [hself]
      constructor
      · intro hq
        exact absurd hq (h.ne_queued hold i)
      · rintro ⟨b, hb, -⟩
        rw [hb] at hnew
        cases hnew
    · rw [hne ht]
      exact h.queued t' i
  case quiet => exact hquiet
  case pushed => exact hpushed ▸ h.pushed
  case mirror => exact hmirror ▸ h.mirror
  case held => exact fun u i => (hsame u).1 ▸ h.held u i
  case consumed => exact hconsumed ▸ h.consumed
  case returned => exact hreturned ▸ h.returned
  case waits => exact fun t' => by rw [hwaits, hpushed]; exact h.waits t'
  case kept => exact fun t' => by rw [(hsame t').2, hpushed]; exact h.kept t'
  case nodupPushed => exact hpushed ▸ h.nodupPushed
  case nodupMirror => exact hmirror ▸ h.nodupMirror
  case nodupHeld => exact fun u => (hsame u).1 ▸ h.nodupHeld u
  case nodupReturned => exact hreturned ▸ h.nodupReturned

/-- A drain that finds the mirror empty. -/
theorem Placed.leave (h : Placed s place) (ht : s.phase t = .fallback) {s' : State α}
    (hr : Records s s' t .idle) (hconsumed : s'.consumed = s.consumed)
    (hmirror : s'.mirror = s.mirror) (hreturned : s'.returnedIds = s.returnedIds) :
    Placed s' place := by
  refine h.rephase hr.phase hr.old.1 rfl (by rw [ht]; rfl) (by rw [ht]; rfl)
    (h.waiting_eq hr (by rw [ht]; intro bs hbs; cases hbs) (by intro bs hbs; cases hbs)) ?_
    hr.nextId hr.pushed hmirror hconsumed hreturned
  intro t' hd
  rw [hr.queue]
  by_cases hne : t' = t
  · rw [hne]
    exact h.quiet t hr.old.2
  · exact h.quiet t' (hr.phase_of_ne hne ▸ hd)

/-- A drain starts with what is in its queue. -/
theorem Placed.take (h : Placed s place) (ht : s.phase t = .idle) :
    Placed ((s.setQueue t []).setPhase t (.took (s.queue t))) place := by
  refine h.rephase rfl (by rw [ht]; rfl) rfl (by rw [ht]; rfl) (by rw [ht]; rfl) ?_ ?_ rfl rfl rfl rfl
    rfl
  · intro t'
    by_cases hne : t' = t
    · subst hne
      simp [waiting, State.setPhase, State.setQueue, ht]
    · simp [waiting, State.setPhase, State.setQueue, hne]
  · intro t' hd
    by_cases hne : t' = t
    · subst hne
      exact Function.update_self ..
    · simp only [State.setPhase, State.setQueue, ne_eq, hne, not_false_eq_true,
        Function.update_of_ne] at hd ⊢
      exact h.quiet t' hd

/-- A drain starts with an empty queue. -/
theorem Placed.turn (h : Placed s place) (ht : s.phase t = .idle) (hq : s.queue t = []) :
    Placed (s.setPhase t .fallback) place := by
  refine h.rephase rfl (by rw [ht]; rfl) rfl (by rw [ht]; rfl) (by rw [ht]; rfl) ?_ ?_ rfl rfl rfl rfl
    rfl
  · intro t'
    by_cases hne : t' = t
    · subst hne
      simp [waiting, State.setPhase, ht]
    · simp [waiting, State.setPhase, hne]
  · intro t' hd
    by_cases hne : t' = t
    · rw [hne]
      exact hq
    · simp only [State.setPhase, ne_eq, hne, not_false_eq_true, Function.update_of_ne] at hd
      exact h.quiet t' hd

/-- A view of the places that does not tell the old place of one id from the new one. -/
theorem view_update {β : Type} {n : Nat} {p : Place} (p' : Place) (hn : place n = p) (q : Place → β)
    (hq : q p = q p') (i : Nat) : q (Function.update place n p' i) = q (place i) := by
  by_cases hi : i = n
  · rw [hi, Function.update_self, hn, hq]
  · rw [Function.update_of_ne hi]

/-- A batch that is born stays so wherever it goes next. -/
theorem Placed.unborn_update (h : Placed s place) {n : Nat} (hborn : place n ≠ .unborn) (p' : Place)
    (i : Nat) (hi : s.nextId ≤ i) : Function.update place n p' i = .unborn := by
  have hun := h.unborn i hi
  rw [Function.update_of_ne _, hun]
  intro he
  exact hborn (he ▸ hun)

/-- The batch that a thread has numbered stays with it when another one moves. -/
theorem Placed.numbered_update (h : Placed s place) {n t' : Nat} (hn : place n ≠ .numbered t')
    (p' : Place) {b : Batch α} (hb : s.phase t' = .numbered b) :
    Function.update place n p' b.id = .numbered t' := by
  have hpl := h.numbered t' b hb
  rw [Function.update_of_ne _, hpl]
  intro he
  exact hn (he ▸ hpl)

theorem held_update {u : Nat} {p : Phase α} (hp : p.held = (s.phase t).held) :
    (Function.update s.phase t p u).held = (s.phase u).held := by
  by_cases hu : u = t
  · rw [hu, Function.update_self, hp]
  · rw [Function.update_of_ne hu]

theorem kept_update {u : Nat} {p : Phase α} (hp : p.kept = (s.phase t).kept) :
    (Function.update s.phase t p u).kept = (s.phase u).kept := by
  by_cases hu : u = t
  · rw [hu, Function.update_self, hp]
  · rw [Function.update_of_ne hu]

/-- A batch gets its id. -/
theorem Placed.number (h : Placed s place) (ht : s.phase t = .idle) (accesses : List α) :
    Placed { s.setPhase t (.numbered ⟨s.nextId, accesses⟩) with nextId := s.nextId + 1 }
      (Function.update place s.nextId (.numbered t)) := by
  -- no record tells a numbered id from an unborn one
  have hborn : place s.nextId = .unborn := h.unborn s.nextId (Nat.le_refl _)
  constructor <;> dsimp only [State.setPhase]
  case unborn =>
    intro i hi
    rw [Function.update_of_ne (by omega)]
    exact h.unborn i (by omega)
  case numbered =>
    intro t' b hb
    by_cases hne : t' = t
    · subst hne
      rw [Function.update_self] at hb
      cases hb
      exact Function.update_self ..
    · rw [Function.update_of_ne hne] at hb
      exact h.numbered_update (by rw [hborn]; simp) _ hb
  case queued =>
    intro t' i
    have hq := view_update (.numbered t) hborn (fun p => decide (p = .queued t')) rfl i
    rw [decide_eq_decide] at hq
    rw [hq, h.queued]
    by_cases hne : t' = t
    · subst hne
      simp [ht]
    · rw [Function.update_of_ne hne]
  case quiet =>
    intro t' hd
    by_cases hne : t' = t
    · rw [hne, Function.update_self] at hd
      cases hd
    · rw [Function.update_of_ne hne] at hd
      exact h.quiet t' hd
  case pushed => exact fun t' i => by rw [view_update (.numbered t) hborn (Place.pushedBy t') rfl, h.pushed]
  case mirror => exact fun i => by rw [view_update (.numbered t) hborn Place.inMirror rfl, h.mirror]
  case held =>
    exact fun u i => by
      rw [view_update (.numbered t) hborn (Place.heldBy u) rfl, held_update (by rw [ht]; rfl), h.held]
  case consumed => exact fun i => by rw [view_update (.numbered t) hborn Place.isSpent rfl, h.consumed]
  case returned =>
    exact fun i => (h.returned i).trans (by rw [view_update (.numbered t) hborn Place.isReturned rfl])
  case waits =>
    intro t'
    have hw : waiting { s.setPhase t (.numbered ⟨s.nextId, accesses⟩) with
        nextId := s.nextId + 1 } t' = waiting s t' := by
      by_cases hne : t' = t
      · subst hne
        simp [waiting, State.setPhase, ht]
      · simp [waiting, State.setPhase, hne]
    refine hw.trans ((h.waits t').trans (List.filter_congr fun b _ => ?_))
    exact (view_update (.numbered t) hborn (Place.waitsFor t') rfl b.id).symm
  case kept =>
    intro t'
    rw [kept_update (by rw [ht]; rfl), h.kept]
    exact List.filter_congr fun b _ =>
      (view_update (.numbered t) hborn (fun p => decide (p = .kept t')) rfl b.id).symm
  case nodupPushed => exact h.nodupPushed
  case nodupMirror => exact h.nodupMirror
  case nodupHeld => exact fun u => by rw [held_update (by rw [ht]; rfl)]; exact h.nodupHeld u
  case nodupReturned => exact h.nodupReturned

/-- A numbered batch goes into the queue of its thread. -/
theorem Placed.enqueue (h : Placed s place) {b : Batch α} (ht : s.phase t = .numbered b) :
    Placed { (s.setQueue t (s.queue t ++ [b])).setPhase t (.queued b) with
      pushed := Function.update s.pushed t (s.pushed t ++ [b]) }
      (Function.update place b.id (.queued t)) := by
  have hnum : place b.id = .numbered t := h.numbered t b ht
  have hnew : ∀ t', b.id ∉ ids (s.pushed t') := by
    intro t' hmem
    rw [h.pushed, hnum] at hmem
    cases hmem
  -- the places of earlier batches stay
  have hold : ∀ t', ∀ c ∈ s.pushed t', Function.update place b.id (.queued t) c.id = place c.id := by
    intro t' c hc
    refine Function.update_of_ne (fun he => hnew t' ?_) ..
    exact mem_ids.mpr ⟨c, hc, he⟩
  constructor <;> dsimp only [State.setPhase, State.setQueue]
  case unborn => exact h.unborn_update (by rw [hnum]; simp) _
  case numbered =>
    intro t' c hc
    by_cases hne : t' = t
    · rw [hne, Function.update_self] at hc
      cases hc
    · rw [Function.update_of_ne hne] at hc
      exact h.numbered_update (by rw [hnum]; simp [Ne.symm hne]) _ hc
  case queued =>
    intro t' i
    by_cases hne : t' = t
    · subst hne
      rw [Function.update_self]
      have hnq : ∀ i, place i ≠ .queued t' := by
        intro i hq
        obtain ⟨c, hc, -⟩ := (h.queued t' i).mp hq
        rw [ht] at hc
        cases hc
      by_cases hi : i = b.id
      · simp [hi]
      · rw [Function.update_of_ne hi]
        constructor
        · intro hq
          exact absurd hq (hnq i)
        · rintro ⟨c, hc, rfl⟩
          cases hc
          exact absurd rfl hi
    · have hq := view_update (.queued t) hnum (fun p => decide (p = .queued t'))
        (by simp [Ne.symm hne]) i
      rw [decide_eq_decide] at hq
      rw [hq, h.queued, Function.update_of_ne hne]
  case quiet =>
    intro t' hd
    by_cases hne : t' = t
    · rw [hne, Function.update_self] at hd
      cases hd
    · rw [Function.update_of_ne hne] at hd
      rw [Function.update_of_ne hne]
      exact h.quiet t' hd
  case pushed =>
    intro t' i
    by_cases hne : t' = t
    · subst hne
      rw [Function.update_self, ids_append, List.mem_append, h.pushed]
      by_cases hi : i = b.id
      · simp [hi, ids, Place.pushedBy]
      · rw [Function.update_of_ne hi]
        simp [ids, hi]
    · rw [Function.update_of_ne hne, h.pushed]
      rw [view_update (.queued t) hnum (Place.pushedBy t') (by simp [Place.pushedBy, hne])]
  case mirror => exact fun i => by rw [view_update (.queued t) hnum Place.inMirror rfl, h.mirror]
  case held =>
    exact fun u i => by
      rw [view_update (.queued t) hnum (Place.heldBy u) rfl, held_update (by rw [ht]; rfl), h.held]
  case consumed => exact fun i => by rw [view_update (.queued t) hnum Place.isSpent rfl, h.consumed]
  case returned =>
    exact fun i => (h.returned i).trans (by rw [view_update (.queued t) hnum Place.isReturned rfl])
  case waits =>
    intro t'
    by_cases hne : t' = t
    · subst hne
      have hw := h.waits t'
      simp only [waiting, ht] at hw
      simp only [waiting, Function.update_self]
      rw [List.filter_append, hw]
      congr 1
      · exact List.filter_congr fun c hc => by rw [hold t' c hc]
      · simp [Place.waitsFor]
    · have hw := h.waits t'
      simp only [waiting] at hw
      simp only [waiting, Function.update_of_ne hne, hw]
      exact List.filter_congr fun c hc => by rw [hold t' c hc]
  case kept =>
    intro t'
    rw [kept_update (by rw [ht]; rfl), h.kept]
    by_cases hne : t' = t
    · subst hne
      have hnot : [b].filter (fun c => Function.update place b.id (.queued t') c.id = .kept t') = [] := by
        simp
      rw [Function.update_self, List.filter_append, hnot, List.append_nil]
      exact List.filter_congr fun c hc => by rw [hold t' c hc]
    · rw [Function.update_of_ne hne]
      exact List.filter_congr fun c hc => by rw [hold t' c hc]
  case nodupPushed =>
    intro t'
    by_cases hne : t' = t
    · subst hne
      rw [Function.update_self, ids_append]
      refine (h.nodupPushed t').append (List.nodup_singleton _) fun i hi hb => ?_
      rw [List.mem_singleton.mp hb] at hi
      exact hnew t' hi
    · rw [Function.update_of_ne hne]
      exact h.nodupPushed t'
  case nodupMirror => exact h.nodupMirror
  case nodupHeld => exact fun u => by rw [held_update (by rw [ht]; rfl)]; exact h.nodupHeld u
  case nodupReturned => exact h.nodupReturned

/-- A queued batch is mirrored. -/
theorem Placed.mirrorPush (h : Placed s place) {b : Batch α} (ht : s.phase t = .queued b) :
    Placed { s.setPhase t .idle with mirror := s.mirror ++ [b] }
      (Function.update place b.id (.mirrored t)) := by
  have hq : place b.id = .queued t := (h.queued t b.id).mpr ⟨b, ht, rfl⟩
  constructor <;> dsimp only [State.setPhase]
  case unborn => exact h.unborn_update (by rw [hq]; simp) _
  case numbered =>
    intro t' c hc
    by_cases hne : t' = t
    · rw [hne, Function.update_self] at hc
      cases hc
    · rw [Function.update_of_ne hne] at hc
      exact h.numbered_update (by rw [hq]; simp) _ hc
  case queued =>
    intro t' i
    by_cases hne : t' = t
    · subst hne
      rw [Function.update_self]
      by_cases hi : i = b.id
      · simp [hi]
      · rw [Function.update_of_ne hi, h.queued, ht]
        constructor
        · rintro ⟨c, hc, rfl⟩
          cases hc
          exact absurd rfl hi
        · rintro ⟨c, hc, -⟩
          cases hc
    · have hv := view_update (.mirrored t) hq (fun p => decide (p = .queued t'))
        (by simp [Ne.symm hne]) i
      rw [decide_eq_decide] at hv
      rw [hv, h.queued, Function.update_of_ne hne]
  case quiet =>
    intro t' hd
    by_cases hne : t' = t
    · rw [hne, Function.update_self] at hd
      cases hd
    · rw [Function.update_of_ne hne] at hd
      exact h.quiet t' hd
  case pushed => exact fun t' i => by rw [view_update (.mirrored t) hq (Place.pushedBy t') rfl, h.pushed]
  case mirror =>
    intro i
    rw [ids_append, List.mem_append, h.mirror]
    by_cases hi : i = b.id
    · simp [hi, ids, Place.inMirror]
    · rw [Function.update_of_ne hi]
      simp [ids, hi]
  case held =>
    exact fun u i => by
      rw [view_update (.mirrored t) hq (Place.heldBy u) rfl, held_update (by rw [ht]; rfl), h.held]
  case consumed => exact fun i => by rw [view_update (.mirrored t) hq Place.isSpent rfl, h.consumed]
  case returned => exact fun i => (h.returned i).trans (by rw [view_update (.mirrored t) hq Place.isReturned rfl])
  case waits =>
    intro t'
    have hw : waiting { s.setPhase t .idle with mirror := s.mirror ++ [b] } t' = waiting s t' := by
      by_cases hne : t' = t
      · subst hne
        simp [waiting, State.setPhase, ht]
      · simp [waiting, State.setPhase, hne]
    refine hw.trans ((h.waits t').trans (List.filter_congr fun c _ => ?_))
    exact (view_update (.mirrored t) hq (Place.waitsFor t') rfl c.id).symm
  case kept =>
    intro t'
    rw [kept_update (by rw [ht]; rfl), h.kept]
    exact List.filter_congr fun c _ =>
      (view_update (.mirrored t) hq (fun p => decide (p = .kept t')) rfl c.id).symm
  case nodupPushed => exact h.nodupPushed
  case nodupMirror =>
    rw [ids_append]
    refine h.nodupMirror.append (List.nodup_singleton _) fun i hi hb => ?_
    rw [List.mem_singleton.mp hb, h.mirror, hq] at hi
    cases hi
  case nodupHeld => exact fun u => by rw [held_update (by rw [ht]; rfl)]; exact h.nodupHeld u
  case nodupReturned => exact h.nodupReturned

end Drains

/-! ### Every step -/

section Runs

variable {s s' : State α} {place : Nat → Place} {t : Nat}

theorem returnedIds_finish (s : State α) (t : Nat) (own : Bool) (bs : List (Batch α)) :
    (s.finish t own bs).returnedIds = s.returnedIds ++ ids bs := by
  simp [State.finish, State.returnedIds, State.setPhase]

/-- Places are known, and every return gave its thread what it was owed. -/
structure Kept (s : State α) : Prop where
  placed : ∃ place, Placed s place
  own : ∀ r ∈ s.returned, r.ownQueue = true → r.batches = r.owed
  foreign : ∀ r ∈ s.returned, r.ownQueue = false → r.owed = []

/-- A return keeps the log in order. -/
theorem Kept.finish (h : Kept s) (own : Bool) (bs : List (Batch α))
    (howed : s.undelivered t = if own = true then bs else []) (hplaced : ∃ place, Placed s' place)
    (hlog : s'.returned = (s.finish t own bs).returned) : Kept s' where
  placed := hplaced
  own r hr ho := by
    rw [hlog, State.finish, List.mem_append] at hr
    rcases hr with hr | hr
    · exact h.own r hr ho
    · cases List.mem_singleton.mp hr
      subst ho
      exact howed.symm
  foreign r hr ho := by
    rw [hlog, State.finish, List.mem_append] at hr
    rcases hr with hr | hr
    · exact h.foreign r hr ho
    · cases List.mem_singleton.mp hr
      subst ho
      exact howed

/-- A thread whose queue was taken and checked is owed what it kept. -/
theorem Placed.undelivered_checked (h : Placed s place) {bs : List (Batch α)}
    (ht : s.phase t = .checked bs) : s.undelivered t = bs := by
  have hk : bs = (s.phase t).kept := by rw [ht]; rfl
  have hw : waiting s t = [] := by simp only [waiting, ht, h.quiet t (by rw [ht]; rfl)]
  rw [h.undelivered, hk, h.kept]
  refine List.filter_congr fun b hb => ?_
  have hp := (h.pushed t b.id).mp (mem_ids.mpr ⟨b, hb, rfl⟩)
  have hnw : (place b.id).waitsFor t ≠ true := by
    rw [Ne, ← h.mem_waiting, hw]
    simp [ids]
  cases hpl : place b.id <;> grind [Place.pushedBy, Place.waitsFor, Place.isReturned]

/-- A thread with nothing waiting and nothing kept is owed nothing. -/
theorem Placed.undelivered_nil (h : Placed s place) (hw : waiting s t = [])
    (hk : (s.phase t).kept = []) : s.undelivered t = [] := by
  rw [h.undelivered]
  refine List.filter_eq_nil_iff.mpr fun b hb hr => ?_
  have hp := (h.pushed t b.id).mp (mem_ids.mpr ⟨b, hb, rfl⟩)
  have hnk := h.ne_kept hk b.id
  have hnw : (place b.id).waitsFor t ≠ true := by
    rw [Ne, ← h.mem_waiting, hw]
    simp [ids]
  cases hpl : place b.id <;> grind [Place.pushedBy, Place.waitsFor, Place.isReturned]

theorem kept_push {accesses : List α} (h : Kept s) (hclear : Clear s (.push t accesses))
    (hs : step s (.push t accesses) = some s') : Kept s' := by
  obtain ⟨place, hpl⟩ := h.placed
  simp only [step] at hs
  cases ht : s.phase t with
  | idle =>
    rw [ht] at hs
    dsimp only at hs
    split at hs
    · cases hs
      exact h
    · cases hs
      have hid : s.nextId % 2 ^ 64 = s.nextId := Nat.mod_eq_of_lt hclear
      rw [hid]
      exact ⟨⟨_, hpl.number ht accesses⟩, h.own, h.foreign⟩
  | numbered | queued | took | checked | fallback | tookMirror =>
    rw [ht] at hs
    cases hs

theorem kept_drain (h : Kept s) (hs : step s (.drain t) = some s') : Kept s' := by
  obtain ⟨place, hpl⟩ := h.placed
  simp only [step] at hs
  cases ht : s.phase t with
  | idle =>
    rw [ht] at hs
    dsimp only at hs
    split at hs
    · rename_i hq
      cases hs
      exact ⟨⟨_, hpl.turn ht hq⟩, h.own, h.foreign⟩
    · cases hs
      exact ⟨⟨_, hpl.take ht⟩, h.own, h.foreign⟩
  | numbered | queued | took | checked | fallback | tookMirror =>
    rw [ht] at hs
    cases hs

theorem kept_advance (h : Kept s) (hclear : Clear s (.advance t))
    (hs : step s (.advance t) = some s') : Kept s' := by
  obtain ⟨place, hpl⟩ := h.placed
  simp only [step] at hs
  simp only [Clear] at hclear
  cases ht : s.phase t with
  | idle =>
    rw [ht] at hs
    cases hs
  | numbered b =>
    rw [ht] at hs
    cases hs
    exact ⟨⟨_, hpl.enqueue ht⟩, h.own, h.foreign⟩
  | queued b =>
    rw [ht] at hs
    cases hs
    exact ⟨⟨_, hpl.mirrorPush ht⟩, h.own, h.foreign⟩
  | took bs =>
    rw [ht] at hs hclear
    have hrec : (s.phase t).pushes = false ∧ (s.phase t).drains = true := by rw [ht]; exact ⟨rfl, rfl⟩
    simp only [advance, Option.some.injEq] at hs
    split at hs
    · rename_i hnil
      subst hs
      have hcheck : Placed ({ s with consumed := (filterConsumed s.consumed bs).2 }.finish t true [])
          fun i => (place i).check t :=
        hpl.check (p := .idle) ht hclear ⟨rfl, rfl, rfl, rfl, hrec, rfl⟩ (by intro cs hcs; cases hcs)
          rfl hnil.symm rfl rfl (by rw [returnedIds_finish]; exact List.append_nil _)
      -- all that waited was spent, so nothing is owed after the check
      have hdone := hcheck.undelivered_nil (t := t)
        (by simp [waiting, State.finish, State.setPhase, hpl.quiet t hrec.2])
        (by simp [State.finish, State.setPhase, Phase.kept])
      have howed : s.undelivered t = [] := by
        rw [State.undelivered, returnedIds_finish, ids, List.map_nil, List.append_nil] at hdone
        exact hdone
      exact h.finish true [] howed ⟨_, hcheck⟩ rfl
    · subst hs
      refine ⟨⟨_, hpl.check (p := .checked _) ht hclear ⟨rfl, rfl, rfl, rfl, hrec, rfl⟩
        (by intro cs hcs; cases hcs) rfl rfl rfl rfl rfl⟩, h.own, h.foreign⟩
  | checked bs =>
    rw [ht] at hs
    cases hs
    have hrec : (s.phase t).pushes = false ∧ (s.phase t).drains = true := by rw [ht]; exact ⟨rfl, rfl⟩
    refine h.finish true bs (hpl.undelivered_checked ht) ⟨_, hpl.retain ht
      ⟨rfl, rfl, rfl, rfl, hrec, rfl⟩ rfl rfl (returnedIds_finish s t true bs)⟩ rfl
  | fallback =>
    rw [ht] at hs hclear
    have hrec : (s.phase t).pushes = false ∧ (s.phase t).drains = true := by rw [ht]; exact ⟨rfl, rfl⟩
    simp only [advance, Option.some.injEq] at hs
    split at hs
    · subst hs
      have howed : s.undelivered t = [] :=
        hpl.undelivered_nil (by simp only [waiting, ht, hpl.quiet t hrec.2]) (by rw [ht]; rfl)
      refine h.finish false [] howed ⟨_, hpl.leave ht
        ⟨rfl, rfl, rfl, rfl, hrec, rfl⟩ rfl rfl ?_⟩ rfl
      rw [returnedIds_finish]
      exact List.append_nil _
    · subst hs
      exact ⟨⟨_, hpl.takeMirror ht hclear ⟨rfl, rfl, rfl, rfl, hrec, rfl⟩ rfl rfl rfl⟩, h.own,
        h.foreign⟩
  | tookMirror bs =>
    rw [ht] at hs
    cases hs
    have hrec : (s.phase t).pushes = false ∧ (s.phase t).drains = true := by rw [ht]; exact ⟨rfl, rfl⟩
    have howed : s.undelivered t = [] :=
      hpl.undelivered_nil (by simp only [waiting, ht, hpl.quiet t hrec.2]) (by rw [ht]; rfl)
    exact h.finish false bs howed ⟨_, hpl.record ht
      ⟨rfl, rfl, rfl, rfl, hrec, rfl⟩ rfl rfl (returnedIds_finish s t false bs)⟩ rfl

theorem kept_step {e : Event α} (h : Kept s) (hclear : Clear s e) (hs : step s e = some s') :
    Kept s' := by
  cases e with
  | push t accesses => exact kept_push h hclear hs
  | drain t => exact kept_drain h hs
  | advance t => exact kept_advance h hclear hs

theorem kept_start : Kept ({} : State α) where
  placed := by
    refine ⟨fun _ => .unborn, ?_⟩
    constructor <;> simp [ids, waiting, State.returnedIds, Phase.held, Phase.kept, Phase.drains,
      Place.pushedBy, Place.inMirror, Place.heldBy, Place.isSpent, Place.isReturned]
  own r hr := by cases hr
  foreign r hr := by cases hr

theorem Kept.delivered (h : Kept s) : Delivered s := by
  obtain ⟨place, hpl⟩ := h.placed
  have hconsumed : ∀ i ∈ s.consumed, ∃ t, i ∈ ids (waiting s t) := by
    intro i hi
    rw [hpl.consumed] at hi
    cases hp : place i with
    | spent t => exact ⟨t, hpl.mem_waiting.mpr (by rw [hp]; simp [Place.waitsFor])⟩
    | unborn | numbered | queued | mirrored | held | kept | done =>
      rw [hp] at hi
      cases hi
  refine ⟨hpl.nodupReturned, h.own, h.foreign, hconsumed, fun hquiet i hi => ?_⟩
  obtain ⟨t, ht⟩ := hconsumed i hi
  refine ⟨t, ?_⟩
  unfold waiting at ht
  split at ht
  · rename_i bs hp
    exact absurd hp (hquiet t bs)
  · exact ht

end Runs

/-- From the start, whatever threads push and drain, over every run whose steps are clear of half-done
drains. -/
theorem batches_delivered_once {s : State α} {es : List (Event α)}
    (hclear : Meets step Clear {} es) (hr : run step {} es = some s) : Delivered s :=
  (run_invariant (fun _ _ _ h hc hs => kept_step h hc hs) kept_start hclear hr).delivered

/-! ### Overlapping drains -/

namespace Example

/-- Thread 0 pushes a plan. -/
def plan : List (Event Nat) := [.push 0 [7], .advance 0, .advance 0]

/-- Thread 0 pushes a plan and drains it. -/
def drained : List (Event Nat) := plan ++ [.drain 0, .advance 0, .advance 0]

/-- Thread 1 takes the mirror; thread 0 checks and returns its queue; thread 1 records what it took. -/
def overlapping : List (Event Nat) :=
  plan ++ [.drain 1, .advance 1, .drain 0, .advance 0, .advance 0, .advance 1]

end Example

theorem batches_delivered_once_drained : ∃ s, run step {} Example.drained = some s ∧ Delivered s := by
  have hclear : Meets step Clear ({} : State Nat) Example.drained := by
    refine Meets.cons (show 1 < 2 ^ 64 by decide) rfl (Meets.cons trivial rfl (Meets.cons trivial rfl
      (Meets.cons trivial rfl (Meets.cons ?_ rfl (Meets.cons trivial rfl trivial)))))
    intro u ms hu
    rcases u with _ | u <;> cases hu
  exact ⟨_, rfl, batches_delivered_once hclear rfl⟩

/-- Both drains return the batch, and its id stays consumed with no queue to meet it. -/
theorem overlapping_delivers_twice : ∃ s, run step {} Example.overlapping = some s ∧
    s.returnedIds = [1, 1] ∧ s.consumed = {1} ∧ ∀ t, s.queue t = [] := by
  refine ⟨_, rfl, by decide, by decide, fun t => ?_⟩
  cases t with
  | zero => rfl
  | succ t => rfl

end Turbolite.PlanQueue
