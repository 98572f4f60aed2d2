import Mathlib.Data.Finset.Card
import Turbolite.Lib.Runs

/-!
# Turbolite.CloudScan

The scheduler contract of a planned scan over a cloud backend (`specs/cloud_scan_prefetch.qnt`): optional
fetches ahead of the reader are queued, started and completed, and the reader fetches what is not there or
waits for what has started. The specification is checked there for four groups and a window of two. Here
there are any number of groups, any of them planned, and any window.

`cloud_scan_safe` is the `safety` of the specification in every reachable state.
-/

namespace Turbolite.CloudScan

open Runs

/-- The variables of the specification. -/
structure State where
  current : Nat := 0
  queued : Finset Nat := ∅
  permitBlocked : Finset Nat := ∅
  fetching : Finset Nat := ∅
  present : Finset Nat := ∅
  startedRemote : Finset Nat := ∅
  foregroundRange : Finset Nat := ∅
  foregroundFull : Finset Nat := ∅
  foregroundWaited : Finset Nat := ∅
  prefetchFull : Finset Nat := ∅

namespace State

variable (s : State)

/-- No claim of the group is under way, and it is not in the cache. -/
def ClaimFree (gid : Nat) : Prop :=
  gid ∉ s.queued ∧ gid ∉ s.permitBlocked ∧ gid ∉ s.fetching ∧ gid ∉ s.present

instance (gid : Nat) : Decidable (s.ClaimFree gid) := inferInstanceAs (Decidable (_ ∧ _ ∧ _ ∧ _))

/-- The group is within the window ahead of the scan. -/
def InAheadWindow (windowGroups gid : Nat) : Prop := s.current < gid ∧ gid ≤ s.current + windowGroups

instance (windowGroups gid : Nat) : Decidable (s.InAheadWindow windowGroups gid) :=
  inferInstanceAs (Decidable (_ ∧ _))

/-- The optional fetches that are not over. -/
def liveOptional : Finset Nat := s.queued ∪ s.permitBlocked ∪ s.fetching

end State

/-- The actions of the specification. -/
inductive Event where
  | submitOptionalAhead (gid : Nat)
  | startOptionalRemote (gid : Nat)
  | completeOptional (gid : Nat)
  | dropQueuedOptional (gid : Nat)
  | foregroundReadPresent
  | foregroundFullDemand
  | foregroundWaitStartedPrefetch
  | advanceAfterDroppedCurrent
  | noStateChange
  deriving DecidableEq

variable (planned : Finset Nat) (lastGroup windowGroups : Nat)

/-- The reader goes on to the next group, if there is one. -/
def nextGroup (current : Nat) : Nat := if current < lastGroup then current + 1 else current

/-- The next state; none where the action is not enabled. -/
def step (s : State) : Event → Option State
  | .submitOptionalAhead gid =>
    if gid ≤ lastGroup ∧ gid ∈ planned ∧ s.liveOptional.card < windowGroups ∧
        s.InAheadWindow windowGroups gid ∧ s.ClaimFree gid then
      some { s with queued := insert gid s.queued }
    else none
  | .startOptionalRemote gid =>
    if gid ∈ s.queued then
      some { s with
        queued := s.queued.erase gid
        fetching := insert gid s.fetching
        startedRemote := insert gid s.startedRemote
        prefetchFull := insert gid s.prefetchFull }
    else none
  | .completeOptional gid =>
    if gid ∈ s.fetching then
      some { s with fetching := s.fetching.erase gid, present := insert gid s.present }
    else none
  | .dropQueuedOptional gid =>
    if gid ∈ s.queued then some { s with queued := s.queued.erase gid } else none
  | .foregroundReadPresent =>
    if s.current ∈ s.present then some { s with current := nextGroup lastGroup s.current } else none
  | .foregroundFullDemand =>
    if s.current ∈ planned ∧ s.ClaimFree s.current then
      some { s with
        current := nextGroup lastGroup s.current
        present := insert s.current s.present
        foregroundFull := insert s.current s.foregroundFull }
    else none
  | .foregroundWaitStartedPrefetch =>
    if s.current ∈ s.fetching ∧ s.current ∈ s.startedRemote then
      some { s with
        current := nextGroup lastGroup s.current
        fetching := s.fetching.erase s.current
        present := insert s.current s.present
        foregroundWaited := insert s.current s.foregroundWaited }
    else none
  | .advanceAfterDroppedCurrent =>
    if s.current ∈ s.queued then some { s with queued := s.queued.erase s.current } else none
  | .noStateChange => some s

/-! ### Safety -/

/-- `safety` of the specification. -/
structure Safety (s : State) : Prop where
  queuedFetching : Disjoint s.queued s.fetching
  queuedPresent : Disjoint s.queued s.present
  queuedBlocked : Disjoint s.queued s.permitBlocked
  blockedFetching : Disjoint s.permitBlocked s.fetching
  blockedPresent : Disjoint s.permitBlocked s.present
  fetchingPresent : Disjoint s.fetching s.present
  noOptionalBlockedOnPermit : s.permitBlocked = ∅
  fetchingMeansStartedRemote : s.fetching ⊆ s.startedRemote
  queuedIsNotForegroundWaitable : s.foregroundWaited ⊆ s.startedRemote
  noScanRangeDemand : s.foregroundRange = ∅
  noRangeAndFullForSameGroup : Disjoint s.foregroundRange s.prefetchFull
  boundedLiveOptional : s.liveOptional.card ≤ windowGroups

/-- What the other facts follow from. -/
structure Inv (s : State) : Prop where
  queuedFetching : Disjoint s.queued s.fetching
  queuedPresent : Disjoint s.queued s.present
  fetchingPresent : Disjoint s.fetching s.present
  blocked : s.permitBlocked = ∅
  started : s.fetching ⊆ s.startedRemote
  waited : s.foregroundWaited ⊆ s.startedRemote
  range : s.foregroundRange = ∅
  live : (s.queued ∪ s.fetching).card ≤ windowGroups

variable {planned : Finset Nat} {lastGroup windowGroups : Nat} {s s' : State}

theorem inv_init : Inv windowGroups {} where
  queuedFetching := Finset.disjoint_empty_left _
  queuedPresent := Finset.disjoint_empty_left _
  fetchingPresent := Finset.disjoint_empty_left _
  blocked := rfl
  started := Finset.empty_subset _
  waited := Finset.empty_subset _
  range := rfl
  live := Nat.zero_le _

/-- A group that leaves the queue. -/
theorem Inv.eraseQueued (h : Inv windowGroups s) (gid : Nat) :
    Inv windowGroups { s with queued := s.queued.erase gid } where
  queuedFetching := h.queuedFetching.mono_left (Finset.erase_subset gid _)
  queuedPresent := h.queuedPresent.mono_left (Finset.erase_subset gid _)
  fetchingPresent := h.fetchingPresent
  blocked := h.blocked
  started := h.started
  waited := h.waited
  range := h.range
  live := by
    refine le_trans (Finset.card_le_card ?_) h.live
    exact Finset.union_subset_union_left (Finset.erase_subset gid _)

/-- A fetched group is there. -/
theorem Inv.complete (h : Inv windowGroups s) {gid : Nat} (hgid : gid ∈ s.fetching) (current : Nat)
    {waited : Finset Nat} (hwaited : waited ⊆ s.startedRemote) :
    Inv windowGroups { s with
      current := current
      fetching := s.fetching.erase gid
      present := insert gid s.present
      foregroundWaited := waited } where
  queuedFetching := h.queuedFetching.mono_right (Finset.erase_subset gid _)
  queuedPresent := by
    refine Finset.disjoint_insert_right.mpr ⟨fun hq => ?_, h.queuedPresent⟩
    exact Finset.disjoint_left.mp h.queuedFetching hq hgid
  fetchingPresent := by
    refine Finset.disjoint_insert_right.mpr ⟨Finset.notMem_erase gid _, ?_⟩
    exact h.fetchingPresent.mono_left (Finset.erase_subset gid _)
  blocked := h.blocked
  started := (Finset.erase_subset gid _).trans h.started
  waited := hwaited
  range := h.range
  live := by
    refine le_trans (Finset.card_le_card ?_) h.live
    exact Finset.union_subset_union_right (Finset.erase_subset gid _)

theorem inv_step {e : Event} (h : Inv windowGroups s)
    (hs : step planned lastGroup windowGroups s e = some s') : Inv windowGroups s' := by
  cases e with
  | submitOptionalAhead gid =>
    simp only [step, Option.ite_none_right_eq_some, Option.some.injEq] at hs
    obtain ⟨⟨-, -, hlive, -, hq, -, hf, hp⟩, rfl⟩ := hs
    have hcard : s.liveOptional = s.queued ∪ s.fetching := by simp [State.liveOptional, h.blocked]
    exact
      { h with
        queuedFetching := Finset.disjoint_insert_left.mpr ⟨hf, h.queuedFetching⟩
        queuedPresent := Finset.disjoint_insert_left.mpr ⟨hp, h.queuedPresent⟩
        live := by
          rw [hcard] at hlive
          rw [Finset.insert_union]
          exact (Finset.card_insert_le gid _).trans hlive }
  | startOptionalRemote gid =>
    simp only [step, Option.ite_none_right_eq_some, Option.some.injEq] at hs
    obtain ⟨hgid, rfl⟩ := hs
    -- the group stays among the live ones
    have hunion : s.queued.erase gid ∪ insert gid s.fetching = s.queued ∪ s.fetching := by
      rw [Finset.union_insert, ← Finset.insert_union, Finset.insert_erase hgid]
    exact
      { h with
        queuedFetching := by
          refine Finset.disjoint_insert_right.mpr ⟨Finset.notMem_erase gid _, ?_⟩
          exact h.queuedFetching.mono_left (Finset.erase_subset gid _)
        queuedPresent := h.queuedPresent.mono_left (Finset.erase_subset gid _)
        fetchingPresent := Finset.disjoint_insert_left.mpr
          ⟨Finset.disjoint_left.mp h.queuedPresent hgid, h.fetchingPresent⟩
        started := Finset.insert_subset_insert gid h.started
        waited := h.waited.trans (Finset.subset_insert gid _)
        live := by
          show (s.queued.erase gid ∪ insert gid s.fetching).card ≤ windowGroups
          rw [hunion]
          exact h.live }
  | completeOptional gid =>
    simp only [step, Option.ite_none_right_eq_some, Option.some.injEq] at hs
    obtain ⟨hgid, rfl⟩ := hs
    exact h.complete hgid s.current h.waited
  | dropQueuedOptional gid =>
    simp only [step, Option.ite_none_right_eq_some, Option.some.injEq] at hs
    obtain ⟨-, rfl⟩ := hs
    exact h.eraseQueued gid
  | foregroundReadPresent =>
    simp only [step, Option.ite_none_right_eq_some, Option.some.injEq] at hs
    obtain ⟨-, rfl⟩ := hs
    exact { h with }
  | foregroundFullDemand =>
    simp only [step, Option.ite_none_right_eq_some, Option.some.injEq] at hs
    obtain ⟨⟨-, hq, -, hf, -⟩, rfl⟩ := hs
    exact
      { h with
        queuedPresent := Finset.disjoint_insert_right.mpr ⟨hq, h.queuedPresent⟩
        fetchingPresent := Finset.disjoint_insert_right.mpr ⟨hf, h.fetchingPresent⟩ }
  | foregroundWaitStartedPrefetch =>
    simp only [step, Option.ite_none_right_eq_some, Option.some.injEq] at hs
    obtain ⟨⟨hgid, hstarted⟩, rfl⟩ := hs
    exact h.complete hgid _ (Finset.insert_subset hstarted h.waited)
  | advanceAfterDroppedCurrent =>
    simp only [step, Option.ite_none_right_eq_some, Option.some.injEq] at hs
    obtain ⟨-, rfl⟩ := hs
    exact h.eraseQueued s.current
  | noStateChange =>
    cases hs
    exact h

theorem Inv.safety (h : Inv windowGroups s) : Safety windowGroups s where
  queuedFetching := h.queuedFetching
  queuedPresent := h.queuedPresent
  queuedBlocked := by simp [h.blocked]
  blockedFetching := by simp [h.blocked]
  blockedPresent := by simp [h.blocked]
  fetchingPresent := h.fetchingPresent
  noOptionalBlockedOnPermit := h.blocked
  fetchingMeansStartedRemote := h.started
  queuedIsNotForegroundWaitable := h.waited
  noScanRangeDemand := h.range
  noRangeAndFullForSameGroup := by simp [h.range]
  boundedLiveOptional := by simpa [State.liveOptional, h.blocked] using h.live

/-- Every state a run of the scheduler reaches is safe. -/
theorem cloud_scan_safe {es : List Event}
    (hrun : run (step planned lastGroup windowGroups) {} es = some s) : Safety windowGroups s :=
  (run_preserves (fun _ _ _ hi hs => inv_step hi hs) inv_init hrun).safety

namespace Example

/-- A scan that overtakes its own prefetch. -/
def scan : List Event :=
  [.submitOptionalAhead 1, .submitOptionalAhead 2, .startOptionalRemote 1, .foregroundFullDemand,
    .foregroundWaitStartedPrefetch, .dropQueuedOptional 2, .submitOptionalAhead 3]

end Example

open Example in
theorem example_scan_safe :
    ∃ s, run (step {0, 1, 2, 3} 3 2) {} scan = some s ∧ Safety 2 s := by
  refine ⟨_, rfl, ?_⟩
  exact cloud_scan_safe (show run (step {0, 1, 2, 3} 3 2) {} scan = some _ from rfl)

end Turbolite.CloudScan
