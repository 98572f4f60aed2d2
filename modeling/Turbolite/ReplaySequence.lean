import Turbolite.Replay
import Turbolite.Lib.Runs

/-!
# Turbolite.ReplaySequence

The changeset sequence of direct replay: the replay handles of `replay.rs`, any number of them at a
time, with the manifest they share. A handle numbers the changesets it accepts from the cursor it was
given; `finalize` copies the manifest, works for a while, and stores what it made of the copy. In
between, other handles finalize, and flushes and cursor updates store manifests of their own.

Nothing orders a copy and its store against the other stores, so the floor is kept by the copies that
are still good when they are stored. The numbering needs no such help, up to the end of `u64`.
-/

namespace Turbolite

open Runs

/-! ### What `finalize` makes of the floor -/

namespace ReplayHandle

variable {pageSize : Nat}

theorem replayFloor_postManifest (r : ReplayHandle pageSize) (m : Manifest) :
    (r.postManifest m).replayFloor = r.committedSeqs.foldl max m.replayFloor := by
  obtain ⟨gps, keys, fts, ovs, st, idx, hmoved⟩ :=
    m.setReplayPageCount_eq m.pageCount (r.newPageCount m)
  rw [Manifest.replayFloor, Manifest.replayFloor, List.foldl_assoc]
  unfold postManifest
  split
  · rw [hmoved]
  · rfl

end ReplayHandle

/-- The largest number of a block is its last. -/
theorem foldl_max_range' (a n k : Nat) : (List.range' n (k + 1)).foldl max a = max a (n + k) := by
  induction k generalizing a n with
  | zero => simp
  | succ k ih =>
    rw [List.range'_succ, List.foldl_cons, ih]
    omega

namespace ReplaySequence

/-! ### Runs -/

/-- A replay handle in use; `cursor` is the sequence it starts after. -/
structure Cycle where
  pageSize : Nat
  handle : ReplayHandle pageSize
  cursor : Nat
  /-- the manifest `finalize` has copied -/
  snapshot : Option Manifest := none

/-- A `finalize` that went through: the sequences of its handle and the floor it left. -/
structure Report where
  cursor : Nat
  accepted : List Nat
  floor : Nat

/-- The shared manifest, the cycles of replay under way and what they reported. -/
structure State where
  shared : Manifest
  cycles : Nat → Option Cycle := fun _ => none
  reports : List Report := []

/-- The calls of the replay handles. -/
inductive Event where
  | beginReplay (id : Nat)
  | beginReplayAfter (id currentSeq : Nat)
  | setExpectedNextChangesetSeq (id nextSeq : Nat)
  | applyPage (id sqlitePageId : Nat) (data : Bytes)
  | setTargetPageCount (id n : Nat)
  | commitChangeset (id seq : Nat)
  /-- `finalize`, up to its copy of the manifest -/
  | finalize (id : Nat)
  /-- `finalize` stores its manifest -/
  | store (id : Nat)
  /-- `abort`, or a `finalize` that fails before it stores -/
  | abort (id : Nat)
  /-- a flush, a checkpoint, a cursor update or an installed manifest -/
  | other (m : Manifest)

namespace State

/-- One cycle begins, changes or ends. -/
def put (s : State) (id : Nat) (c : Option Cycle) : State :=
  { s with cycles := Function.update s.cycles id c }

/-- A handle that `finalize` has not consumed. -/
def handle? (s : State) (id : Nat) : Option Cycle :=
  (s.cycles id).filter fun c => c.snapshot.isNone

/-- `begin_replay` and its variant; an error is returned and changes nothing. -/
def begun (s : State) (id : Nat) {pageSize : Nat} (r : IoResult (ReplayHandle pageSize))
    (cursor : Nat) : Option State :=
  if (s.cycles id).isSome then none
  else
    match r with
    | .ok handle => some (s.put id (some ⟨pageSize, handle, cursor, none⟩))
    | .error _ => some s

/-- A call on a handle. -/
def called (s : State) (id : Nat) (c : Cycle) (r : IoResult (ReplayHandle c.pageSize))
    (cursor : Nat) : State :=
  match r with
  | .ok handle => s.put id (some { c with handle := handle, cursor := cursor })
  | .error _ => s

/-- A cycle that was finalized is reported. -/
def report (s : State) (c : Cycle) : State :=
  { s with reports := ⟨c.cursor, c.handle.committedSeqs, s.shared.replayFloor⟩ :: s.reports }

end State

/-- `finalize` has nothing to install. -/
def Cycle.Empty (c : Cycle) (m : Manifest) : Prop :=
  c.handle.pages = [] ∧ c.handle.newPageCount m = m.pageCount

instance (c : Cycle) (m : Manifest) : Decidable (c.Empty m) :=
  inferInstanceAs (Decidable (_ ∧ _))

/-- One event; `none` when it cannot happen. Sequences are `u64`s. -/
def step (s : State) : Event → Option State
  | .beginReplay id => s.begun id s.shared.beginReplay s.shared.replayFloor
  | .beginReplayAfter id currentSeq =>
    if currentSeq < 2 ^ 64 then s.begun id (s.shared.beginReplayAfter currentSeq) currentSeq else none
  | .setExpectedNextChangesetSeq id nextSeq =>
    if nextSeq < 2 ^ 64 then (s.handle? id).map fun c =>
      s.called id c (c.handle.setExpectedNextChangesetSeq nextSeq) (nextSeq - 1)
    else none
  | .applyPage id sqlitePageId data => (s.handle? id).map fun c =>
    s.called id c (c.handle.applyPage sqlitePageId data) c.cursor
  | .setTargetPageCount id n => (s.handle? id).map fun c =>
    s.called id c (.ok (c.handle.setTargetPageCount n)) c.cursor
  | .commitChangeset id seq => (s.handle? id).map fun c =>
    s.called id c (c.handle.commitChangeset seq) c.cursor
  | .finalize id => (s.handle? id).map fun c =>
    if c.handle.newPageCount s.shared < c.handle.maxSqlitePageId then s.put id none
    else if c.Empty s.shared then (s.put id none).report c
    else s.put id (some { c with snapshot := some s.shared })
  | .store id => (s.cycles id).bind fun c => c.snapshot.map fun m =>
    (({ s with shared := c.handle.postManifest m } : State).put id none).report c
  | .abort id => (s.cycles id).map fun _ => s.put id none
  | .other m => if m.replayFloor < 2 ^ 64 then some { s with shared := m } else none

/-! ### The contract -/

/-- The sequences after the cursor, one after the other, and no `u64` overflows. -/
def Numbered (cursor : Nat) (accepted : List Nat) : Prop :=
  accepted = List.range' (cursor + 1) accepted.length ∧ cursor + accepted.length < 2 ^ 64

/-- Every handle has accepted the sequences after its cursor, and every `finalize` left the floor at the
last one it had accepted. -/
structure Contract (s : State) : Prop where
  numbered : ∀ id c, s.cycles id = some c → Numbered c.cursor c.handle.committedSeqs
  reported : ∀ r ∈ s.reports,
    Numbered r.cursor r.accepted ∧ ∀ seq ∈ r.accepted.getLast?, r.floor = seq

/-- A cycle that has copied `m` may store over `shared`: neither floor is past the last sequence it
accepted, and without one the copy still has the floor. -/
def MayStore (c : Cycle) (m shared : Manifest) : Prop :=
  match c.handle.committedSeqs.getLast? with
  | some seq => m.replayFloor ≤ seq ∧ shared.replayFloor ≤ seq
  | none => shared.replayFloor ≤ m.replayFloor

/-- When an event keeps to the contract: no changeset 0 on a handle whose counter has wrapped; a cycle
with nothing to install has committed up to the floor and no further; a manifest is stored when the
floor of its copy and the floor by now are not past it; and the other writers do not lower the floor. -/
def Safe (s : State) : Event → Prop
  | .commitChangeset id seq =>
    ∀ c, s.cycles id = some c → seq = 0 → c.handle.expectedNextSeq ≠ 0
  | .finalize id => ∀ c, s.cycles id = some c → c.Empty s.shared →
      ∀ seq ∈ c.handle.committedSeqs.getLast?, s.shared.replayFloor = seq
  | .store id => ∀ c m, s.cycles id = some c → c.snapshot = some m → MayStore c m s.shared
  | .other m => s.shared.replayFloor ≤ m.replayFloor
  | _ => True

/-! ### Handles -/

/-- What a handle keeps: its numbering, its counter (which may have wrapped), and the size of the
floor it has copied. -/
structure Cycle.Good (c : Cycle) : Prop where
  numbered : Numbered c.cursor c.handle.committedSeqs
  expected : c.handle.expectedNextSeq = (c.cursor + c.handle.committedSeqs.length + 1) % 2 ^ 64
  copied : ∀ m, c.snapshot = some m → m.replayFloor < 2 ^ 64

section

variable {pageSize : Nat} {r r' : ReplayHandle pageSize}

theorem setExpected_inv {nextSeq : Nat} (h : r.setExpectedNextChangesetSeq nextSeq = .ok r') :
    nextSeq ≠ 0 ∧ r'.expectedNextSeq = nextSeq ∧ r'.committedSeqs = [] := by
  simp only [ReplayHandle.setExpectedNextChangesetSeq] at h
  split at h
  · cases h
  · rename_i hnil
    split at h
    · cases h
    · rename_i h0
      cases h
      exact ⟨h0, rfl, not_not.mp hnil⟩

theorem applyPage_inv {sqlitePageId : Nat} {data : Bytes}
    (h : r.applyPage sqlitePageId data = .ok r') :
    r'.expectedNextSeq = r.expectedNextSeq ∧ r'.committedSeqs = r.committedSeqs := by
  simp only [ReplayHandle.applyPage] at h
  split at h
  · cases h
  · split at h
    · cases h
    · cases h
      exact ⟨rfl, rfl⟩

theorem commitChangeset_inv {seq : Nat} (h : r.commitChangeset seq = .ok r') :
    seq = r.expectedNextSeq ∧ r'.committedSeqs = r.committedSeqs ++ [seq] ∧
      r'.expectedNextSeq = (r.expectedNextSeq + 1) % 2 ^ 64 := by
  simp only [ReplayHandle.commitChangeset] at h
  split at h
  · cases h
  · rename_i hseq
    cases h
    exact ⟨not_not.mp hseq, rfl, rfl⟩

/-- A handle that starts after a cursor, which is not the last `u64`. -/
theorem beginReplayAfter_inv {m : Manifest} {currentSeq : Nat} {r : ReplayHandle m.pageSize}
    (hlt : currentSeq < 2 ^ 64) (h : m.beginReplayAfter currentSeq = .ok r) :
    r.expectedNextSeq = currentSeq + 1 ∧ currentSeq + 1 < 2 ^ 64 ∧ r.committedSeqs = [] := by
  simp only [Manifest.beginReplayAfter] at h
  split at h
  · cases h
  · obtain ⟨h0, hexp, hnil⟩ := setExpected_inv h
    have hmod : (currentSeq + 1) % 2 ^ 64 = currentSeq + 1 := by
      apply Nat.mod_eq_of_lt
      by_contra hge
      have heq : currentSeq + 1 = 2 ^ 64 := by omega
      rw [heq, Nat.mod_self] at h0
      exact h0 rfl
    rw [hmod] at hexp
    have hpos : (currentSeq + 1) % 2 ^ 64 < 2 ^ 64 := Nat.mod_lt _ (by norm_num)
    rw [hmod] at hpos
    exact ⟨hexp, hpos, hnil⟩

theorem numbered_nil {cursor : Nat} (h : cursor < 2 ^ 64) : Numbered cursor [] := ⟨rfl, h⟩

theorem good_fresh {cursor : Nat} {m : Option Manifest} (hm : m = none)
    (hnil : r.committedSeqs = []) (hexp : r.expectedNextSeq = cursor + 1)
    (hlt : cursor + 1 < 2 ^ 64) : Cycle.Good ⟨pageSize, r, cursor, m⟩ where
  numbered := by
    simp only [hnil]
    exact numbered_nil (by omega)
  expected := by
    simp only [hnil, hexp, List.length_nil, Nat.add_zero]
    exact (Nat.mod_eq_of_lt hlt).symm
  copied := by simp [hm]

/-- The next changeset, unless the counter has wrapped. -/
theorem Cycle.Good.commit {c : Cycle} (h : c.Good) {seq : Nat} {r' : ReplayHandle c.pageSize}
    (hsafe : seq = 0 → c.handle.expectedNextSeq ≠ 0)
    (hr : c.handle.commitChangeset seq = .ok r') : Cycle.Good { c with handle := r' } := by
  obtain ⟨hseq, hcommitted, hexp⟩ := commitChangeset_inv hr
  obtain ⟨hrange, hlt⟩ := h.numbered
  -- the counter is the successor of the last sequence: it is 0 only at the end of `u64`
  have hnext : c.cursor + c.handle.committedSeqs.length + 1 < 2 ^ 64 := by
    by_contra hge
    have hend : c.cursor + c.handle.committedSeqs.length + 1 = 2 ^ 64 := by omega
    have hzero : c.handle.expectedNextSeq = 0 := by rw [h.expected, hend, Nat.mod_self]
    exact hsafe (hseq.trans hzero) hzero
  have hseq' : seq = c.cursor + 1 + c.handle.committedSeqs.length := by
    rw [hseq, h.expected, Nat.mod_eq_of_lt hnext]
    omega
  constructor
  · constructor
    · simp only [hcommitted, List.length_append, List.length_singleton]
      rw [List.range'_concat, ← hrange, hseq', one_mul]
    · simp only [hcommitted, List.length_append, List.length_singleton]
      omega
  · simp only [hcommitted, hexp, List.length_append, List.length_singleton, h.expected]
    rw [Nat.mod_add_mod]
    rfl
  · exact h.copied

end

/-! ### Steps -/

/-- Every cycle numbers its changesets upwards from its cursor, and the floor is the last of them. -/
structure Inv (s : State) : Prop where
  floor : s.shared.replayFloor < 2 ^ 64
  cycles : ∀ id c, s.cycles id = some c → c.Good
  reported : ∀ r ∈ s.reports,
    Numbered r.cursor r.accepted ∧ ∀ seq ∈ r.accepted.getLast?, r.floor = seq

section

variable {s s' : State} {id : Nat}

theorem State.handle?_inv {c : Cycle} (h : s.handle? id = some c) :
    s.cycles id = some c ∧ c.snapshot = none := by
  obtain ⟨hc, hnone⟩ := Option.filter_eq_some_iff.mp h
  exact ⟨hc, Option.isNone_iff_eq_none.mp hnone⟩

theorem Inv.put (h : Inv s) {c : Option Cycle} (hc : ∀ c' ∈ c, c'.Good) : Inv (s.put id c) where
  floor := h.floor
  cycles id' c' hid := by
    simp only [State.put, Function.update_apply] at hid
    split at hid
    · exact hc c' hid
    · exact h.cycles id' c' hid
  reported := h.reported

theorem Inv.drop (h : Inv s) : Inv (s.put id none) := h.put (by simp)

theorem Inv.report (h : Inv s) {c : Cycle} (hnum : Numbered c.cursor c.handle.committedSeqs)
    (hlast : ∀ seq ∈ c.handle.committedSeqs.getLast?, s.shared.replayFloor = seq) :
    Inv (s.report c) where
  floor := h.floor
  cycles := h.cycles
  reported r hr := by
    simp only [State.report, List.mem_cons] at hr
    cases hr with
    | inl hr =>
      subst hr
      exact ⟨hnum, hlast⟩
    | inr hr => exact h.reported r hr

theorem Inv.begun (h : Inv s) {pageSize cursor : Nat} {r : IoResult (ReplayHandle pageSize)}
    (hr : ∀ handle, r = .ok handle → Cycle.Good ⟨pageSize, handle, cursor, none⟩)
    (hs : s.begun id r cursor = some s') : Inv s' ∧ s'.shared = s.shared := by
  unfold State.begun at hs
  split at hs
  · cases hs
  · cases r with
    | ok handle =>
      cases hs
      refine ⟨h.put ?_, rfl⟩
      intro c hc
      cases hc
      exact hr handle rfl
    | error e =>
      cases hs
      exact ⟨h, rfl⟩

theorem Inv.called (h : Inv s) {c : Cycle} {r : IoResult (ReplayHandle c.pageSize)} {cursor : Nat}
    (hr : ∀ handle, r = .ok handle → Cycle.Good { c with handle := handle, cursor := cursor }) :
    Inv (s.called id c r cursor) ∧ (s.called id c r cursor).shared = s.shared := by
  cases r with
  | ok handle =>
    refine ⟨h.put ?_, rfl⟩
    intro c hc
    cases hc
    exact hr handle rfl
  | error e => exact ⟨h, rfl⟩

/-- What a safe store does to the floor. -/
theorem floor_of_store {c : Cycle} {m : Manifest} (hnum : Numbered c.cursor c.handle.committedSeqs)
    (hsafe : MayStore c m s.shared) (hm : m.replayFloor < 2 ^ 64) :
    (c.handle.postManifest m).replayFloor < 2 ^ 64 ∧
      s.shared.replayFloor ≤ (c.handle.postManifest m).replayFloor ∧
      ∀ seq ∈ c.handle.committedSeqs.getLast?, (c.handle.postManifest m).replayFloor = seq := by
  obtain ⟨hrange, hlt⟩ := hnum
  unfold MayStore at hsafe
  rw [ReplayHandle.replayFloor_postManifest]
  cases hlen : c.handle.committedSeqs.length with
  | zero =>
    have hnil : c.handle.committedSeqs = [] := List.length_eq_zero_iff.mp hlen
    simp only [hnil, List.getLast?_nil] at hsafe
    simp only [hnil, List.foldl_nil, List.getLast?_nil]
    exact ⟨hm, hsafe, by simp⟩
  | succ k =>
    rw [hlen] at hrange hlt
    simp only [hrange, List.getLast?_range'] at hsafe ⊢
    simp only [Nat.add_one_ne_zero, if_false] at hsafe ⊢
    have hfold : (List.range' (c.cursor + 1) (k + 1)).foldl max m.replayFloor =
        c.cursor + 1 + k := by
      rw [foldl_max_range']
      omega
    rw [hfold]
    refine ⟨by omega, by omega, ?_⟩
    intro seq hseq
    simp only [Option.mem_def, Option.some.injEq] at hseq
    omega

/-- One event: the invariant is kept and the floor does not go down. -/
theorem step_inv {e : Event} (h : Inv s) (hsafe : Safe s e) (hs : step s e = some s') :
    Inv s' ∧ s.shared.replayFloor ≤ s'.shared.replayFloor := by
  -- all but the stores leave the manifest alone
  have hkept : (Inv s' ∧ s'.shared = s.shared) →
      Inv s' ∧ s.shared.replayFloor ≤ s'.shared.replayFloor :=
    fun hk => ⟨hk.1, by rw [hk.2]⟩
  cases e with
  | beginReplay id =>
    refine hkept (h.begun ?_ hs)
    intro r hr
    -- a new cycle has accepted nothing yet
    obtain ⟨hexp, hlt, hnil⟩ := beginReplayAfter_inv h.floor hr
    exact good_fresh rfl hnil hexp hlt
  | beginReplayAfter id currentSeq =>
    simp only [step, Option.ite_none_right_eq_some] at hs
    obtain ⟨hseq, hs⟩ := hs
    refine hkept (h.begun ?_ hs)
    intro r hr
    obtain ⟨hexp, hlt, hnil⟩ := beginReplayAfter_inv hseq hr
    exact good_fresh rfl hnil hexp hlt
  | setExpectedNextChangesetSeq id nextSeq =>
    simp only [step, Option.ite_none_right_eq_some] at hs
    obtain ⟨hlt, hs⟩ := hs
    obtain ⟨c, hc, rfl⟩ := Option.map_eq_some_iff.mp hs
    refine hkept (h.called ?_)
    intro r hr
    obtain ⟨h0, hexp, hnil⟩ := setExpected_inv hr
    exact good_fresh (State.handle?_inv hc).2 hnil (by omega) (by omega)
  | applyPage id sqlitePageId data =>
    obtain ⟨c, hc, rfl⟩ := Option.map_eq_some_iff.mp hs
    refine hkept (h.called ?_)
    intro r hr
    obtain ⟨hexp, hcommitted⟩ := applyPage_inv hr
    have hgood := h.cycles id c (State.handle?_inv hc).1
    exact ⟨by simpa only [hcommitted] using hgood.numbered,
      by simpa only [hexp, hcommitted] using hgood.expected, hgood.copied⟩
  | setTargetPageCount id n =>
    obtain ⟨c, hc, rfl⟩ := Option.map_eq_some_iff.mp hs
    refine hkept (h.called ?_)
    intro r hr
    cases hr
    have hgood := h.cycles id c (State.handle?_inv hc).1
    exact ⟨hgood.numbered, hgood.expected, hgood.copied⟩
  | commitChangeset id seq =>
    obtain ⟨c, hc, rfl⟩ := Option.map_eq_some_iff.mp hs
    refine hkept (h.called ?_)
    intro r hr
    have hc := (State.handle?_inv hc).1
    exact (h.cycles id c hc).commit (hsafe c hc) hr
  | finalize id =>
    obtain ⟨c, hc, rfl⟩ := Option.map_eq_some_iff.mp hs
    have hc := (State.handle?_inv hc).1
    have hgood := h.cycles id c hc
    apply hkept
    split
    · -- the handle has failed before: nothing is reported
      exact ⟨h.drop, rfl⟩
    · split
      · rename_i hempty
        exact ⟨h.drop.report hgood.numbered (hsafe c hc hempty), rfl⟩
      · refine ⟨h.put ?_, rfl⟩
        intro c' hc'
        cases hc'
        refine ⟨hgood.numbered, hgood.expected, ?_⟩
        intro m hm
        cases hm
        exact h.floor
  | store id =>
    obtain ⟨c, hc, hs⟩ := Option.bind_eq_some_iff.mp hs
    obtain ⟨m, hm, rfl⟩ := Option.map_eq_some_iff.mp hs
    have hgood := h.cycles id c hc
    obtain ⟨hlt, hle, hlast⟩ := floor_of_store hgood.numbered (hsafe c m hc hm) (hgood.copied m hm)
    -- the stored floor is the last changeset, and no lower than the one before
    have hstored : Inv { s with shared := c.handle.postManifest m } :=
      ⟨hlt, h.cycles, h.reported⟩
    exact ⟨hstored.drop.report hgood.numbered hlast, hle⟩
  | abort id =>
    obtain ⟨c, -, rfl⟩ := Option.map_eq_some_iff.mp hs
    exact hkept ⟨h.drop, rfl⟩
  | other m =>
    simp only [step, Option.ite_none_right_eq_some, Option.some.injEq] at hs
    obtain ⟨hlt, rfl⟩ := hs
    exact ⟨⟨hlt, h.cycles, h.reported⟩, hsafe⟩

end

theorem Inv.contract {s : State} (h : Inv s) : Contract s where
  numbered id c hc := (h.cycles id c hc).numbered
  reported := h.reported

/-- In every run whose events are safe, every handle accepts the sequences after its cursor, in order
and without overflow, every `finalize` leaves the floor at the last sequence it accepted, and no part
of the run lowers the floor. -/
theorem replay_sequence {m : Manifest} (hm : m.replayFloor < 2 ^ 64) {es₁ es₂ : List Event}
    {s₁ s₂ : State} (h₁ : run step { shared := m } es₁ = some s₁) (h₂ : run step s₁ es₂ = some s₂)
    (hsafe : Meets step Safe { shared := m } (es₁ ++ es₂)) :
    Contract s₂ ∧ s₁.shared.replayFloor ≤ s₂.shared.replayFloor := by
  have hinit : Inv { shared := m } := ⟨hm, by simp, by simp⟩
  have hstep : ∀ s e s', Inv s → Safe s e → step s e = some s' →
      Inv s' ∧ s.shared.replayFloor ≤ s'.shared.replayFloor := fun _ _ _ hi hc hs => step_inv hi hc hs
  obtain ⟨hinv, hle⟩ := run_invariant_monotone hstep hinit hsafe h₁ h₂
  exact ⟨hinv.contract, hle⟩

namespace Example

/-- Two pages, replayed up to changeset 5. -/
def manifest : Manifest where
  version := 1
  pageCount := 2
  pageSize := 512
  pagesPerGroup := 4
  changeCounter := 5

/-- A cycle replays changesets 6 and 7, which add a page. -/
def replay : List Event :=
  [.beginReplay 0, .applyPage 0 3 (List.replicate 512 7), .commitChangeset 0 6,
    .commitChangeset 0 7]

/-- The cycle installs them. -/
def install : List Event := [.finalize 0, .store 0]

/-- A cycle starts one before the last `u64`. -/
def atTheEnd : List Event :=
  [.beginReplayAfter 0 (2 ^ 64 - 2), .commitChangeset 0 (2 ^ 64 - 1), .commitChangeset 0 0]

/-- The state after a replay. -/
def replayed : State := (run step { shared := manifest } replay).getD { shared := manifest }

/-- The state after the manifest is installed again. -/
def installed : State := (run step replayed install).getD replayed

set_option maxRecDepth 4000 in
theorem meets_replay : Meets step Safe { shared := manifest } (replay ++ install) :=
  Meets.cons trivial rfl <| Meets.cons trivial rfl <|
    Meets.cons (fun _ _ h => absurd h (by decide)) rfl <|
    Meets.cons (fun _ _ h => absurd h (by decide)) rfl <|
    Meets.cons (by
      intro c hc hempty
      cases hc
      exact absurd hempty (by decide)) rfl <|
    Meets.cons (by
      intro c m hc hm
      cases hc
      cases hm
      have hfloors : manifest.replayFloor ≤ 7 ∧ manifest.replayFloor ≤ 7 := by decide
      exact hfloors) rfl trivial

end Example

set_option maxRecDepth 4000 in
/-- Two changesets after the fifth are numbered 6 and 7, and leave the floor at 7. -/
theorem two_changesets :
    Contract Example.installed ∧
      Example.replayed.shared.replayFloor ≤ Example.installed.shared.replayFloor :=
  have h₁ : run step { shared := Example.manifest } Example.replay = some Example.replayed := rfl
  have h₂ : run step Example.replayed Example.install = some Example.installed := rfl
  replay_sequence (by decide) h₁ h₂ Example.meets_replay

/-- At the end of `u64` the counter wraps, and the handle goes on with changeset 0. -/
theorem counter_wraps : ∃ s c, run step { shared := Example.manifest } Example.atTheEnd = some s ∧
    s.cycles 0 = some c ∧ c.handle.committedSeqs = [2 ^ 64 - 1, 0] ∧ ¬Contract s := by
  refine ⟨_, _, rfl, rfl, rfl, ?_⟩
  intro h
  have hlt := (h.numbered 0 _ rfl).2
  exact absurd hlt (by decide)

end ReplaySequence

end Turbolite
