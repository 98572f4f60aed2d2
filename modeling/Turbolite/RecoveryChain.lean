import Turbolite.CursorChain
import Turbolite.RecoveryCoverage
import Turbolite.ReplayCursor
import Turbolite.Lib.Results

/-!
# Turbolite.RecoveryChain

The code that the contract of `Turbolite.CursorChain` is about. A recovery plan that is selected is a run of
the contract: its deltas are well-formed candidates, and a follower that begins at the checkpoint applies
them one by one and ends at the root (`recovery_plan_runs`). The calls that move the cursor of a manifest
check less than the contract does, and nothing that it does not: they accept every cursor of a run, and the
manifest ends up with the cursor of the follower (`cursor_chain_accepted`).
-/

namespace Turbolite

open Runs Results CursorChain

namespace Sashimono

/-! ### Plans -/

/-- The delta as a candidate: versions are what it is chained by. -/
def DeltaV1.toDelta (d : DeltaV1) : Delta String UInt64 UInt64 where
  seq := d.sequence.toNat
  epoch := d.leaseEpoch.toNat
  writer := d.writerId
  prevChecksum := d.baseDatabaseVersion
  checksum := d.endDatabaseVersion
  payloadFingerprint := d.checksum
  endPageCount := d.endDatabasePageCount.toNat

namespace RecoveryPlanV1

/-- The checkpoint as a base. -/
def base (plan : RecoveryPlanV1) : Base String UInt64 where
  seq := plan.checkpoint.checkpointDeltaSequence.toNat
  epoch := plan.checkpoint.leaseEpoch.toNat
  writer := plan.checkpoint.writerId
  checksum := plan.checkpoint.databaseVersion
  endPageCount := plan.checkpoint.databasePageCount.toNat

/-- The deltas of a plan, as the specification has them. -/
def candidates (plan : RecoveryPlanV1) : List (Delta String UInt64 UInt64) :=
  plan.deltas.map (·.toDelta)

/-- The deltas are published, then applied. -/
def events (plan : RecoveryPlanV1) : List (Event String UInt64 UInt64) :=
  plan.candidates.map .appendDelta ++ plan.candidates.map .applyNext

end RecoveryPlanV1

section Linked

variable {pageSize : UInt32} {seq epoch : Nat} {writer : String} {version pageCount final : UInt64}
  {ds : List DeltaV1}

/-- Linked deltas of one identity are a chain. -/
theorem Linked.chained (h : Linked pageSize (seq + 1) version pageCount ds final)
    (hid : ∀ d ∈ ds, d.leaseEpoch.toNat = epoch ∧ d.writerId = writer) :
    Chained epoch writer ⟨seq, version, pageCount.toNat⟩ (ds.map (·.toDelta))
      ⟨seq + ds.length, final,
        (ds.getLast?.map (·.endDatabasePageCount.toNat)).getD pageCount.toNat⟩ := by
  induction ds generalizing seq version pageCount with
  | nil =>
    obtain rfl : version = final := h
    exact rfl
  | cons d ds ih =>
    obtain ⟨⟨-, hseq, hversion, -, -⟩, hrest⟩ := h
    obtain ⟨hepoch, hwriter⟩ := hid d List.mem_cons_self
    refine ⟨⟨hseq, hepoch, hwriter, hversion⟩, ?_⟩
    have hrest' := ih hrest fun e he => hid e (List.mem_cons_of_mem d he)
    have hlast : ((d :: ds).getLast?.map (·.endDatabasePageCount.toNat)).getD pageCount.toNat =
        (ds.getLast?.map (·.endDatabasePageCount.toNat)).getD d.endDatabasePageCount.toNat := by
      rw [List.getLast?_cons]
      cases ds.getLast? with
      | none => rfl
      | some e => rfl
    have hlen : seq + (d :: ds).length = seq + 1 + ds.length := by
      rw [List.length_cons]
      omega
    rw [hlast, hlen]
    have hcursor : d.toDelta.cursor = ⟨seq + 1, d.endDatabaseVersion, d.endDatabasePageCount.toNat⟩ := by
      simp [Delta.cursor, DeltaV1.toDelta, hseq]
    rw [← hcursor] at hrest'
    exact hrest'

/-- Every delta of the chain leads to a later version than the one before. -/
theorem Linked.lt_end (h : Linked pageSize seq version pageCount ds final) {d : DeltaV1}
    (hd : d ∈ ds) : version < d.endDatabaseVersion := by
  induction ds generalizing seq version pageCount with
  | nil => simp at hd
  | cons e ds ih =>
    obtain ⟨⟨hvalid, -, rfl, -, -⟩, hrest⟩ := h
    have hlt := (DeltaV1.validate_inv hvalid).2
    rcases List.mem_cons.mp hd with rfl | hd
    · exact hlt
    · exact UInt64.lt_trans hlt (ih hrest hd)

theorem Linked.end_inj (h : Linked pageSize seq version pageCount ds final) {d e : DeltaV1}
    (hd : d ∈ ds) (he : e ∈ ds) (heq : d.endDatabaseVersion = e.endDatabaseVersion) : d = e := by
  induction ds generalizing seq version pageCount with
  | nil => simp at hd
  | cons a ds ih =>
    rcases List.mem_cons.mp hd with hd' | hd' <;> rcases List.mem_cons.mp he with he' | he'
    · exact hd'.trans he'.symm
    · have hlt := h.2.lt_end he'
      rw [← heq, hd'] at hlt
      exact absurd hlt (UInt64.lt_irrefl _)
    · have hlt := h.2.lt_end hd'
      rw [heq, he'] at hlt
      exact absurd hlt (UInt64.lt_irrefl _)
    · exact ih h.2 hd' he'

end Linked

section Plan

variable {root : RootPointerV1} {checkpoints : List CheckpointV1} {deltas : List DeltaV1}
  {maxDeltaReplay : UInt64} {plan : RecoveryPlanV1}

theorem isPlan_of_selected
    (h : selectRecoveryPlan root checkpoints deltas maxDeltaReplay = .ok plan) :
    IsPlan root checkpoints deltas maxDeltaReplay plan := by
  have hroot : root.validate = .ok () := by
    obtain ⟨u, hu, -⟩ := bind_eq_ok.mp h
    exact returning_eq_ok.mp hu
  exact ((selectRecoveryPlan_eq_ok hroot).mp h).2.2.2

/-- Where the plan leads. -/
def IsPlan.final (root : RootPointerV1) (plan : RecoveryPlanV1) : Cursor UInt64 :=
  ⟨root.latestDeltaSequence.toNat, root.latestDatabaseVersion, plan.finalPageCount⟩

theorem IsPlan.chained (h : IsPlan root checkpoints deltas maxDeltaReplay plan) :
    Chained plan.base.epoch plan.base.writer plan.base.cursor plan.candidates (IsPlan.final root plan) := by
  have hid : ∀ d ∈ plan.deltas,
      d.leaseEpoch.toNat = plan.base.epoch ∧ d.writerId = plan.base.writer := by
    intro d hd
    obtain ⟨-, -, -, -, -, hwriter, hepoch⟩ := of_candidates_eq (h.sole d hd)
    obtain ⟨-, -, -, -, hwriter', hepoch'⟩ := h.identity
    exact ⟨congrArg UInt64.toNat (hepoch.trans hepoch'.symm), hwriter.trans hwriter'.symm⟩
  have hchain := h.linked.chained hid
  rwa [h.length] at hchain

theorem IsPlan.wellFormed (h : IsPlan root checkpoints deltas maxDeltaReplay plan) :
    CandidatesWellFormed plan.candidates.toFinset := by
  refine h.chained.wellFormed ?_
  intro a ha b hb hsum
  obtain ⟨d, hd, rfl⟩ := List.mem_map.mp ha
  obtain ⟨e, he, rfl⟩ := List.mem_map.mp hb
  exact congrArg DeltaV1.toDelta (h.linked.end_inj hd he hsum)

/-- A selected plan is a run of the contract from its checkpoint. The follower ends at the sequence number
and the version of the root, with the page count of the last delta; it has applied the deltas of the plan
and nothing else, and is safe. -/
theorem recovery_plan_runs (promotedBaseChecksum : UInt64)
    (h : selectRecoveryPlan root checkpoints deltas maxDeltaReplay = .ok plan) :
    ∃ s, run (step promotedBaseChecksum) (init plan.base) plan.events = some s ∧
      s.followerSeq = root.latestDeltaSequence.toNat ∧
      s.chainAnchor = root.latestDatabaseVersion ∧ s.pageCount = plan.finalPageCount ∧
      s.applied = plan.candidates.toFinset ∧ s.fatal = false ∧ Safety plan.base s := by
  have hplan := isPlan_of_selected h
  have hrun := run_chain promotedBaseChecksum hplan.chained hplan.wellFormed
  exact ⟨_, hrun, rfl, rfl, rfl, rfl, rfl, (inv_run hrun).safety⟩

open Example in
theorem example_plan_runs : ∃ plan, selectRecoveryPlan root₁ [checkpoint] [delta] 128 = .ok plan ∧
    ∃ s, run (step 0) (init plan.base) plan.events = some s ∧
      s.followerSeq = root₁.latestDeltaSequence.toNat ∧
      s.chainAnchor = root₁.latestDatabaseVersion ∧ s.pageCount = plan.finalPageCount ∧
      s.applied = plan.candidates.toFinset ∧ s.fatal = false ∧ Safety plan.base s := by
  obtain ⟨plan, hplan⟩ := exists_ok
    (show (selectRecoveryPlan root₁ [checkpoint] [delta] 128).toOption.isSome = true by decide +kernel)
  exact ⟨plan, hplan, recovery_plan_runs 0 hplan⟩

end Plan

end Sashimono

/-! ### Cursors of a manifest -/

section Cursors

variable {F : Type}

/-- What a follower's process does at an event: it records an applied delta, and a promotion publishes the
base at the follower's position, under the next epoch. -/
def followerStep (promotedBaseChecksum : Bytes) (m : Manifest) :
    Event String Bytes F → IoResult Manifest
  | .applyNext d => do
    let cursor : ReplayCursor :=
      { lastAppliedSeq := d.seq, baseObjectChecksum := d.checksum, epoch := d.epoch }
    m.validateReplayCursorUpdate cursor
    .ok (m.withReplayCursor cursor)
  | .promote newWriter => do
    m.validateReplayCursorPublish m.cursor.lastAppliedSeq (m.cursor.epoch + 1) newWriter
    .ok (m.withReplayCursorAnchor m.cursor.lastAppliedSeq (m.cursor.epoch + 1) newWriter
      fun _ => promotedBaseChecksum)
  | _ => .ok m

/-- Anchors are 32 bytes, and writers have names. -/
def Proper : Event String Bytes F → Prop
  | .applyNext d => d.checksum.length = 32
  | .promote newWriter => isBlank newWriter = false
  | _ => True

/-- The manifest has the cursor of the follower. -/
structure Tracks (m : Manifest) (s : CursorChain.State String Bytes F) : Prop where
  seq : m.cursor.lastAppliedSeq = s.followerSeq
  epoch : m.cursor.epoch = s.followerEpoch
  writer : m.writerId = s.followerWriter
  anchor : m.cursor.baseObjectChecksum = s.chainAnchor
  lease : s.followerEpoch = s.leaseEpoch
  epoch_pos : 0 < s.followerEpoch
  named : isBlank s.followerWriter = false

theorem Manifest.validateReplayCursorUpdate_of_advances {m : Manifest} {cursor : ReplayCursor}
    (hle : m.cursor.lastAppliedSeq ≤ cursor.lastAppliedSeq)
    (hlen : cursor.baseObjectChecksum.length = 32) (hepoch : cursor.epoch ≠ 0)
    (hwriter : isBlank m.writerId = false) : m.validateReplayCursorUpdate cursor = .ok () := by
  have hanchor : validateReplayCursorAnchor "replay cursor base_object_checksum"
      cursor.baseObjectChecksum = .ok () := by
    simp [validateReplayCursorAnchor, hlen]
  simp only [validateReplayCursorUpdate, if_neg (Nat.not_lt.mpr hle), hanchor, ok_bind]
  simp [hlen, hepoch, hwriter]

variable [DecidableEq F] {promotedBaseChecksum : Bytes} {m : Manifest}
  {s s' : CursorChain.State String Bytes F}

/-- One event of the contract is accepted by the checks of the manifest. -/
theorem Tracks.step {e : Event String Bytes F} (h : Tracks m s) (he : Proper e)
    (hs : step promotedBaseChecksum s e = some s') :
    ∃ m', followerStep promotedBaseChecksum m e = .ok m' ∧ Tracks m' s' := by
  cases e with
  | appendDelta d =>
    simp only [CursorChain.step, Option.ite_none_right_eq_some, Option.some.injEq] at hs
    obtain ⟨-, rfl⟩ := hs
    exact ⟨m, rfl, h.seq, h.epoch, h.writer, h.anchor, h.lease, h.epoch_pos, h.named⟩
  | recordEquivocation a b =>
    simp only [CursorChain.step, Option.ite_none_right_eq_some, Option.some.injEq] at hs
    obtain ⟨-, rfl⟩ := hs
    exact ⟨m, rfl, h.seq, h.epoch, h.writer, h.anchor, h.lease, h.epoch_pos, h.named⟩
  | applyNext d =>
    simp only [CursorChain.step, Option.ite_none_right_eq_some, Option.some.injEq] at hs
    obtain ⟨⟨-, -, hseq, hepoch, -, -⟩, rfl⟩ := hs
    have hle : m.cursor.lastAppliedSeq ≤ d.seq := by
      rw [h.seq, hseq]
      exact Nat.le_succ _
    have hpos : d.epoch ≠ 0 := by
      rw [hepoch]
      exact Nat.ne_of_gt h.epoch_pos
    have hwriter : isBlank m.writerId = false := by
      rw [h.writer]
      exact h.named
    have hok : m.validateReplayCursorUpdate
        { lastAppliedSeq := d.seq, baseObjectChecksum := d.checksum, epoch := d.epoch } = .ok () :=
      Manifest.validateReplayCursorUpdate_of_advances hle he hpos hwriter
    refine ⟨_, by rw [followerStep, hok, ok_bind], ?_⟩
    exact ⟨rfl, hepoch, h.writer, rfl, h.lease, h.epoch_pos, h.named⟩
  | promote newWriter =>
    simp only [CursorChain.step, Option.ite_none_right_eq_some, Option.some.injEq] at hs
    obtain ⟨-, rfl⟩ := hs
    have hok : m.validateReplayCursorPublish m.cursor.lastAppliedSeq (m.cursor.epoch + 1) newWriter =
        .ok () :=
      Manifest.validateReplayCursorPublish_eq_ok.mpr ⟨le_refl _, Nat.succ_ne_zero _, he⟩
    refine ⟨_, by rw [followerStep, hok, ok_bind], ?_⟩
    have hepoch : m.cursor.epoch + 1 = s.leaseEpoch + 1 := by rw [h.epoch, h.lease]
    exact ⟨h.seq, hepoch, rfl, rfl, rfl, Nat.succ_pos _, he⟩
  | noStateChange =>
    cases hs
    exact ⟨m, rfl, h⟩

/-- The checks of the two calls never stop a follower that keeps the contract: every cursor of a run is
accepted, and the manifest has the follower's cursor in the end. -/
theorem cursor_chain_accepted {initialBase : Base String Bytes} {es : List (Event String Bytes F)}
    (hrun : run (step promotedBaseChecksum) (init initialBase) es = some s)
    (hes : ∀ e ∈ es, Proper e) (hm : Tracks m (init initialBase : CursorChain.State String Bytes F)) :
    ∃ m', es.foldlM (followerStep promotedBaseChecksum) m = .ok m' ∧ Tracks m' s := by
  revert hrun hm
  generalize init initialBase = s₀
  intro hrun hm
  induction es generalizing m s₀ with
  | nil =>
    cases hrun
    exact ⟨m, rfl, hm⟩
  | cons e es ih =>
    obtain ⟨s₁, hs₁, hrest⟩ := run_cons.mp hrun
    obtain ⟨m₁, hm₁, htracks⟩ := hm.step (hes e List.mem_cons_self) hs₁
    have hes' : ∀ e ∈ es, Proper e := by
      intro e' he'
      exact hes e' (List.mem_cons_of_mem e he')
    obtain ⟨m', hm', htracks'⟩ := ih hes' s₁ hrest htracks
    refine ⟨m', ?_, htracks'⟩
    rw [List.foldlM_cons, hm₁, ok_bind, hm']

end Cursors

namespace RecoveryChain.Example

/-- A checksum of 32 bytes. -/
def anchor (b : UInt8) : Bytes := List.replicate 32 b

/-- The base of the run below. -/
def base : Base String Bytes := ⟨4, 7, "writer-a", anchor 0, 2⟩

/-- The delta after it. -/
def delta : Delta String Bytes String := ⟨5, 7, "writer-a", anchor 0, anchor 1, "payload", 3⟩

/-- The manifest of the base. -/
def manifest : Manifest :=
  { cursor := { lastAppliedSeq := 4, baseObjectChecksum := anchor 0, epoch := 7 }, writerId := "writer-a" }

/-- A follower that applies the delta and is promoted. -/
def events : List (Event String Bytes String) :=
  [.appendDelta delta, .applyNext delta, .promote "writer-b"]

theorem manifest_tracks : Tracks manifest (init base : CursorChain.State String Bytes String) :=
  ⟨rfl, rfl, rfl, rfl, rfl, by decide, by decide⟩

end RecoveryChain.Example

open RecoveryChain.Example in
theorem promotion_accepted : ∃ s, run (step (anchor 9)) (init base) events = some s ∧
    ∃ m', events.foldlM (followerStep (anchor 9)) manifest = .ok m' ∧ Tracks m' s := by
  refine ⟨_, rfl, ?_⟩
  refine cursor_chain_accepted (show run (step (anchor 9)) (init base) events = some _ from rfl) ?_
    manifest_tracks
  intro e he
  simp only [events, List.mem_cons, List.not_mem_nil, or_false] at he
  rcases he with rfl | rfl | rfl
  · trivial
  · show delta.checksum.length = 32
    rfl
  · show isBlank "writer-b" = false
    decide

end Turbolite
