import Turbolite.Checkpoint
import Turbolite.FlushRetry
import Turbolite.Lib.Runs

/-!
# Turbolite.ExactFlush

A writer in `LocalThenFlush` mode next to `flush_inner`. A page write goes to the live cache first and
then to the open staging log; a checkpoint gives new pages a group, stores the manifest and then
finalizes and queues the log. A flush takes the queue, takes the dirty groups, snapshots the manifest,
reads the pages that are not staged from the live cache one by one, and publishes. It can fail at any
of its steps: with nothing in the backend, with some of its objects there, or with all of them and its
manifest, when only the files in the cache directory could not be written. Every step of the one may
fall between any two steps of the other.

`flush_publishes_boundary` says when what is published is the writer's database at one checkpoint.
`logs` and `counts` record the checkpoints and are read by no step.
-/

namespace Turbolite.ExactFlush

open Blocks Results ReadPaths Runs

/-- What does not change during a run. -/
structure Config where
  codec : CodecConfig
  pagesPerGroup : Nat
  overrideThreshold : Nat
  gcEnabled : Bool
  interiorPages : List Nat
  indexPages : List Nat

/-- How far a flush has come. -/
inductive Phase where
  | idle
  | tookLogs (flushes : List PendingFlush)
  | tookGroups (flushes : List PendingFlush) (groups : List Nat)
  | reading (flushes : List PendingFlush) (groups : List Nat) (snap : Manifest)
      (copied : HMap Nat (Option Bytes))

/-- The logs a flush holds. -/
def Phase.taken : Phase → List PendingFlush
  | .idle => []
  | .tookLogs fs => fs
  | .tookGroups fs _ => fs
  | .reading fs _ _ _ => fs

/-- The shared manifest, the cache, the staging logs and the flush under way. -/
structure State where
  /-- the shared manifest -/
  manifest : Manifest
  /-- the manifest in the backend -/
  published : Manifest
  backend : Backend
  cache : PageMap
  stagingSeq : Nat
  /-- the page of a write that has changed the cache and has no record in the log yet -/
  writing : Option (Nat × Bytes) := none
  writer : Option StagingLog := none
  dirty : List Nat := []
  pendingPageCount : Nat
  /-- the log of a checkpoint that has stored its manifest and not yet queued the log -/
  closing : Option StagingLog := none
  dir : StagingDir := ∅
  pending : List PendingFlush := []
  dirtyGroups : List Nat := []
  phase : Phase := .idle
  /-- every finalized log, in checkpoint order -/
  logs : List StagingLog := []
  /-- the page count at the start and at every checkpoint -/
  counts : List Nat

/-- The steps of the writer and of the flush. -/
inductive Event where
  /-- `write_all_at` of a full page: the cache -/
  | write (pageNum : Nat) (data : Bytes)
  /-- `write_all_at`: the record in the open log -/
  | append
  /-- local checkpoint: groups for new pages, manifest store -/
  | beginCheckpoint
  /-- local checkpoint: finalize and queue the log -/
  | endCheckpoint
  | takeLogs
  | takeGroups
  | snapshot
  /-- `read_page_if_present` of one page -/
  | copy (pageNum : Nat)
  /-- `put_page_groups` of some of the objects -/
  | upload (us : List (ObjectKey × Bytes))
  /-- encode, upload, publish -/
  | finish
  /-- the flush fails and puts everything back -/
  | fail
  /-- the flush fails after `put_manifest`: its files in the cache directory could not be written -/
  | failPersist

/-- The cache as the flush read it. -/
def copiedCache (pageSize : Nat) (copied : HMap Nat (Option Bytes)) : DiskCache pageSize :=
  .ofPages (fun p => ((copied.lookup p).join).filter fun d => d.length = pageSize) (by
    intro p d h
    simpa using (Option.filter_eq_some_iff.mp h).2)

variable (c : Config)

/-- What `flush_inner` computes with. -/
def flushInput (s : State) (flushes : List PendingFlush) (groups : List Nat) (snap : Manifest)
    (copied : HMap Nat (Option Bytes)) : FlushInput where
  cfg := c.codec
  manifest := snap
  cache := copiedCache snap.pageSize copied
  backend := s.backend
  dir := s.dir
  flushes := flushes
  legacyDirtyGroups := groups
  overrideThreshold := c.overrideThreshold
  isLocal := false
  interiorPages := c.interiorPages
  indexPages := c.indexPages
  gcEnabled := c.gcEnabled

/-- Every page the merge looks for in the cache has been read. -/
def readAll (i : FlushInput) (copied : HMap Nat (Option Bytes)) : Bool :=
  match mergeStaged i.dir i.flushes with
  | .error _ => false
  | .ok staged => (i.dirtyGroups staged).all fun g => (i.manifest.groupPageNums g).all fun p =>
      decide (i.manifest.pageCount ≤ p) || (copied.lookup p).isSome

/-- The log a write goes to: the open one, or a new one under the next sequence number. -/
def State.openLog (s : State) : StagingLog :=
  s.writer.getD { version := s.stagingSeq, pageSize := s.manifest.pageSize }

/-- The first half of `write_all_at`. -/
def State.cachePage (s : State) (p : Nat) (data : Bytes) : State :=
  { s with
    cache := Function.update s.cache p (some data)
    writing := some (p, data) }

/-- The second half of `write_all_at`. -/
def State.logPage (s : State) (p : Nat) (data : Bytes) : State :=
  { s with
    writing := none
    writer := some (s.openLog.append p data)
    stagingSeq := if s.writer = none then s.stagingSeq + 1 else s.stagingSeq
    dirty := if p ∈ s.dirty then s.dirty else s.dirty ++ [p]
    pendingPageCount := max s.pendingPageCount (p + 1) }

/-- The first half of a local checkpoint: new pages get groups, the manifest is stored, the open log is
taken. -/
def State.storeCheckpoint (s : State) (ppg : Nat) (log : StagingLog) : State :=
  let m := s.manifest.localCheckpoint s.dirty ppg
  { s with
    manifest := m
    dirtyGroups := s.dirtyGroups ++ s.dirty.filterMap fun p => (m.pageLocation p).map (·.groupId)
    dirty := []
    writer := none
    closing := some log }

/-- The second half: the log gets its trailer, is finalized and queued. -/
def State.queueLog (s : State) (log : StagingLog) : State :=
  { s with
    dir := s.dir.insert log.version (log.appendManifest s.manifest)
    pending := s.pending ++ [⟨log.version, log.pageSize⟩]
    closing := none
    logs := s.logs ++ [log.appendManifest s.manifest]
    counts := s.counts ++ [s.pendingPageCount] }

/-- One event; `none` when it cannot happen. -/
def step (s : State) : Event → Option State
  | .write p data =>
    if s.closing = none ∧ s.writing = none ∧ data.length = s.manifest.pageSize then
      some (s.cachePage p data)
    else none
  | .append => s.writing.map fun w => s.logPage w.1 w.2
  | .beginCheckpoint =>
    match s.writing, s.writer with
    | some _, _ | _, none => none
    | none, some log =>
      let s' := s.storeCheckpoint c.pagesPerGroup log
      -- `expect("page must have group assignment")`
      if s.dirty.all fun p => (s'.manifest.pageLocation p).isSome then some s' else none
  | .endCheckpoint => s.closing.map s.queueLog
  | .takeLogs =>
    match s.phase with
    | .idle => some { s with pending := [], phase := .tookLogs s.pending }
    | _ => none
  | .takeGroups =>
    match s.phase with
    | .tookLogs fs =>
      if fs = [] ∧ s.dirtyGroups = [] then some { s with phase := .idle }
      else some { s with dirtyGroups := [], phase := .tookGroups fs s.dirtyGroups }
    | _ => none
  | .snapshot =>
    match s.phase with
    | .tookGroups fs gs => some { s with phase := .reading fs gs s.manifest ∅ }
    | _ => none
  | .copy p =>
    match s.phase with
    | .reading fs gs snap copied =>
      if (copied.lookup p).isNone then
        some { s with phase := .reading fs gs snap (copied.insert p (s.cache p)) }
      else none
    | _ => none
  | .upload us =>
    match s.phase with
    | .reading fs gs snap copied =>
      let i := flushInput c s fs gs snap copied
      if readAll i copied then
        match i.prepare with
        | .ok (some p) =>
          if us ⊆ p.uploads then some { s with backend := s.backend.putPageGroups us } else none
        | _ => none
      else none
    | _ => none
  | .finish =>
    match s.phase with
    | .reading fs gs snap copied =>
      let i := flushInput c s fs gs snap copied
      if readAll i copied then
        match i.flushInner with
        | .error _ => none
        | .ok none =>
          some { s with dir := fs.foldl (fun d f => d.erase f.version) s.dir, phase := .idle }
        | .ok (some (new, b)) =>
          some { s with
            manifest := new
            published := new
            backend := b
            dir := fs.foldl (fun d f => d.erase f.version) s.dir
            phase := .idle }
      else none
    | _ => none
  | .fail =>
    match s.phase with
    | .tookGroups fs gs | .reading fs gs _ _ =>
      some { s with pending := s.pending ++ fs, dirtyGroups := s.dirtyGroups ++ gs, phase := .idle }
    | _ => none
  | .failPersist =>
    match s.phase with
    | .reading fs gs snap copied =>
      let i := flushInput c s fs gs snap copied
      if readAll i copied then
        match i.prepare with
        | .ok (some p) =>
          match (s.backend.putPageGroups p.uploads).putManifest p.manifest with
          | .ok b =>
            -- the shared manifest is stored after the files
            some { s with
              published := p.manifest
              backend := b
              pending := s.pending ++ fs
              dirtyGroups := s.dirtyGroups ++ gs
              phase := .idle }
          | .error _ => none
        | _ => none
      else none
    | _ => none

/-! ### Boundaries -/

/-- The database after the first `k` checkpoints of a writer that started from `start`. -/
def boundaryImage (start : Nat → Bytes) (logs : List StagingLog) (k p : Nat) : Bytes :=
  (lastImage (logs.take k) p).getD (start p)

/-- The published database is the writer's database at one checkpoint boundary. -/
def AtBoundary (start : Nat → Bytes) (s : State) : Prop :=
  ∃ k, s.counts[k]? = some s.published.pageCount ∧ ∀ p < s.published.pageCount,
    coldRead c.codec s.published s.backend p = .ok (boundaryImage start s.logs k p)

/-- The bytes a page has in the published database; zeros past its end. -/
def remote (s : State) : PageMap := fun p =>
  if p < s.published.pageCount then (coldRead c.codec s.published s.backend p).toOption
  else some (zeroPage s.manifest)

/-- The flush keeps what it was given, and its groups stay below the decoder's ceiling. -/
def Faithful (s : State) : Prop := ∀ fs gs snap copied, s.phase = .reading fs gs snap copied →
  (∀ g, 8 + (snap.groupPageNums g).length * snap.pageSize ≤ maxTieredDecompressedBytes) ∧
  ∀ staged ct, mergeStaged s.dir fs = .ok staged → Stored c.codec snap s.backend ct →
    ∀ p < snap.pageCount, ∀ v,
      (flushInput c s fs gs snap copied).expectedOver (remote c s) p = some v →
        (flushInput c s fs gs snap copied).Keeps staged ct p v

/-- The uploads replace no object of the manifest by another. -/
def Spares (m : Manifest) (b : Backend) (us : List (ObjectKey × Bytes)) : Prop :=
  ∀ u ∈ us, u.1 ∈ m.referencedKeys → b.objects u.1 = some u.2

/-- When an event is safe. A checkpoint publishes the writer's page count and does not touch the
manifest while a flush works from a snapshot; no checkpoint falls between the take of the logs and the
snapshot; a page that no taken log has is read from the cache while no later log has it and no write of
it is on the way to the log; a flush replaces no object of the published manifest by another, which a
flush can do only after one that could not write its files, when the published manifest is ahead of the
shared one; and a flush that stores its manifest keeps what it was given. -/
def Safe (s : State) : Event → Prop
  | .beginCheckpoint =>
    (s.manifest.localCheckpoint s.dirty c.pagesPerGroup).pageCount = s.pendingPageCount ∧
      ((∃ fs gs snap copied, s.phase = .reading fs gs snap copied) → s.manifest.unassigned s.dirty = [])
  | .snapshot => s.pending = [] ∧ s.closing = none
  | .copy p =>
    (∃ f ∈ s.phase.taken, ∃ log, s.dir.lookup f.version = some log ∧ p ∈ log.read) ∨
      (s.writing.map (·.1) ≠ some p ∧
        ∀ log, (s.writer = some log ∨ s.closing = some log ∨
          ∃ f ∈ s.pending, s.dir.lookup f.version = some log) → p ∉ log.read)
  | .upload us =>
    s.published.version ≤ s.manifest.version ∨ Spares s.published s.backend us
  | .finish =>
    (∀ fs gs snap copied, s.phase = .reading fs gs snap copied →
      (flushInput c s fs gs snap copied).flushInner = .ok none → fs = []) ∧ Faithful c s
  | .failPersist => Faithful c s
  | _ => True

/-- A writer about to start: nothing staged, and the backend holds the database `start`. -/
structure Start (start : Nat → Bytes) (s : State) : Prop where
  stored : ∃ ct, Stored c.codec s.manifest s.backend ct
  wellKeyed : WellKeyed s.manifest
  published : s.published = s.manifest
  reads : ∀ p < s.manifest.pageCount, coldRead c.codec s.manifest s.backend p = .ok (start p)
  beyond : ∀ p, s.manifest.pageCount ≤ p → start p = zeroPage s.manifest
  cached : ∀ p d, s.cache p = some d → d = start p ∧ d.length = s.manifest.pageSize
  pageSize : Manifest.isValidPageSize s.manifest.pageSize
  pendingPageCount : s.pendingPageCount = s.manifest.pageCount
  writing : s.writing = none
  writer : s.writer = none
  dirty : s.dirty = []
  closing : s.closing = none
  pending : s.pending = []
  phase : s.phase = .idle
  logs : s.logs = []
  counts : s.counts = [s.manifest.pageCount]

/-! ### The invariant -/

/-- Every log, finalized or not. -/
def State.allLogs (s : State) : List StagingLog := s.logs ++ s.closing.toList ++ s.writer.toList

/-- The writer's database. -/
def State.imageNow (start : Nat → Bytes) (s : State) (p : Nat) : Bytes :=
  (lastImage s.allLogs p).getD (start p)

/-- The writer's side: the cache holds the writer's database, up to a page that has no record yet, and
the logs what was written. -/
structure WriterInv (start : Nat → Bytes) (ps : Nat) (s : State) : Prop where
  pageSize : s.manifest.pageSize = ps
  valid : Manifest.isValidPageSize ps = true
  sorted : s.allLogs.Pairwise fun a b => a.version < b.version
  fresh : ∀ l ∈ s.allLogs, l.version < s.stagingSeq
  sized : ∀ l ∈ s.allLogs, l.pageSize = ps ∧ ∀ r ∈ l.records, r.2.length = ps
  dirty : s.dirty.Nodup
  alternate : s.closing = none ∨ s.writer = none
  cached : ∀ p d, s.cache p = some d → (d = s.imageNow start p ∨ s.writing = some (p, d)) ∧ d.length = ps
  writing : ∀ p d, s.writing = some (p, d) → s.cache p = some d ∧ s.closing = none
  absent : ∀ p, s.cache p = none → lastImage s.allLogs p = none
  beyond : ∀ p, s.pendingPageCount ≤ p → s.imageNow start p = List.replicate ps 0
  counts : s.counts.length = s.logs.length + 1
  countsBeyond : ∀ k n, s.counts[k]? = some n → ∀ p, n ≤ p →
    boundaryImage start s.logs k p = List.replicate ps 0
  lastCount : s.closing = none → s.counts[s.logs.length]? = some s.manifest.pageCount
  closingCount : s.closing ≠ none → s.manifest.pageCount = s.pendingPageCount

/-- The entries name logs that are on disk. -/
def Resolves (dir : StagingDir) (fs : List PendingFlush) (ls : List StagingLog) : Prop :=
  fs.map (·.version) = ls.map (·.version) ∧ ∀ l ∈ ls, dir.lookup l.version = some l

/-- A flush that works from a snapshot holds the logs up to boundary `t`, the snapshot is the shared
manifest, and what it read from the cache and did not get staged is as of `t`. -/
def Reading (start : Nat → Bytes) (ps : Nat) (s : State) (k : Nat) (tk : List StagingLog) : Prop :=
  ∀ fs gs snap copied, s.phase = .reading fs gs snap copied →
    ∃ t, k ≤ t ∧ t ≤ s.logs.length ∧ tk.Perm ((s.logs.take t).drop k) ∧ snap = s.manifest ∧
      s.counts[t]? = some snap.pageCount ∧
      ∀ p d, copied.lookup p = some (some d) →
        d.length = ps ∧ (lastImage tk p = none → d = boundaryImage start s.logs t p)

/-- The published database is that of boundary `k`, and the logs after it are taken or queued. -/
structure QueueInv (start : Nat → Bytes) (ps : Nat) (s : State) (k : Nat) (tk pd : List StagingLog) :
    Prop where
  count : s.counts[k]? = some s.published.pageCount
  reads : ∀ p < s.published.pageCount,
    coldRead c.codec s.published s.backend p = .ok (boundaryImage start s.logs k p)
  taken : Resolves s.dir s.phase.taken tk
  pending : Resolves s.dir s.pending pd
  rest : (tk ++ pd).Perm (s.logs.drop k)
  reading : Reading start ps s k tk

/-- The shared manifest is the published one, up to the groups of new pages. -/
structure Current (start : Nat → Bytes) (ps : Nat) (s : State) : Prop where
  stored : ∃ ct, Stored c.codec s.manifest s.backend ct
  wellKeyed : WellKeyed s.manifest
  version : s.published.version = s.manifest.version
  same : SameKeys s.published s.manifest
  queue : ∃ k tk pd, QueueInv c start ps s k tk pd

/-- A flush stored its manifest and could not write its files. The shared manifest stays behind the
published one, so no later flush can store another. -/
structure Behind (start : Nat → Bytes) (s : State) : Prop where
  boundary : AtBoundary c start s
  stored : s.backend.manifest = some s.published
  version : s.manifest.version < s.published.version
  reading : ∀ fs gs snap copied, s.phase = .reading fs gs snap copied →
    snap.version < s.published.version

/-- What the writer keeps, and what the flush has done so far. -/
structure Inv (start : Nat → Bytes) (ps : Nat) (s : State) : Prop where
  writer : WriterInv start ps s
  flush : Current c start ps s ∨ Behind c start s

variable {c} {start : Nat → Bytes} {ps : Nat} {s s' : State}

theorem Start.writerInv (h : Start c start s) : WriterInv start s.manifest.pageSize s := by
  have hall : s.allLogs = [] := by simp [State.allLogs, h.logs, h.closing, h.writer]
  have hnow : ∀ p, s.imageNow start p = start p := fun p => by rw [State.imageNow, hall]; rfl
  exact
    { pageSize := rfl
      valid := h.pageSize
      sorted := by rw [hall]; exact List.Pairwise.nil
      fresh := by rw [hall]; exact fun l hl => absurd hl List.not_mem_nil
      sized := by rw [hall]; exact fun l hl => absurd hl List.not_mem_nil
      dirty := by rw [h.dirty]; exact List.nodup_nil
      alternate := .inl h.closing
      cached := fun p d hd => by
        obtain ⟨himage, hlen⟩ := h.cached p d hd
        exact ⟨.inl (by rw [hnow, himage]), hlen⟩
      writing := fun p d hd => by
        rw [h.writing] at hd
        cases hd
      absent := fun p _ => by rw [hall]; rfl
      beyond := fun p hp => by
        rw [hnow]
        exact h.beyond p (h.pendingPageCount ▸ hp)
      counts := by rw [h.counts, h.logs]; rfl
      countsBeyond := by
        intro k n hk p hp
        rw [h.counts] at hk
        obtain ⟨hlt, rfl⟩ := List.getElem?_eq_some_iff.mp hk
        simp only [List.length_singleton, Nat.lt_one_iff] at hlt
        subst hlt
        exact h.beyond p hp
      lastCount := fun _ => by rw [h.counts, h.logs]; rfl
      closingCount := fun hne => absurd h.closing hne }

theorem Start.inv (h : Start c start s) : Inv c start s.manifest.pageSize s := by
  refine ⟨h.writerInv, .inl ⟨h.stored, h.wellKeyed, congrArg Manifest.version h.published,
    fun _ => by rw [h.published], ?_⟩⟩
  refine ⟨0, [], [], ⟨?_, ?_, ⟨?_, ?_⟩, ⟨?_, ?_⟩, ?_, ?_⟩⟩
  · rw [h.counts, h.published]; rfl
  · intro p hp
    rw [h.published] at hp ⊢
    exact h.reads p hp
  · rw [h.phase]; rfl
  · exact fun l hl => absurd hl List.not_mem_nil
  · rw [h.pending]; rfl
  · exact fun l hl => absurd hl List.not_mem_nil
  · rw [h.logs]; exact List.Perm.refl _
  · intro fs gs snap copied hph
    rw [h.phase] at hph
    cases hph

/-! ### The writer's steps -/

theorem allLogs_of_notClosing (h : s.closing = none) : s.allLogs = s.logs ++ s.writer.toList := by
  rw [State.allLogs, h, Option.toList_none, List.append_nil]

theorem allLogs_logPage (h : s.closing = none) (p : Nat) (data : Bytes) :
    (s.logPage p data).allLogs = s.logs ++ [s.openLog.append p data] :=
  allLogs_of_notClosing (s := s.logPage p data) h

/-- The log a page goes to has a version above the finalized ones and below the next one. -/
theorem WriterInv.openLog (h : WriterInv start ps s) (hcl : s.closing = none) (p : Nat)
    (data : Bytes) : (∀ l ∈ s.logs, l.version < s.openLog.version) ∧
      s.openLog.version < (s.logPage p data).stagingSeq ∧ s.openLog.pageSize = ps ∧
      ∀ r ∈ s.openLog.records, r.2.length = ps := by
  have hall := allLogs_of_notClosing hcl
  unfold State.openLog
  simp only [State.logPage]
  cases hw : s.writer with
  | none =>
    refine ⟨fun l hl => h.fresh l ?_, ?_, h.pageSize, fun r hr => absurd hr List.not_mem_nil⟩
    · rw [hall]
      exact List.mem_append_left _ hl
    · rw [if_pos rfl]
      exact Nat.lt_succ_self _
  | some log =>
    have hlog : log ∈ s.allLogs := by
      rw [hall, hw]
      exact List.mem_append_right _ (List.mem_singleton_self log)
    have hsort := h.sorted
    rw [hall, hw] at hsort
    refine ⟨fun l hl => (List.pairwise_append.mp hsort).2.2 l hl log
      (List.mem_singleton_self log), ?_, h.sized log hlog⟩
    rw [if_neg (by simp)]
    exact h.fresh log hlog

/-- What a write does to the images of the logs. -/
theorem lastImage_logPage (h : WriterInv start ps s) (hcl : s.closing = none) (p : Nat)
    (data : Bytes) (q : Nat) :
    lastImage (s.logPage p data).allLogs q =
      if q = p then some data else lastImage s.allLogs q := by
  have hvalid : Manifest.isValidPageSize s.openLog.pageSize = true := by
    rw [(h.openLog hcl p data).2.2.1]
    exact h.valid
  rw [allLogs_logPage hcl, lastImage_append, StagingLog.lookup_read_append hvalid,
    allLogs_of_notClosing hcl]
  split
  · exact Option.some_or
  · unfold State.openLog
    cases s.writer with
    | none =>
      have hempty : (StagingLog.read
          { version := s.stagingSeq, pageSize := s.manifest.pageSize }).lookup q = none := by
        unfold StagingLog.read
        split <;> rfl
      rw [Option.getD_none, hempty, Option.none_or, Option.toList_none, List.append_nil]
    | some log => rw [Option.getD_some, Option.toList_some, lastImage_append]

theorem WriterInv.cachePage (h : WriterInv start ps s) {p : Nat} {data : Bytes}
    (hcl : s.closing = none) (hwr : s.writing = none) (hlen : data.length = s.manifest.pageSize) :
    WriterInv start ps (s.cachePage p data) where
  pageSize := h.pageSize
  valid := h.valid
  sorted := h.sorted
  fresh := h.fresh
  sized := h.sized
  dirty := h.dirty
  alternate := h.alternate
  cached q d hd := by
    by_cases hqp : q = p
    · subst hqp
      change Function.update s.cache q (some data) q = some d at hd
      rw [Function.update_self] at hd
      cases hd
      exact ⟨.inr rfl, hlen.trans h.pageSize⟩
    · obtain ⟨himage | hwriting, hlen⟩ := h.cached q d ((Function.update_of_ne hqp ..).symm.trans hd)
      · exact ⟨.inl himage, hlen⟩
      · rw [hwr] at hwriting
        cases hwriting
  writing q d hd := by
    cases hd
    exact ⟨Function.update_self .., hcl⟩
  absent q hq := by
    by_cases hqp : q = p
    · subst hqp
      change Function.update s.cache q (some data) q = none at hq
      rw [Function.update_self] at hq
      cases hq
    · exact h.absent q ((Function.update_of_ne hqp ..).symm.trans hq)
  beyond := h.beyond
  counts := h.counts
  countsBeyond := h.countsBeyond
  lastCount := h.lastCount
  closingCount := h.closingCount

theorem WriterInv.logPage (h : WriterInv start ps s) {p : Nat} {data : Bytes}
    (hwr : s.writing = some (p, data)) : WriterInv start ps (s.logPage p data) := by
  obtain ⟨hcache, hcl⟩ := h.writing p data hwr
  have hlen : data.length = ps := (h.cached p data hcache).2
  have hall := allLogs_of_notClosing hcl
  have hlogs : ∀ l ∈ s.logs, l ∈ s.allLogs := fun l hl => by
    rw [hall]
    exact List.mem_append_left _ hl
  obtain ⟨hlt, hseq, hps, hrec⟩ := h.openLog hcl p data
  -- no other page has a new image
  have hsame : ∀ q, q ≠ p → (s.logPage p data).imageNow start q = s.imageNow start q := by
    intro q hq
    rw [State.imageNow, lastImage_logPage h hcl, if_neg hq]
    rfl
  refine
    { pageSize := h.pageSize
      valid := h.valid
      sorted := ?_
      fresh := ?_
      sized := ?_
      dirty := ?_
      alternate := .inl hcl
      cached := ?_
      writing := fun q d hd => by cases hd
      absent := ?_
      beyond := ?_
      counts := h.counts
      countsBeyond := h.countsBeyond
      lastCount := h.lastCount
      closingCount := fun hne => absurd hcl hne }
  · -- the open log is the newest one
    rw [allLogs_logPage hcl]
    have hsort := h.sorted
    rw [hall] at hsort
    refine List.pairwise_append.mpr ⟨(List.pairwise_append.mp hsort).1, List.pairwise_singleton .., ?_⟩
    intro l hl x hx
    rw [List.mem_singleton.mp hx]
    exact hlt l hl
  · rw [allLogs_logPage hcl]
    intro l hl
    rcases List.mem_append.mp hl with hl | hl
    · exact (hlt l hl).trans hseq
    · rw [List.mem_singleton.mp hl]
      exact hseq
  · rw [allLogs_logPage hcl]
    intro l hl
    rcases List.mem_append.mp hl with hl | hl
    · exact h.sized l (hlogs l hl)
    · rw [List.mem_singleton.mp hl]
      refine ⟨hps, fun r hr => ?_⟩
      rcases List.mem_append.mp hr with hr | hr
      · exact hrec r hr
      · rw [List.mem_singleton.mp hr]
        exact hlen
  · show (if p ∈ s.dirty then s.dirty else s.dirty ++ [p]).Nodup
    split
    · exact h.dirty
    · rename_i hp
      exact List.Nodup.append h.dirty (List.nodup_singleton p) (by simpa using hp)
  · -- the page itself is logged as it is cached, and a page being written is this one
    intro q d hq
    obtain ⟨himage, hlenq⟩ := h.cached q d hq
    refine ⟨.inl ?_, hlenq⟩
    by_cases hqp : q = p
    · subst hqp
      obtain rfl : data = d := Option.some.inj (hcache.symm.trans hq)
      rw [State.imageNow, lastImage_logPage h hcl, if_pos rfl]
      rfl
    · rw [hsame q hqp]
      rcases himage with himage | hwriting
      · exact himage
      · rw [hwr] at hwriting
        cases hwriting
        exact absurd rfl hqp
  · intro q hq
    by_cases hqp : q = p
    · subst hqp
      cases hcache.symm.trans hq
    · rw [lastImage_logPage h hcl, if_neg hqp]
      exact h.absent q hq
  · intro q hq
    change max s.pendingPageCount (p + 1) ≤ q at hq
    rw [hsame q (by omega)]
    exact h.beyond q (by omega)

theorem inv_write (h : Inv c start ps s) {p : Nat} {data : Bytes}
    (hs : step c s (.write p data) = some s') : Inv c start ps s' := by
  simp only [step] at hs
  split at hs
  · rename_i hg
    cases hs
    refine ⟨h.writer.cachePage hg.1 hg.2.1 hg.2.2, h.flush.imp (fun hcur => ?_) fun hbehind => ?_⟩
    · obtain ⟨k, tk, pd, hq⟩ := hcur.queue
      exact ⟨hcur.stored, hcur.wellKeyed, hcur.version, hcur.same, k, tk, pd,
        hq.count, hq.reads, hq.taken, hq.pending, hq.rest, hq.reading⟩
    · exact ⟨hbehind.boundary, hbehind.stored, hbehind.version, hbehind.reading⟩
  · cases hs

theorem inv_append (h : Inv c start ps s) (hs : step c s .append = some s') : Inv c start ps s' := by
  obtain ⟨⟨p, data⟩, hwr, rfl⟩ := Option.map_eq_some_iff.mp hs
  refine ⟨h.writer.logPage hwr, h.flush.imp (fun hcur => ?_) fun hbehind => ?_⟩
  · obtain ⟨k, tk, pd, hq⟩ := hcur.queue
    exact ⟨hcur.stored, hcur.wellKeyed, hcur.version, hcur.same, k, tk, pd,
      hq.count, hq.reads, hq.taken, hq.pending, hq.rest, hq.reading⟩
  · exact ⟨hbehind.boundary, hbehind.stored, hbehind.version, hbehind.reading⟩

theorem WriterInv.notClosing (h : WriterInv start ps s) {log : StagingLog}
    (hw : s.writer = some log) : s.closing = none := by
  rcases h.alternate with hcl | hno
  · exact hcl
  · rw [hw] at hno
    cases hno

/-- The open log becomes the closing one: the same logs in the same order. -/
theorem allLogs_storeCheckpoint {log : StagingLog} (hcl : s.closing = none)
    (hw : s.writer = some log) (ppg : Nat) : (s.storeCheckpoint ppg log).allLogs = s.allLogs := by
  rw [State.allLogs, State.allLogs, hcl, hw]
  simp [State.storeCheckpoint]

theorem WriterInv.storeCheckpoint (h : WriterInv start ps s) {log : StagingLog}
    (hw : s.writer = some log) (hwr : s.writing = none) {ppg : Nat}
    (hcount : (s.manifest.localCheckpoint s.dirty ppg).pageCount = s.pendingPageCount) :
    WriterInv start ps (s.storeCheckpoint ppg log) := by
  have hall := allLogs_storeCheckpoint (h.notClosing hw) hw ppg
  have hnow : ∀ p, (s.storeCheckpoint ppg log).imageNow start p = s.imageNow start p := by
    intro p
    rw [State.imageNow, State.imageNow, hall]
  obtain ⟨n, gps, idx, hm⟩ := s.manifest.localCheckpoint_eq s.dirty ppg
  exact
    { pageSize := (congrArg Manifest.pageSize hm).trans h.pageSize
      valid := h.valid
      sorted := by rw [hall]; exact h.sorted
      fresh := by rw [hall]; exact h.fresh
      sized := by rw [hall]; exact h.sized
      dirty := List.nodup_nil
      alternate := .inr rfl
      cached := fun p d hd => by
        rw [hnow]
        exact h.cached p d hd
      writing := fun p d hd => by
        change s.writing = some (p, d) at hd
        rw [hwr] at hd
        cases hd
      absent := fun p hp => by
        rw [hall]
        exact h.absent p hp
      beyond := fun p hp => by
        rw [hnow]
        exact h.beyond p hp
      counts := h.counts
      countsBeyond := h.countsBeyond
      lastCount := fun hn => by cases hn
      closingCount := fun _ => hcount }

theorem inv_beginCheckpoint (h : Inv c start ps s) (hsafe : Safe c s .beginCheckpoint)
    (hs : step c s .beginCheckpoint = some s') : Inv c start ps s' := by
  obtain ⟨hcount, hkeep⟩ := hsafe
  simp only [step] at hs
  split at hs
  · cases hs
  · cases hs
  · rename_i log hwr hw
    split at hs
    · cases hs
      obtain ⟨n, gps, idx, hm⟩ := s.manifest.localCheckpoint_eq s.dirty c.pagesPerGroup
      have hversion : (s.manifest.localCheckpoint s.dirty c.pagesPerGroup).version = s.manifest.version := by
        rw [hm]
      refine ⟨h.writer.storeCheckpoint hw hwr hcount, h.flush.imp (fun hcur => ?_) fun hbehind => ?_⟩
      · obtain ⟨ct, hst⟩ := hcur.stored
        obtain ⟨k, tk, pd, hq⟩ := hcur.queue
        refine ⟨⟨ct, hst.localCheckpoint h.writer.dirty c.pagesPerGroup⟩, ?_,
          hcur.version.trans hversion.symm, ?_, k, tk, pd,
          hq.count, hq.reads, hq.taken, hq.pending, hq.rest, ?_⟩
        · show WellKeyed (s.manifest.localCheckpoint s.dirty c.pagesPerGroup)
          rw [hm]
          exact ⟨hcur.wellKeyed.injective, hcur.wellKeyed.version⟩
        · show SameKeys s.published (s.manifest.localCheckpoint s.dirty c.pagesPerGroup)
          rw [hm]
          exact hcur.same
        · intro fs gs snap copied hph
          show ∃ t, _ ∧ _ ∧ _ ∧ snap = s.manifest.localCheckpoint s.dirty c.pagesPerGroup ∧ _
          rw [Manifest.localCheckpoint_of_assigned (hkeep ⟨fs, gs, snap, copied, hph⟩)]
          exact hq.reading fs gs snap copied hph
      · exact ⟨hbehind.boundary, hbehind.stored, hversion ▸ hbehind.version, hbehind.reading⟩
    · cases hs

theorem boundaryImage_append {logs : List StagingLog} {k : Nat} (hk : k ≤ logs.length)
    (log : StagingLog) (p : Nat) :
    boundaryImage start (logs ++ [log]) k p = boundaryImage start logs k p := by
  rw [boundaryImage, boundaryImage, List.take_append_of_le_length hk]

/-- The image at the new boundary is the writer's database. -/
theorem boundaryImage_queueLog {log : StagingLog} (hcl : s.closing = some log)
    (hw : s.writer = none) (p : Nat) :
    boundaryImage start (s.queueLog log).logs (s.logs.length + 1) p = s.imageNow start p := by
  have hread : (log.appendManifest s.manifest).read = log.read := rfl
  rw [boundaryImage, State.imageNow, State.allLogs, hcl, hw]
  show ((lastImage ((s.logs ++ [log.appendManifest s.manifest]).take (s.logs.length + 1)) p).getD
    (start p)) = _
  rw [List.take_of_length_le (by simp), lastImage_append, hread]
  simp [lastImage_append]

theorem allLogs_queueLog (log : StagingLog) (hw : s.writer = none) :
    (s.queueLog log).allLogs = s.logs ++ [log.appendManifest s.manifest] := by
  simp [State.allLogs, State.queueLog, hw]

theorem WriterInv.queueLog (h : WriterInv start ps s) {log : StagingLog}
    (hcl : s.closing = some log) : WriterInv start ps (s.queueLog log) := by
  have hw : s.writer = none := by
    rcases h.alternate with hn | hw
    · rw [hcl] at hn
      cases hn
    · exact hw
  have hall := allLogs_queueLog log hw
  have hold : s.allLogs = s.logs ++ [log] := by simp [State.allLogs, hcl, hw]
  -- the trailer changes neither the version nor the pages of the log
  have hmap : ∀ {P : StagingLog → Prop}, (P log → P (log.appendManifest s.manifest)) →
      (∀ l ∈ s.allLogs, P l) → ∀ l ∈ (s.queueLog log).allLogs, P l := by
    intro P hP hl l hmem
    rw [hall] at hmem
    rw [hold] at hl
    rcases List.mem_append.mp hmem with hmem | hmem
    · exact hl l (List.mem_append_left _ hmem)
    · rw [List.mem_singleton.mp hmem]
      exact hP (hl log (List.mem_append_right _ (List.mem_singleton_self log)))
  have hlast : ∀ p, lastImage (s.queueLog log).allLogs p = lastImage s.allLogs p := by
    intro p
    rw [hall, hold, lastImage_append, lastImage_append]
    rfl
  have hnow : ∀ p, (s.queueLog log).imageNow start p = s.imageNow start p := by
    intro p
    rw [State.imageNow, State.imageNow, hlast]
  refine
    { pageSize := h.pageSize
      valid := h.valid
      sorted := ?_
      fresh := hmap (fun hv => hv) h.fresh
      sized := hmap (fun hv => hv) h.sized
      dirty := h.dirty
      alternate := .inl rfl
      cached := fun p d hd => by
        rw [hnow]
        exact h.cached p d hd
      writing := fun p d hd => ⟨(h.writing p d hd).1, rfl⟩
      absent := fun p hp => by
        rw [hlast]
        exact h.absent p hp
      beyond := fun p hp => by
        rw [hnow]
        exact h.beyond p hp
      counts := by simp [State.queueLog, h.counts]
      countsBeyond := ?_
      lastCount := fun _ => ?_
      closingCount := fun hne => absurd rfl hne }
  · rw [hall]
    have hsort := h.sorted
    rw [hold] at hsort
    obtain ⟨h1, -, h2⟩ := List.pairwise_append.mp hsort
    refine List.pairwise_append.mpr ⟨h1, List.pairwise_singleton .., fun l hl x hx => ?_⟩
    rw [List.mem_singleton.mp hx]
    exact h2 l hl log (List.mem_singleton_self log)
  · intro k n hk p hp
    change (s.counts ++ [s.pendingPageCount])[k]? = some n at hk
    rcases Nat.lt_or_ge k s.counts.length with hlt | hge
    · rw [List.getElem?_append_left hlt] at hk
      have hle : k ≤ s.logs.length := by
        have := h.counts
        omega
      exact (boundaryImage_append hle _ p).trans (h.countsBeyond k n hk p hp)
    · have hlen := (List.getElem?_eq_some_iff.mp hk).1
      rw [List.length_append, List.length_singleton] at hlen
      obtain rfl : k = s.counts.length := by omega
      rw [List.getElem?_concat_length] at hk
      cases hk
      rw [h.counts, boundaryImage_queueLog hcl hw]
      exact h.beyond p hp
  · show (s.counts ++ [s.pendingPageCount])[(s.logs ++ [log.appendManifest s.manifest]).length]? =
      some s.manifest.pageCount
    rw [List.length_append, List.length_singleton, ← h.counts, List.getElem?_concat_length,
      h.closingCount (by rw [hcl]; simp)]

theorem Resolves.append {dir : StagingDir} {fs gs : List PendingFlush} {ls ms : List StagingLog}
    (h : Resolves dir fs ls) (h' : Resolves dir gs ms) : Resolves dir (fs ++ gs) (ls ++ ms) := by
  refine ⟨by rw [List.map_append, List.map_append, h.1, h'.1], fun l hl => ?_⟩
  rcases List.mem_append.mp hl with hl | hl
  · exact h.2 l hl
  · exact h'.2 l hl

theorem Resolves.congr {dir dir' : StagingDir} {fs : List PendingFlush} {ls : List StagingLog}
    (h : Resolves dir fs ls) (hd : ∀ l ∈ ls, dir'.lookup l.version = dir.lookup l.version) :
    Resolves dir' fs ls :=
  ⟨h.1, fun l hl => (hd l hl).trans (h.2 l hl)⟩

theorem QueueInv.mem_logs {k : Nat} {tk pd : List StagingLog} (h : QueueInv c start ps s k tk pd)
    {l : StagingLog} (hl : l ∈ tk ∨ l ∈ pd) : l ∈ s.logs :=
  List.mem_of_mem_drop (h.rest.mem_iff.mp (List.mem_append.mpr hl))

theorem QueueInv.le {k : Nat} {tk pd : List StagingLog} (h : QueueInv c start ps s k tk pd)
    (hw : WriterInv start ps s) : k ≤ s.logs.length := by
  have hlt := (List.getElem?_eq_some_iff.mp h.count).1
  have := hw.counts
  omega

theorem QueueInv.queueLog {k : Nat} {tk pd : List StagingLog} (h : QueueInv c start ps s k tk pd)
    (hw : WriterInv start ps s) {log : StagingLog} (hcl : s.closing = some log) :
    QueueInv c start ps (s.queueLog log) k tk (pd ++ [log.appendManifest s.manifest]) := by
  have hk := h.le hw
  have hcounts : ∀ {j n : Nat}, s.counts[j]? = some n → (s.queueLog log).counts[j]? = some n := by
    intro j n hj
    show (s.counts ++ [s.pendingPageCount])[j]? = some n
    rw [List.getElem?_append_left (List.getElem?_eq_some_iff.mp hj).1]
    exact hj
  -- the new log has a version of its own
  have hver : ∀ l ∈ s.logs, l.version ≠ log.version := by
    intro l hl
    have hsort := hw.sorted
    rw [State.allLogs, hcl, List.append_assoc] at hsort
    exact Nat.ne_of_lt ((List.pairwise_append.mp hsort).2.2 l hl log (by simp))
  have hdir : ∀ l ∈ s.logs,
      (s.queueLog log).dir.lookup l.version = s.dir.lookup l.version :=
    fun l hl => AList.lookup_insert_ne (hver l hl)
  exact
    { count := hcounts h.count
      reads := fun p hp => (h.reads p hp).trans
        (congrArg Except.ok (boundaryImage_append hk _ p).symm)
      taken := h.taken.congr fun l hl => hdir l (h.mem_logs (.inl hl))
      pending := by
        refine Resolves.append (h.pending.congr fun l hl => hdir l (h.mem_logs (.inr hl)))
          ⟨rfl, fun l hl => ?_⟩
        rw [List.mem_singleton.mp hl]
        exact AList.lookup_insert ..
      rest := by
        show (tk ++ (pd ++ [log.appendManifest s.manifest])).Perm
          ((s.logs ++ [log.appendManifest s.manifest]).drop k)
        rw [List.drop_append_of_le_length hk, ← List.append_assoc]
        exact h.rest.append_right _
      reading := by
        intro fs gs snap copied hph
        obtain ⟨t, hkt, ht, hperm, hsnap, hct, hcop⟩ := h.reading fs gs snap copied hph
        refine ⟨t, hkt, ?_, ?_, hsnap, hcounts hct, fun p d hd => ⟨(hcop p d hd).1, fun hn => ?_⟩⟩
        · show t ≤ (s.logs ++ [log.appendManifest s.manifest]).length
          rw [List.length_append]
          omega
        · show tk.Perm (((s.logs ++ [log.appendManifest s.manifest]).take t).drop k)
          rw [List.take_append_of_le_length ht]
          exact hperm
        · exact ((hcop p d hd).2 hn).trans (boundaryImage_append ht _ p).symm }

theorem Behind.queueLog (h : Behind c start s) (hw : WriterInv start ps s) (log : StagingLog) :
    Behind c start (s.queueLog log) := by
  obtain ⟨k, hk, hreads⟩ := h.boundary
  have hlt := (List.getElem?_eq_some_iff.mp hk).1
  have hle : k ≤ s.logs.length := by
    have := hw.counts
    omega
  refine ⟨⟨k, ?_, fun p hp => (hreads p hp).trans ?_⟩, h.stored, h.version, h.reading⟩
  · show (s.counts ++ [s.pendingPageCount])[k]? = _
    rw [List.getElem?_append_left hlt]
    exact hk
  · exact congrArg Except.ok (boundaryImage_append hle _ p).symm

theorem inv_endCheckpoint (h : Inv c start ps s) (hs : step c s .endCheckpoint = some s') :
    Inv c start ps s' := by
  obtain ⟨log, hcl, rfl⟩ := Option.map_eq_some_iff.mp hs
  refine ⟨h.writer.queueLog hcl, h.flush.imp (fun hcur => ?_) fun hbehind => hbehind.queueLog h.writer log⟩
  obtain ⟨k, tk, pd, hq⟩ := hcur.queue
  exact ⟨hcur.stored, hcur.wellKeyed, hcur.version, hcur.same, k, tk, _, hq.queueLog h.writer hcl⟩

/-! ### The flush's steps -/

/-- A step of the flush that touches neither the writer nor the store. -/
theorem WriterInv.congr (h : WriterInv start ps s) (hm : s'.manifest.pageSize = s.manifest.pageSize)
    (hpc : s'.manifest.pageCount = s.manifest.pageCount) (hc : s'.cache = s.cache)
    (hwr : s'.writing = s.writing) (hseq : s'.stagingSeq = s.stagingSeq) (hw : s'.writer = s.writer) (hd : s'.dirty = s.dirty)
    (hn : s'.pendingPageCount = s.pendingPageCount) (hcl : s'.closing = s.closing)
    (hl : s'.logs = s.logs) (hk : s'.counts = s.counts) : WriterInv start ps s' := by
  have hall : s'.allLogs = s.allLogs := by rw [State.allLogs, State.allLogs, hl, hcl, hw]
  have hnow : ∀ p, s'.imageNow start p = s.imageNow start p := by
    intro p
    rw [State.imageNow, State.imageNow, hall]
  exact
    { pageSize := hm.trans h.pageSize
      valid := h.valid
      sorted := hall ▸ h.sorted
      fresh := by rw [hall, hseq]; exact h.fresh
      sized := hall ▸ h.sized
      dirty := hd ▸ h.dirty
      alternate := by rw [hcl, hw]; exact h.alternate
      cached := fun p d hp => by rw [hnow, hwr]; exact h.cached p d (hc ▸ hp)
      writing := fun p d hp => by rw [hc, hcl]; exact h.writing p d (hwr ▸ hp)
      absent := fun p hp => by rw [hall]; exact h.absent p (hc ▸ hp)
      beyond := fun p hp => by rw [hnow]; exact h.beyond p (hn ▸ hp)
      counts := by rw [hk, hl]; exact h.counts
      countsBeyond := by rw [hk, hl]; exact h.countsBeyond
      lastCount := by rw [hcl, hk, hl, hpc]; exact h.lastCount
      closingCount := by rw [hcl, hpc, hn]; exact h.closingCount }

/-- A step that leaves the writer and the shared manifest alone. -/
theorem WriterInv.same (h : WriterInv start ps s) {published : Manifest} {backend : Backend}
    {dir : StagingDir} {pending : List PendingFlush} {dirtyGroups : List Nat} {phase : Phase} :
    WriterInv start ps { s with
      published := published, backend := backend, dir := dir, pending := pending
      dirtyGroups := dirtyGroups, phase := phase } :=
  h.congr rfl rfl rfl rfl rfl rfl rfl rfl rfl rfl rfl

theorem inv_takeLogs (h : Inv c start ps s) (hs : step c s .takeLogs = some s') :
    Inv c start ps s' := by
  simp only [step] at hs
  split at hs
  · rename_i hph
    cases hs
    refine ⟨h.writer.same, h.flush.imp (fun hcur => ?_) fun hbehind => ?_⟩
    · obtain ⟨k, tk, pd, hq⟩ := hcur.queue
      have htk : tk = [] := by
        have hv := hq.taken.1
        rw [hph] at hv
        exact List.map_eq_nil_iff.mp hv.symm
      subst htk
      refine ⟨hcur.stored, hcur.wellKeyed, hcur.version, hcur.same, k, pd, [],
        hq.count, hq.reads, hq.pending, ⟨rfl, fun l hl => absurd hl List.not_mem_nil⟩, ?_, ?_⟩
      · rw [List.append_nil]
        exact hq.rest
      · intro fs gs snap copied hph'
        cases hph'
    · exact ⟨hbehind.boundary, hbehind.stored, hbehind.version, fun _ _ _ _ hph' => by cases hph'⟩
  · cases hs

theorem inv_takeGroups (h : Inv c start ps s) (hs : step c s .takeGroups = some s') :
    Inv c start ps s' := by
  simp only [step] at hs
  split at hs
  · rename_i fs hph
    split at hs
    · rename_i hnil
      cases hs
      refine ⟨h.writer.same, h.flush.imp (fun hcur => ?_) fun hbehind => ?_⟩
      · obtain ⟨k, tk, pd, hq⟩ := hcur.queue
        have htaken := hq.taken
        rw [hph] at htaken
        refine ⟨hcur.stored, hcur.wellKeyed, hcur.version, hcur.same, k, tk, pd,
          hq.count, hq.reads, ?_, hq.pending, hq.rest, ?_⟩
        · rw [hnil.1] at htaken
          exact htaken
        · intro fs gs snap copied hph'
          cases hph'
      · exact ⟨hbehind.boundary, hbehind.stored, hbehind.version, fun _ _ _ _ hph' => by cases hph'⟩
    · cases hs
      refine ⟨h.writer.same, h.flush.imp (fun hcur => ?_) fun hbehind => ?_⟩
      · obtain ⟨k, tk, pd, hq⟩ := hcur.queue
        have htaken := hq.taken
        rw [hph] at htaken
        refine ⟨hcur.stored, hcur.wellKeyed, hcur.version, hcur.same, k, tk, pd,
          hq.count, hq.reads, htaken, hq.pending, hq.rest, ?_⟩
        intro fs gs snap copied hph'
        cases hph'
      · exact ⟨hbehind.boundary, hbehind.stored, hbehind.version, fun _ _ _ _ hph' => by cases hph'⟩
  · cases hs

theorem inv_snapshot (h : Inv c start ps s) (hsafe : Safe c s .snapshot)
    (hs : step c s .snapshot = some s') : Inv c start ps s' := by
  obtain ⟨hpend, hcl⟩ := hsafe
  simp only [step] at hs
  split at hs
  · rename_i fs gs hph
    cases hs
    refine ⟨h.writer.same, h.flush.imp (fun hcur => ?_) fun hbehind => ?_⟩
    · obtain ⟨k, tk, pd, hq⟩ := hcur.queue
      have htaken := hq.taken
      rw [hph] at htaken
      have hpd : pd = [] := by
        have hv := hq.pending.1
        rw [hpend] at hv
        exact List.map_eq_nil_iff.mp hv.symm
      refine ⟨hcur.stored, hcur.wellKeyed, hcur.version, hcur.same, k, tk, pd,
        hq.count, hq.reads, htaken, hq.pending, hq.rest, ?_⟩
      intro fs' gs' snap copied hph'
      cases hph'
      refine ⟨s.logs.length, hq.le h.writer, Nat.le_refl _, ?_, rfl, h.writer.lastCount hcl, ?_⟩
      · have hrest := hq.rest
        rw [hpd, List.append_nil] at hrest
        show tk.Perm ((s.logs.take s.logs.length).drop k)
        rw [List.take_length]
        exact hrest
      · intro p d hd
        cases hd
    · refine ⟨hbehind.boundary, hbehind.stored, hbehind.version, fun fs' gs' snap copied hph' => ?_⟩
      cases hph'
      exact hbehind.version
  · cases hs

theorem lastImage_perm_eq_none {xs ys : List StagingLog} (h : xs.Perm ys) {p : Nat} :
    lastImage xs p = none ↔ lastImage ys p = none := by
  rw [lastImage_eq_none, lastImage_eq_none]
  exact ⟨fun hx l hl => hx l (h.mem_iff.mpr hl), fun hy l hl => hy l (h.mem_iff.mp hl)⟩

/-- The logs after boundary `k` are those up to `t` and those after `t`. -/
theorem drop_split (logs : List StagingLog) {k t : Nat} (hkt : k ≤ t) (ht : t ≤ logs.length) :
    logs.drop k = (logs.take t).drop k ++ logs.drop t := by
  have hlen : k ≤ (logs.take t).length := by
    rw [List.length_take]
    omega
  conv_lhs => rw [← List.take_append_drop t logs]
  exact List.drop_append_of_le_length hlen

theorem take_split (logs : List StagingLog) {k t : Nat} (hkt : k ≤ t) :
    logs.take t = logs.take k ++ (logs.take t).drop k := by
  conv_lhs => rw [← List.take_append_drop k (logs.take t)]
  rw [List.take_take, Nat.min_eq_left hkt]

/-- The logs queued while a flush works from a snapshot are those after its boundary. -/
theorem QueueInv.pending_perm {k t : Nat} {tk pd : List StagingLog}
    (h : QueueInv c start ps s k tk pd) (hkt : k ≤ t) (ht : t ≤ s.logs.length)
    (hperm : tk.Perm ((s.logs.take t).drop k)) : pd.Perm (s.logs.drop t) := by
  have hrest := h.rest
  rw [drop_split s.logs hkt ht] at hrest
  exact (List.perm_append_left_iff _).mp ((hperm.symm.append_right pd).trans hrest)

/-- What a safe read of the cache finds. -/
theorem QueueInv.copied_eq {k t : Nat} {tk pd : List StagingLog}
    (h : QueueInv c start ps s k tk pd) (hw : WriterInv start ps s) (hkt : k ≤ t)
    (ht : t ≤ s.logs.length) (hperm : tk.Perm ((s.logs.take t).drop k)) {p : Nat} {d : Bytes}
    (hsafe : Safe c s (.copy p)) (hd : s.cache p = some d) (hn : lastImage tk p = none) :
    d = boundaryImage start s.logs t p := by
  rcases hsafe with ⟨f, hf, log, hlog, hp⟩ | ⟨hwriting, hlater⟩
  · -- the page is staged
    exfalso
    have hv : f.version ∈ tk.map (·.version) := by
      rw [← h.taken.1]
      exact List.mem_map_of_mem hf
    obtain ⟨l, hl, hlv⟩ := List.mem_map.mp hv
    have hdir := h.taken.2 l hl
    rw [hlv, hlog] at hdir
    cases hdir
    have hnone := lastImage_eq_none.mp hn log hl
    rw [AList.lookup_eq_none] at hnone
    exact hnone hp
  · have hpd := h.pending_perm hkt ht hperm
    have hnone : ∀ l, (s.writer = some l ∨ s.closing = some l ∨ l ∈ s.logs.drop t) →
        l.read.lookup p = none := by
      intro l hl
      rw [AList.lookup_eq_none]
      rcases hl with hl | hl | hl
      · exact hlater l (.inl hl)
      · exact hlater l (.inr (.inl hl))
      · have hmem := hpd.mem_iff.mpr hl
        have hv : l.version ∈ s.pending.map (·.version) := by
          rw [h.pending.1]
          exact List.mem_map_of_mem hmem
        obtain ⟨f, hf, hfv⟩ := List.mem_map.mp hv
        refine hlater l (.inr (.inr ⟨f, hf, ?_⟩))
        rw [hfv]
        exact h.pending.2 l hmem
    have hafter : lastImage (s.logs.drop t ++ s.closing.toList ++ s.writer.toList) p = none := by
      rw [lastImage_eq_none]
      intro l hl
      simp only [List.mem_append, Option.mem_toList] at hl
      rcases hl with (hl | hl) | hl
      · exact hnone l (.inr (.inr hl))
      · exact hnone l (.inr (.inl hl))
      · exact hnone l (.inl hl)
    have hall : s.allLogs =
        s.logs.take t ++ (s.logs.drop t ++ s.closing.toList ++ s.writer.toList) := by
      rw [State.allLogs]
      conv_lhs => rw [← List.take_append_drop t s.logs]
      simp only [List.append_assoc]
    have himage : d = s.imageNow start p := by
      refine (hw.cached p d hd).1.resolve_right fun hnow => hwriting ?_
      rw [hnow]
      rfl
    rw [himage, State.imageNow, hall, lastImage_append_list, hafter, Option.none_or, boundaryImage]

theorem inv_copy (h : Inv c start ps s) {p : Nat} (hsafe : Safe c s (.copy p))
    (hs : step c s (.copy p) = some s') : Inv c start ps s' := by
  simp only [step] at hs
  split at hs
  · rename_i fs gs snap copied hph
    split at hs
    · cases hs
      refine ⟨h.writer.same, h.flush.imp (fun hcur => ?_) fun hbehind => ?_⟩
      · obtain ⟨k, tk, pd, hq⟩ := hcur.queue
        have htaken := hq.taken
        rw [hph] at htaken
        refine ⟨hcur.stored, hcur.wellKeyed, hcur.version, hcur.same, k, tk, pd,
          hq.count, hq.reads, htaken, hq.pending, hq.rest, ?_⟩
        intro fs' gs' snap' copied' hph'
        cases hph'
        obtain ⟨t, hkt, ht, hperm, hsnap, hct, hcop⟩ := hq.reading fs gs snap copied hph
        refine ⟨t, hkt, ht, hperm, hsnap, hct, fun q d hd => ?_⟩
        by_cases hqp : q = p
        · subst hqp
          rw [AList.lookup_insert] at hd
          have hcache := Option.some.inj hd
          exact ⟨(h.writer.cached q d hcache).2,
            hq.copied_eq h.writer hkt ht hperm hsafe hcache⟩
        · rw [AList.lookup_insert_ne hqp] at hd
          exact hcop q d hd
      · refine ⟨hbehind.boundary, hbehind.stored, hbehind.version, fun fs' gs' snap' copied' hph' => ?_⟩
        cases hph'
        exact hbehind.reading fs gs snap copied hph
    · cases hs
  · cases hs

/-- The queues are restored. -/
theorem QueueInv.restore {k : Nat} {tk pd : List StagingLog} (hq : QueueInv c start ps s k tk pd)
    (gs : List Nat) : QueueInv c start ps { s with
      pending := s.pending ++ s.phase.taken, dirtyGroups := gs, phase := .idle } k [] (pd ++ tk) := by
  refine ⟨hq.count, hq.reads, ⟨rfl, fun l hl => absurd hl List.not_mem_nil⟩,
    hq.pending.append hq.taken, ?_, fun fs gs snap copied hph => by cases hph⟩
  rw [List.nil_append]
  exact List.perm_append_comm.trans hq.rest

theorem Inv.restore (h : Inv c start ps s) (gs : List Nat) : Inv c start ps { s with
    pending := s.pending ++ s.phase.taken, dirtyGroups := gs, phase := .idle } := by
  refine ⟨h.writer.same, h.flush.imp (fun hcur => ?_) fun hbehind => ?_⟩
  · obtain ⟨k, tk, pd, hq⟩ := hcur.queue
    exact ⟨hcur.stored, hcur.wellKeyed, hcur.version, hcur.same, k, [], pd ++ tk, hq.restore gs⟩
  · exact ⟨hbehind.boundary, hbehind.stored, hbehind.version, fun _ _ _ _ hph => by cases hph⟩

theorem inv_fail (h : Inv c start ps s) (hs : step c s .fail = some s') : Inv c start ps s' := by
  simp only [step] at hs
  split at hs
  · rename_i fs gs hph
    cases hs
    have hinv := h.restore (s.dirtyGroups ++ gs)
    rw [hph] at hinv
    exact hinv
  · rename_i fs gs snap copied hph
    cases hs
    have hinv := h.restore (s.dirtyGroups ++ gs)
    rw [hph] at hinv
    exact hinv
  · cases hs

/-! ### Uploads -/

/-- No manifest names an object of a later version. -/
theorem notMem_referencedKeys {m : Manifest} (hw : WellKeyed m) {k : ObjectKey} {v : Nat}
    (hk : k.version? = some v) (hv : m.version < v) : k ∉ m.referencedKeys := by
  intro hmem
  obtain ⟨slot, hslot⟩ := Manifest.mem_referencedKeys.mp hmem
  obtain ⟨v', hle, hkv⟩ := hw.version slot k hslot
  rw [hk] at hkv
  cases hkv
  omega

theorem putPageGroups_of_same {us : List (ObjectKey × Bytes)} {b : Backend} {k : ObjectKey}
    (h : ∀ u ∈ us, u.1 = k → b.objects k = some u.2) : (b.putPageGroups us).objects k = b.objects k := by
  induction us generalizing b with
  | nil => rfl
  | cons u us ih =>
    have hfirst : (b.putPageGroups [u]).objects k = b.objects k := by
      show Function.update b.objects u.1 (some u.2) k = b.objects k
      by_cases huk : u.1 = k
      · rw [h u List.mem_cons_self huk, ← huk, Function.update_self]
      · rw [Function.update_of_ne (Ne.symm huk)]
    have hrest : ((b.putPageGroups [u]).putPageGroups us).objects k = (b.putPageGroups [u]).objects k := by
      refine ih fun u' hu' hk => ?_
      rw [hfirst]
      exact h u' (List.mem_cons_of_mem u hu') hk
    exact hrest.trans hfirst

theorem Spares.objects {m : Manifest} {b : Backend} {us : List (ObjectKey × Bytes)} (h : Spares m b us)
    (slot : Slot) (k : ObjectKey) (hk : m.keyAt slot = some k) :
    (b.putPageGroups us).objects k = b.objects k := by
  refine putPageGroups_of_same fun u hu huk => ?_
  subst huk
  exact h u hu (Manifest.mem_referencedKeys.mpr ⟨slot, hk⟩)

theorem referencedKeys_of_same {m m' : Manifest} (h : SameKeys m m') {k : ObjectKey} :
    k ∈ m.referencedKeys ↔ k ∈ m'.referencedKeys := by
  rw [Manifest.mem_referencedKeys, Manifest.mem_referencedKeys]
  exact exists_congr fun slot => by rw [h slot]

/-- Objects under new keys change nothing that is published. -/
theorem Current.upload (h : Current c start ps s) {us : List (ObjectKey × Bytes)}
    (hus : Spares s.manifest s.backend us) :
    Current c start ps { s with backend := s.backend.putPageGroups us } := by
  have hpublished : Spares s.published s.backend us := fun u hu hmem =>
    hus u hu ((referencedKeys_of_same h.same).mp hmem)
  obtain ⟨ct, hst⟩ := h.stored
  obtain ⟨k, tk, pd, hq⟩ := h.queue
  refine ⟨⟨ct, hst.toStoredObjects.of_objects hus.objects, hst.indexed, hst.nodup⟩,
    h.wellKeyed, h.version, h.same, k, tk, pd, hq.count, fun p hp => ?_, hq.taken, hq.pending, hq.rest,
    hq.reading⟩
  exact (coldRead_congr hpublished.objects p).trans (hq.reads p hp)

theorem Behind.upload (h : Behind c start s) {us : List (ObjectKey × Bytes)}
    (hus : Spares s.published s.backend us) :
    Behind c start { s with backend := s.backend.putPageGroups us } := by
  obtain ⟨k, hk, hreads⟩ := h.boundary
  refine ⟨⟨k, hk, fun p hp => ?_⟩, h.stored, h.version, h.reading⟩
  exact (coldRead_congr hus.objects p).trans (hreads p hp)

theorem inv_upload (h : Inv c start ps s) {us : List (ObjectKey × Bytes)}
    (hsafe : Safe c s (.upload us)) (hs : step c s (.upload us) = some s') : Inv c start ps s' := by
  simp only [step] at hs
  split at hs
  · rename_i fs gs snap copied hph
    split at hs
    · split at hs
      · rename_i p hp
        split at hs
        · rename_i hsub
          cases hs
          refine ⟨h.writer.same, h.flush.imp (fun hcur => ?_) fun hbehind => ?_⟩
          · obtain ⟨k, tk, pd, hq⟩ := hcur.queue
            obtain ⟨t, -, -, -, hsnap, -⟩ := hq.reading fs gs snap copied hph
            have hpub := FlushInput.prepare_publishes hp
            have hversion : p.manifest.version = s.manifest.version + 1 := hsnap ▸ hpub.version
            refine hcur.upload fun u hu hmem => ?_
            have hfresh := hpub.slots.fresh u.1 (List.mem_map_of_mem (hsub hu))
            rw [hversion] at hfresh
            exact absurd hmem (notMem_referencedKeys hcur.wellKeyed hfresh (Nat.lt_succ_self _))
          · rcases hsafe with hle | hus
            · exact absurd hbehind.version (Nat.not_lt.mpr hle)
            · exact hbehind.upload hus
        · cases hs
      · cases hs
    · cases hs
  · cases hs

/-! ### Publishing -/

section Finish

variable {fs : List PendingFlush} {gs : List Nat} {snap : Manifest}
  {copied : HMap Nat (Option Bytes)} {k : Nat} {tk pd : List StagingLog}

theorem logs_flushInput (htk : Resolves s.dir fs tk) :
    (flushInput c s fs gs snap copied).logs = tk := by
  show fs.filterMap (fun f => s.dir.lookup f.version) = tk
  obtain ⟨hv, hdir⟩ := htk
  have hmap : fs.map (fun f => s.dir.lookup f.version) = tk.map some := by
    have h1 : fs.map (fun f => s.dir.lookup f.version) =
        (fs.map (·.version)).map fun v => s.dir.lookup v := by rw [List.map_map]; rfl
    rw [h1, hv, List.map_map]
    exact List.map_congr_left fun l hl => hdir l hl
  have h2 : fs.filterMap (fun f => s.dir.lookup f.version) =
      (fs.map fun f => s.dir.lookup f.version).filterMap id := by rw [List.filterMap_map]; rfl
  rw [h2, hmap, List.filterMap_map]
  exact List.filterMap_some ..

/-- The logs a flush took, sorted by version, are the stretch of the history they come from. -/
theorem newestStaged_flushInput (hw : WriterInv start ps s) (htk : Resolves s.dir fs tk) {t : Nat}
    (hperm : tk.Perm ((s.logs.take t).drop k)) (p : Nat) :
    (flushInput c s fs gs snap copied).newestStaged p = lastImage ((s.logs.take t).drop k) p := by
  have hsort : s.logs.Pairwise fun a b => a.version < b.version := by
    have hs := hw.sorted
    rw [State.allLogs, List.append_assoc] at hs
    exact (List.pairwise_append.mp hs).1
  have hslice : ((s.logs.take t).drop k).Pairwise fun a b => a.version < b.version :=
    hsort.sublist ((List.drop_sublist ..).trans (List.take_sublist ..))
  rw [FlushInput.newestStaged, logs_flushInput htk]
  congr 1
  refine List.Perm.eq_of_pairwise ?_ (List.pairwise_insertionSort (fun a b : StagingLog => a.version ≤ b.version) _)
    ?_ ((List.perm_insertionSort _ _).trans hperm)
  · intro a b ha hb hab hba
    have hamem : a ∈ (s.logs.take t).drop k :=
      hperm.mem_iff.mp ((List.perm_insertionSort _ _).mem_iff.mp ha)
    have hnd : (((s.logs.take t).drop k).map (·.version)).Nodup :=
      List.pairwise_map.mpr (hslice.imp fun hlt => Nat.ne_of_lt hlt)
    exact List.inj_on_of_nodup_map hnd hamem hb (Nat.le_antisymm hab hba)
  · exact hslice.imp fun hlt => Nat.le_of_lt hlt

/-- What the flush was given is the writer's database at the boundary of its snapshot. -/
theorem expectedOver_flushInput (hw : WriterInv start ps s) (hq : QueueInv c start ps s k tk pd)
    (hph : s.phase = .reading fs gs snap copied) {t : Nat} (hkt : k ≤ t)
    (hperm : tk.Perm ((s.logs.take t).drop k)) (hsnap : snap = s.manifest)
    (hcop : ∀ p d, copied.lookup p = some (some d) →
      d.length = ps ∧ (lastImage tk p = none → d = boundaryImage start s.logs t p)) (p : Nat) :
    (flushInput c s fs gs snap copied).expectedOver (remote c s) p =
      some (boundaryImage start s.logs t p) := by
  have htaken : Resolves s.dir fs tk := by
    have ht := hq.taken
    rw [hph] at ht
    exact ht
  rw [FlushInput.expectedOver, newestStaged_flushInput hw htaken hperm]
  have hbound : lastImage (s.logs.take t) p =
      (lastImage ((s.logs.take t).drop k) p).or (lastImage (s.logs.take k) p) := by
    conv_lhs => rw [take_split s.logs hkt]
    exact lastImage_append_list ..
  cases hnew : lastImage ((s.logs.take t).drop k) p with
  | some d =>
    rw [Option.some_or, Option.some_or, boundaryImage, hbound, hnew]
    rfl
  | none =>
    -- not staged: the database at `t` is the one at `k` there
    have hsame : boundaryImage start s.logs t p = boundaryImage start s.logs k p := by
      rw [boundaryImage, hbound, hnew, Option.none_or]
      rfl
    have htk : lastImage tk p = none := (lastImage_perm_eq_none hperm).mpr hnew
    have hpage : (flushInput c s fs gs snap copied).cache.page p =
        ((copied.lookup p).join).filter fun d => d.length = snap.pageSize := rfl
    rw [Option.none_or, hpage]
    have hremote : remote c s p = some (boundaryImage start s.logs t p) := by
      rw [remote, hsame]
      split
      · rename_i hp
        rw [hq.reads p hp]
        rfl
      · rename_i hp
        have hzero := hw.countsBeyond k _ hq.count p (Nat.le_of_not_lt hp)
        rw [hzero, zeroPage, hw.pageSize]
    cases hc : (copied.lookup p).join with
    | none => exact hremote
    | some d =>
      have hd : copied.lookup p = some (some d) := Option.join_eq_some_iff.mp hc
      obtain ⟨hlen, heq⟩ := hcop p d hd
      rw [Option.filter_some, if_pos (by rw [hsnap, hw.pageSize]; simpa using hlen), Option.some_or,
        heq htk]

theorem stagedSized_flushInput (hw : WriterInv start ps s) (hq : QueueInv c start ps s k tk pd)
    (hph : s.phase = .reading fs gs snap copied) (hsnap : snap = s.manifest) :
    (flushInput c s fs gs snap copied).StagedSized := by
  intro f hf log hlog p d hd
  have htaken := hq.taken
  rw [hph] at htaken
  have hv : f.version ∈ tk.map (·.version) := by
    rw [← htaken.1]
    exact List.mem_map_of_mem hf
  obtain ⟨l, hl, hlv⟩ := List.mem_map.mp hv
  have hdir := htaken.2 l hl
  rw [hlv] at hdir
  obtain rfl : log = l := Option.some.inj (hlog.symm.trans hdir)
  have hall : log ∈ s.allLogs := by
    rw [State.allLogs, List.append_assoc]
    exact List.mem_append_left _ (hq.mem_logs (.inl hl))
  have hrec := (hw.sized log hall).2 (p, d) (StagingLog.mem_records_of_read hd)
  show d.length = snap.pageSize
  rw [hsnap, hw.pageSize]
  exact hrec

/-- The logs still queued are on disk after the consumed ones are removed. -/
theorem resolves_erase (hw : WriterInv start ps s) (hq : QueueInv c start ps s k tk pd) :
    Resolves (s.phase.taken.foldl (fun d f => d.erase f.version) s.dir) s.pending pd := by
  refine hq.pending.congr fun l hl => lookup_foldl_erase fun hmem => ?_
  rw [hq.taken.1] at hmem
  have hsort : s.logs.Pairwise fun a b => a.version < b.version := by
    have hs := hw.sorted
    rw [State.allLogs, List.append_assoc] at hs
    exact (List.pairwise_append.mp hs).1
  have hnd : ((tk ++ pd).map (·.version)).Nodup := by
    refine (hq.rest.map _).nodup_iff.mpr (List.pairwise_map.mpr ?_)
    exact (hsort.sublist (List.drop_sublist ..)).imp fun hlt => Nat.ne_of_lt hlt
  rw [List.map_append] at hnd
  exact (List.nodup_append.mp hnd).2.2 _ hmem _ (List.mem_map_of_mem hl) rfl

end Finish

variable (c) in
/-- A manifest that a flush stored: the database at boundary `t`. -/
structure Landed (start : Nat → Bytes) (s : State) (fs : List PendingFlush) (new : Manifest)
    (b : Backend) (t : Nat) (pd : List StagingLog) : Prop where
  stored : ∃ ct, Stored c.codec new b ct
  wellKeyed : WellKeyed new
  version : new.version = s.manifest.version + 1
  pageSize : new.pageSize = s.manifest.pageSize
  pageCount : new.pageCount = s.manifest.pageCount
  count : s.counts[t]? = some new.pageCount
  reads : ∀ p < new.pageCount, coldRead c.codec new b p = .ok (boundaryImage start s.logs t p)
  pending : Resolves (fs.foldl (fun d f => d.erase f.version) s.dir) s.pending pd
  rest : pd.Perm (s.logs.drop t)

theorem Current.lands (hc : c.codec.codecs.Lawful) (h : Current c start ps s) (hw : WriterInv start ps s)
    {fs : List PendingFlush} {gs : List Nat} {snap : Manifest} {copied : HMap Nat (Option Bytes)}
    (hph : s.phase = .reading fs gs snap copied) (hfaith : Faithful c s)
    {staged : HMap Nat Bytes} (hmerge : mergeStaged s.dir fs = .ok staged) {cc : Nat} {w : GroupWrites}
    {plans : Option BundlePlans} (hwrote : FlushInput.Wrote (flushInput c s fs gs snap copied) staged w)
    {gc : Bool} {b : Backend} (hpub : s.backend.publish (flushPublication snap cc w plans) gc = .ok b) :
    ∃ t pd, Landed c start s fs (flushPublication snap cc w plans).manifest b t pd := by
  obtain ⟨hsize, hkeeps⟩ := hfaith fs gs snap copied hph
  obtain ⟨ct, hst⟩ := h.stored
  have hwk := h.wellKeyed
  obtain ⟨k, tk, pd, hq⟩ := h.queue
  obtain ⟨t, hkt, ht, hperm, hsnap, hct, hcop⟩ := hq.reading fs gs snap copied hph
  have herase := resolves_erase hw hq
  rw [hph] at herase
  rw [← hsnap] at hst hwk
  have hsz := stagedSized_flushInput hw hq hph hsnap
  have hlay := FlushInput.flush_layout (i := flushInput c s fs gs snap copied) hst.indexed cc w plans
  refine ⟨t, pd, ⟨_, FlushInput.stored_after hc hst hsz hmerge hwk hsize hwrote hpub⟩,
    hwk.publish (flushPublication_publishes snap cc w plans) rfl fun _ => rfl, ?_, ?_, ?_, ?_,
    fun p hp => ?_, herase, hq.pending_perm hkt ht hperm⟩
  · rw [← hsnap]
    exact (flushPublication_publishes snap cc w plans).version
  · rw [← hsnap]
    exact (flush_published hwk hpub).pageSize
  · rw [← hsnap]
    exact hlay.2.2
  · exact hct.trans (congrArg some hlay.2.2.symm)
  · have hlt : p < snap.pageCount := Nat.lt_of_lt_of_eq hp hlay.2.2
    refine (FlushInput.coldRead_after hc hst hsz hmerge hwk hsize hwrote hpub hlt _).mpr ?_
    exact hkeeps staged ct hmerge hst p hlt _
      (expectedOver_flushInput hw hq hph hkt hperm hsnap hcop p)

/-- Behind the published manifest nothing can be stored. -/
theorem Behind.not_stored (h : Behind c start s) {fs : List PendingFlush} {gs : List Nat}
    {snap : Manifest} {copied : HMap Nat (Option Bytes)} (hph : s.phase = .reading fs gs snap copied)
    {p : Publication} (hp : Publishes snap p) (us : List (ObjectKey × Bytes)) (b : Backend) :
    (s.backend.putPageGroups us).putManifest p.manifest ≠ .ok b := by
  intro hput
  have hlt := (Backend.putManifest_inv hput).2 s.published h.stored
  rw [hp.version] at hlt
  have hsnap := h.reading fs gs snap copied hph
  omega

theorem inv_finish (hc : c.codec.codecs.Lawful) (h : Inv c start ps s) (hsafe : Safe c s .finish)
    (hs : step c s .finish = some s') : Inv c start ps s' := by
  obtain ⟨hempty, hfaith⟩ := hsafe
  simp only [step] at hs
  split at hs
  · rename_i fs gs snap copied hph
    split at hs
    · split at hs
      · cases hs
      · -- no group to upload, and no log was taken
        rename_i hnone
        cases hs
        have hnil := hempty fs gs snap copied hph hnone
        refine ⟨h.writer.same, h.flush.imp (fun hcur => ?_) fun hbehind => ?_⟩
        · obtain ⟨k, tk, pd, hq⟩ := hcur.queue
          have htaken := hq.taken
          rw [hph, hnil] at htaken
          rw [hnil]
          refine ⟨hcur.stored, hcur.wellKeyed, hcur.version, hcur.same, k, tk, pd, hq.count, hq.reads,
            htaken, hq.pending, hq.rest, ?_⟩
          intro fs gs snap copied hph'
          cases hph'
        · exact ⟨hbehind.boundary, hbehind.stored, hbehind.version, fun _ _ _ _ hph' => by cases hph'⟩
      · rename_i new b hok
        cases hs
        obtain ⟨staged, hmerge, ⟨-, hnone⟩ | ⟨cc, w, plans, b', hwrote, hpub, he⟩⟩ :=
          FlushInput.flushInner_inv hok
        · cases hnone
        · obtain ⟨rfl, rfl⟩ := Prod.mk.inj (Option.some.inj he)
          rcases h.flush with hcur | hbehind
          · obtain ⟨t, pd, hland⟩ := hcur.lands hc h.writer hph hfaith hmerge hwrote hpub
            refine ⟨h.writer.congr hland.pageSize hland.pageCount rfl rfl rfl rfl rfl rfl rfl rfl rfl,
              .inl ⟨hland.stored, hland.wellKeyed, rfl, fun _ => rfl, t, [], pd, hland.count, hland.reads,
                ⟨rfl, fun l hl => absurd hl List.not_mem_nil⟩, hland.pending, ?_, ?_⟩⟩
            · rw [List.nil_append]
              exact hland.rest
            · intro fs gs snap copied hph'
              cases hph'
          · obtain ⟨stored, hput, -⟩ := bind_eq_ok.mp hpub
            exact absurd hput (hbehind.not_stored hph (flushPublication_publishes ..) _ _)
    · cases hs
  · cases hs

theorem inv_failPersist (hc : c.codec.codecs.Lawful) (h : Inv c start ps s)
    (hsafe : Safe c s .failPersist) (hs : step c s .failPersist = some s') : Inv c start ps s' := by
  simp only [step] at hs
  split at hs
  · rename_i fs gs snap copied hph
    split at hs
    · split at hs
      · rename_i p hp
        split at hs
        · rename_i b hput
          cases hs
          rcases h.flush with hcur | hbehind
          · obtain ⟨staged, cc, w, plans, hmerge, hwrote, rfl⟩ := FlushInput.prepare_inv hp
            have hpub : s.backend.publish (flushPublication snap cc w plans) false = .ok b :=
              bind_eq_ok.mpr ⟨b, hput, rfl⟩
            obtain ⟨t, pd, hland⟩ := hcur.lands hc h.writer hph hsafe hmerge hwrote hpub
            refine ⟨h.writer.same, .inr ⟨⟨t, hland.count, hland.reads⟩, ?_, ?_,
              fun _ _ _ _ hph' => by cases hph'⟩⟩
            · rw [(Backend.putManifest_inv hput).1]
            · show s.manifest.version < (flushPublication snap cc w plans).manifest.version
              rw [hland.version]
              exact Nat.lt_succ_self _
          · exact absurd hput (hbehind.not_stored hph (FlushInput.prepare_publishes hp) _ _)
        · cases hs
      · cases hs
    · cases hs
  · cases hs

theorem inv_step (hc : c.codec.codecs.Lawful) (h : Inv c start ps s) {e : Event}
    (hsafe : Safe c s e) (hs : step c s e = some s') : Inv c start ps s' := by
  cases e with
  | write p data => exact inv_write h hs
  | append => exact inv_append h hs
  | beginCheckpoint => exact inv_beginCheckpoint h hsafe hs
  | endCheckpoint => exact inv_endCheckpoint h hs
  | takeLogs => exact inv_takeLogs h hs
  | takeGroups => exact inv_takeGroups h hs
  | snapshot => exact inv_snapshot h hsafe hs
  | copy p => exact inv_copy h hsafe hs
  | upload us => exact inv_upload h hsafe hs
  | finish => exact inv_finish hc h hsafe hs
  | fail => exact inv_fail h hs
  | failPersist => exact inv_failPersist hc h hsafe hs

namespace Example

/-- Groups of two pages, without overrides. -/
def config : Config where
  codec := .plain
  pagesPerGroup := 2
  overrideThreshold := 0
  gcEnabled := true
  interiorPages := []
  indexPages := []

/-- The example database: its pages are filled with 1 and 2. -/
def database (p : Nat) : Bytes :=
  if p = 0 then ReadPaths.Example.page 1 else if p = 1 then ReadPaths.Example.page 2
  else zeroPage ReadPaths.Example.manifest

/-- Both pages are cached. -/
def init : State where
  manifest := ReadPaths.Example.manifest
  published := ReadPaths.Example.manifest
  backend := ReadPaths.Example.backend 2
  cache := fun p => if p < 2 then some (database p) else none
  stagingSeq := 5
  pendingPageCount := 2
  counts := [2]

/-- Page 0 is written and checkpointed. -/
def checkpointed : List Event :=
  [.write 0 (ReadPaths.Example.page 7), .append, .beginCheckpoint, .endCheckpoint]

/-- After the write of page 0. -/
def written : State := (init.cachePage 0 (ReadPaths.Example.page 7)).logPage 0 (ReadPaths.Example.page 7)

/-- A flush from its first step to its last. -/
def flush : List Event := [.takeLogs, .takeGroups, .snapshot, .copy 0, .copy 1, .finish]

/-- The log of a checkpoint that wrote page 0. -/
def log : StagingLog where
  version := 5
  pageSize := 512
  records := [(0, ReadPaths.Example.page 7)]
  trailer := some ReadPaths.Example.manifest

/-- After the checkpoint. -/
def queued : State :=
  { init with
    cache := Function.update init.cache 0 (some (ReadPaths.Example.page 7))
    stagingSeq := 6
    dir := AList.insert 5 log ∅
    pending := [⟨5, 512⟩]
    dirtyGroups := [0]
    logs := [log]
    counts := [2, 2] }

/-- While the flush reads the cache. -/
def reading (copied : HMap Nat (Option Bytes)) : State :=
  { queued with
    pending := []
    dirtyGroups := []
    phase := .reading [⟨5, 512⟩] [0] ReadPaths.Example.manifest copied }

/-- Both pages read. -/
def copied : HMap Nat (Option Bytes) :=
  AList.insert 1 (some (database 1)) (AList.insert 0 (some (ReadPaths.Example.page 7)) ∅)

theorem step_write : step config init (.write 0 (ReadPaths.Example.page 7)) =
    some (init.cachePage 0 (ReadPaths.Example.page 7)) := by
  have hlen : (ReadPaths.Example.page 7).length = init.manifest.pageSize :=
    ReadPaths.Example.length_page 7
  rw [step, if_pos ⟨rfl, rfl, hlen⟩]

end Example

end Turbolite.ExactFlush
