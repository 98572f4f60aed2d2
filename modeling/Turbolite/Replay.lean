import Turbolite.CacheFile
import Turbolite.Grouping
import Turbolite.Staging

/-!
# Turbolite.Replay

The replay handle (`replay.rs`): pages of an external log are staged in memory, and `finalize` writes
a staging log, overwrites the pages in the cache file, makes them visible and queues the log. Every
operation that can fail in between does so on demand: `Faults` says which, and how far a write got.
-/

namespace Turbolite

open Blocks Results RawFile

/-! ### The handle -/

/-- What the handle shares with the VFS. `poisoned` is the lock of the pending flushes. -/
structure ReplayContext where
  cache : CacheFile := {}
  tainted : Bool := false
  manifest : Manifest
  vfsPageCount : Nat
  pendingFlushes : List PendingFlush := []
  poisoned : Bool := false
  stagingSeq : Nat := 0
  stagingDir : StagingDir := ∅
  replayEpoch : Nat := 0
  generation : Nat := 0

/-- Staged pages are whole pages of the size pinned at `begin_replay`. -/
structure ReplayHandle (pageSize : Nat) where
  staged : HMap Nat Bytes := ∅
  targetPageCount : Option Nat := none
  maxSqlitePageId : Nat := 0
  committedSeqs : List Nat := []
  expectedNextSeq : Nat := 1
  sized : ∀ p d, staged.lookup p = some d → d.length = pageSize
  below : ∀ p d, staged.lookup p = some d → p < maxSqlitePageId

namespace ReplayHandle

variable {pageSize : Nat}

theorem lookup_single {p q : Nat} {d d' : Bytes}
    (h : (AList.insert p d (∅ : HMap Nat Bytes)).lookup q = some d') : q = p ∧ d' = d := by
  by_cases hq : q = p
  · rw [hq, AList.lookup_insert] at h
    exact ⟨hq, (Option.some.inj h).symm⟩
  · rw [AList.lookup_insert_ne hq] at h
    cases h

/-- A fresh handle. -/
def new (pageSize : Nat) : ReplayHandle pageSize where
  sized _ _ h := by cases h
  below _ _ h := by cases h

/-- `apply_page`: a later image of a page replaces an earlier one. -/
def applyPage (r : ReplayHandle pageSize) (sqlitePageId : Nat) (data : Bytes) :
    IoResult (ReplayHandle pageSize) :=
  if h0 : sqlitePageId = 0 then .error (.io .invalidInput
    "apply_page: sqlite_page_id 0 is invalid (SQLite page ids are 1-based)")
  else if hlen : data.length ≠ pageSize then .error (.io .invalidData
    s!"apply_page: data.len()={data.length} does not match manifest page_size={pageSize}")
  else .ok
    { r with
      staged := r.staged.insert (sqlitePageId - 1) data
      maxSqlitePageId := max r.maxSqlitePageId sqlitePageId
      sized := fun p d h => by
        by_cases hp : p = sqlitePageId - 1
        · rw [hp, AList.lookup_insert] at h
          cases h
          exact not_not.mp hlen
        · rw [AList.lookup_insert_ne hp] at h
          exact r.sized p d h
      below := fun p d h => by
        by_cases hp : p = sqlitePageId - 1
        · omega
        · rw [AList.lookup_insert_ne hp] at h
          have hlt := r.below p d h
          omega }

/-- `set_target_page_count`. -/
def setTargetPageCount (r : ReplayHandle pageSize) (n : Nat) : ReplayHandle pageSize :=
  { r with targetPageCount := some n }

/-- `set_expected_next_changeset_seq`. -/
def setExpectedNextChangesetSeq (r : ReplayHandle pageSize) (nextSeq : Nat) :
    IoResult (ReplayHandle pageSize) :=
  if r.committedSeqs ≠ [] then .error (.io .invalidInput
    "set_expected_next_changeset_seq must be called before commit_changeset")
  else if nextSeq = 0 then .error (.io .invalidInput
    "changeset sequences are 1-based; expected next sequence cannot be 0")
  else .ok { r with expectedNextSeq := nextSeq }

/-- `commit_changeset`. -/
def commitChangeset (r : ReplayHandle pageSize) (seq : Nat) : IoResult (ReplayHandle pageSize) :=
  if seq ≠ r.expectedNextSeq then .error (.io .invalidData
    s!"commit_changeset: non-contiguous sequence {seq}; expected {r.expectedNextSeq}")
  else .ok { r with
    committedSeqs := r.committedSeqs ++ [seq]
    -- a `u64`, and the increment is not checked in a release build
    expectedNextSeq := (r.expectedNextSeq + 1) % 2 ^ 64 }

/-- The staged pages in the order of the `BTreeMap`. -/
def pages (r : ReplayHandle pageSize) : List (Nat × Bytes) :=
  (r.staged.keys.insertionSort (· ≤ ·)).filterMap fun p => (r.staged.lookup p).map (p, ·)

theorem mem_pages {r : ReplayHandle pageSize} {w : Nat × Bytes} :
    w ∈ r.pages ↔ r.staged.lookup w.1 = some w.2 := by
  simp only [pages, List.mem_filterMap]
  constructor
  · rintro ⟨p, -, h⟩
    obtain ⟨d, hd, rfl⟩ := Option.map_eq_some_iff.mp h
    exact hd
  · intro h
    have hkey : w.1 ∈ r.staged.keys := AList.mem_keys.mpr (AList.lookup_isSome.mp (by rw [h]; rfl))
    exact ⟨w.1, (List.perm_insertionSort _ _).mem_iff.mpr hkey, by rw [h]; rfl⟩

theorem sized_of_mem_pages {r : ReplayHandle pageSize} {w : Nat × Bytes} (h : w ∈ r.pages) :
    w.2.length = pageSize :=
  r.sized _ _ (mem_pages.mp h)

/-- The map is walked upwards. -/
theorem pairwise_pages (r : ReplayHandle pageSize) : r.pages.Pairwise fun a b => a.1 < b.1 := by
  have hsort : (r.staged.keys.insertionSort (· ≤ ·)).Pairwise (· < ·) := by
    have hnd := (List.perm_insertionSort (· ≤ ·) r.staged.keys).nodup_iff.mpr r.staged.nodupKeys
    exact (List.pairwise_insertionSort (· ≤ ·) r.staged.keys).imp₂
      (fun _ _ hle hne => Nat.lt_of_le_of_ne hle hne) hnd
  refine List.Pairwise.filterMap _ (fun p q hpq a ha b hb => ?_) hsort
  obtain ⟨d, -, rfl⟩ := Option.map_eq_some_iff.mp ha
  obtain ⟨d', -, rfl⟩ := Option.map_eq_some_iff.mp hb
  exact hpq

/-- The page count after the replay. -/
def newPageCount (r : ReplayHandle pageSize) (m : Manifest) : Nat :=
  r.targetPageCount.getD (max m.pageCount r.maxSqlitePageId)

/-- `post_manifest`. -/
def postManifest (r : ReplayHandle pageSize) (m : Manifest) : Manifest :=
  let moved := if r.newPageCount m ≠ m.pageCount then
    m.setReplayPageCount m.pageCount (r.newPageCount m) else m
  { moved with
    dbHeader := match r.staged.lookup 0 with
      | some page0 => if 100 ≤ page0.length then some page0 else moved.dbHeader
      | none => moved.dbHeader
    version := m.version + 1
    changeCounter := r.committedSeqs.foldl max moved.changeCounter }

/-- The staging log: every staged page, and the manifest as its trailer. -/
def stagingLog (r : ReplayHandle pageSize) (m : Manifest) (version : Nat) : StagingLog :=
  ⟨version, pageSize, r.pages, some (r.postManifest m)⟩

end ReplayHandle

namespace Manifest

/-- `begin_replay_after`: the handle's page size is the one of the live manifest. -/
def beginReplayAfter (m : Manifest) (currentSeq : Nat) : IoResult (ReplayHandle m.pageSize) :=
  if m.pageSize = 0 then .error (.io .invalidData
    "begin_replay: manifest page_size is 0; cannot replay against an unsized cache")
  else (ReplayHandle.new m.pageSize).setExpectedNextChangesetSeq ((currentSeq + 1) % 2 ^ 64)

/-- The replay floor: the cursor, or the change counter where that is ahead. -/
def replayFloor (m : Manifest) : Nat := max m.cursor.lastAppliedSeq m.changeCounter

/-- `begin_replay`. -/
def beginReplay (m : Manifest) : IoResult (ReplayHandle m.pageSize) :=
  m.beginReplayAfter m.replayFloor

end Manifest

/-! ### Faults -/

/-- Which operations fail. A staging log that fails may leave its file behind. -/
structure Faults where
  stagingLog : Option Bool := none
  removeFile : Bool := false
  readPage : Nat → Bool := fun _ => false
  writePage : Nat → Option WriteFault := fun _ => none
  rollback : Nat → Option WriteFault := fun _ => none
  setLen : Bool := false
  persistBitmap : Bool := false

namespace Replay

variable (k : CacheConfig) (env : Faults)

/-- `write_page_no_visibility_inner`: the bytes and nothing else. -/
def writeNoVisibility (f : File) (p : Nat) (data : Bytes) (fault : Option WriteFault) :
    File × Option IoError :=
  if k.compressed then (f, some (.io .unsupported
    "write_page_no_visibility: compressed cache mode is not supported by direct hybrid page replay (SingleWriter consumers do not enable compression)"))
  else
    let slot := k.sealSlot data
    let off := p * k.slotStride
    match fault with
    | none => (f.writeAt off slot, none)
    | some .encode => (f, some (.io .other "Encryption failed"))
    | some .extend => (f, some (.io .other "set_len failed"))
    | some (.write n) =>
      ((f.setLen (max f.len (off + slot.length))).writeAt off (slot.take n),
        some (.io .other "write failed"))

/-- What every call says once the cache is tainted. -/
def taintedError : IoError := .io .other
  "DiskCache is tainted (replay rollback failed); restart the VFS to recover from the staging log"

/-- The forward write, refused on a tainted cache. -/
def writePageNoVisibility (tainted : Bool) (f : File) (p : Nat) (data : Bytes) :
    File × Option IoError :=
  if tainted then (f, some taintedError) else writeNoVisibility k f p data (env.writePage p)

/-- The pre-image of a page that is present; a read past the end of the file counts as none. -/
def preImage (s : ReplayContext) (f : File) (p : Nat) : IoResult (Option Bytes) :=
  if s.cache.isPresent k p then
    if s.tainted then .error taintedError
    else if env.readPage p then .error (.io .other "read failed")
    else
      match ({ s.cache with file := f } : CacheFile).readPage k p with
      | .ok old => .ok (some old)
      | .error (.io .unexpectedEof _) => .ok none
      | .error e => .error e
  else .ok none

/-- The loop state of step 4; the newest pre-image first. -/
structure Progress where
  file : File
  preImages : List (Nat × Bytes) := []

/-- A page was written, and its pre-image is remembered. -/
def Progress.next (st : Progress) (f : File) (p : Nat) (pre : Option Bytes) : Progress :=
  ⟨f, match pre with
    | some old => (p, old) :: st.preImages
    | none => st.preImages⟩

@[simp] theorem Progress.next_file (st : Progress) (f : File) (p : Nat) (pre : Option Bytes) :
    (st.next f p pre).file = f := rfl

/-- Step 4: one page after the other, until one fails. -/
def installPages (s : ReplayContext) : List (Nat × Bytes) → Progress → Progress × Option IoError
  | [], st => (st, none)
  | (p, data) :: rest, st =>
    match preImage k env s st.file p with
    | .error e => (st, some e)
    | .ok pre =>
      match writePageNoVisibility k env s.tainted st.file p data with
      | (f, some e) => ({ st with file := f }, some e)
      | (f, none) => installPages s rest (st.next f p pre)

/-- `rollback_pre_images`: the file, and the pages that could not be restored. -/
def rollbackPreImages : File → List (Nat × Bytes) → File × List Nat
  | f, [] => (f, [])
  | f, (p, old) :: rest =>
    match writeNoVisibility k f p old (env.rollback p) with
    | (f, some _) => ((rollbackPreImages f rest).1, p :: (rollbackPreImages f rest).2)
    | (f, none) => rollbackPreImages f rest

/-- `handle_commit_phase_failure`. -/
def handleCommitPhaseFailure (s : ReplayContext) (version : Nat) (st : Progress) : ReplayContext :=
  let out := rollbackPreImages k env st.file st.preImages
  let s := { s with cache := { s.cache with file := out.1 } }
  if out.2 = [] then
    { s with stagingDir := if env.removeFile then s.stagingDir else s.stagingDir.erase version }
  else { s with tainted := true }

/-- Telemetry of one cycle. -/
structure FinalizeReport where
  installedPagesInThisCycle : List Nat
  newPageCount : Nat

/-- Steps 5 to 7: visibility, truncation, manifest and queue. -/
def commit (s : ReplayContext) (r : ReplayHandle k.pageSize) (version : Nat) (file : File) :
    ReplayContext × IoResult FinalizeReport :=
  let n := r.newPageCount s.manifest
  let cache : CacheFile :=
    ⟨(r.pages.map (·.1)).foldl Presence.mark s.cache.toPresence, file⟩
  if n < s.manifest.pageCount ∧ env.setLen then
    ({ s with cache := cache }, .error (.io .other "set_len failed"))
  else
    let cache := if n < s.manifest.pageCount then cache.truncateToPageCount k n else cache
    let s' := { s with
      cache := cache
      generation := s.generation + 1
      manifest := r.postManifest s.manifest
      vfsPageCount := n }
    if s.poisoned then (s', .error (.io .other "pending_flushes poisoned"))
    else
      ({ s' with pendingFlushes := s.pendingFlushes ++ [⟨version, k.pageSize⟩] },
        .ok ⟨r.pages.map (·.1), n⟩)

/-- `finalize`. -/
def finalize (s : ReplayContext) (r : ReplayHandle k.pageSize) :
    ReplayContext × IoResult FinalizeReport :=
  let n := r.newPageCount s.manifest
  if n < r.maxSqlitePageId then (s, .error (.io .invalidData
    s!"replay finalize: target_page_count={n} is smaller than replayed sqlite page id {r.maxSqlitePageId}"))
  else if r.pages = [] ∧ n = s.manifest.pageCount then (s, .ok ⟨[], n⟩)
  else
    let version := s.stagingSeq
    let log := r.stagingLog s.manifest version
    let s := { s with stagingSeq := version + 1 }
    match env.stagingLog with
    | some left =>
      ({ s with stagingDir := if left && env.removeFile then s.stagingDir.insert version log
          else s.stagingDir }, .error (.io .other "staging log failed"))
    | none =>
      let s := { s with
        stagingDir := s.stagingDir.insert version log
        replayEpoch := s.replayEpoch + 1 }
      match installPages k env s r.pages ⟨s.cache.file, []⟩ with
      | (st, some e) => (handleCommitPhaseFailure k env s version st, .error e)
      | (st, none) =>
        match commit k env s r version st.file with
        | (s, .error e) => (s, .error e)
        | (s, .ok report) =>
          if env.persistBitmap then (s, .error (.io .other "persist_bitmap failed"))
          else (s, .ok report)

end Replay

end Turbolite
