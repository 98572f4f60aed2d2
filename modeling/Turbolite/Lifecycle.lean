import Turbolite.Checkpoint
import Turbolite.Flush
import Turbolite.Import
import Turbolite.Lib.Runs
import Turbolite.Sync

/-!
# Turbolite.Lifecycle

The manifest over the life of a database: page writes, local checkpoints, durable syncs, flushes,
`set_len`, replays and imports, in any order. The state is the shared manifest with the pages that are
dirty and staged, and a record of every manifest that was written down. What each operation computes
from the cache and the backend is in its input, so a run allows every cache and every backend.
-/

namespace Turbolite.Lifecycle

/-- The configuration of the handle. -/
structure Handle where
  pagesPerGroup : Nat
  subPagesPerFrame : Nat
  pagesPerGroup_pos : 0 < pagesPerGroup

/-- The group size a handle is opened with: the manifest's, else the configured one. -/
def Handle.ppg (h : Handle) (m : Manifest) : Nat :=
  if m.pagesPerGroup = 0 then h.pagesPerGroup else m.pagesPerGroup

/-- Something written down. -/
inductive Written where
  /-- by `put_manifest` -/
  | object (m : Manifest)
  /-- a staging log and its trailer -/
  | trailer (log : StagingLog) (m : Manifest)
  /-- by `wire::encode` -/
  | envelope (m : Manifest)

/-- The manifest in what was written. -/
def Written.manifest : Written → Manifest
  | .object m | .trailer _ m | .envelope m => m

/-- The shared manifest, the staging log and what was written with a manifest in it. -/
structure State where
  shared : Manifest := .empty
  dirty : List Nat := []
  /-- the records of the open staging log -/
  openLog : List (Nat × Bytes) := []
  stagingSeq : Nat := 0
  written : List Written := []

/-- The calls that change or publish the manifest. -/
inductive Event where
  /-- `write_all_at` of one page -/
  | write (page : Nat) (data : Bytes)
  /-- local checkpoint -/
  | checkpoint
  /-- durable sync -/
  | sync (i : SyncInput)
  /-- durable sync that fails after it stored its layout -/
  | failSync (i : SyncInput)
  | flush (i : FlushInput)
  | setLen (newPageCount : Nat)
  /-- end of a replay of these pages -/
  | replay (r : Replay) (pages : List (Nat × Bytes))
  | importFile (i : ImportInput)
  /-- `manifest_bytes` -/
  | encode

/-- A log with these records, closed or not. -/
def State.log (s : State) (records : List (Nat × Bytes)) : StagingLog :=
  { version := s.stagingSeq, pageSize := s.shared.pageSize, records := records }

/-- One event; `none` when it is refused. -/
def step (h : Handle) (s : State) : Event → Option State
  | .write page data =>
    let m := s.shared.seedGeometry data.length h.pagesPerGroup h.subPagesPerFrame
    if data.length = m.pageSize ∧ page * data.length < 2 ^ 64 then
      some { s with
        shared := m
        dirty := s.dirty.insert page
        openLog := s.openLog ++ [(page, data)] }
    else none
  | .checkpoint =>
    let m := s.shared.localCheckpoint s.dirty (h.ppg s.shared)
    if s.openLog = [] then some { s with shared := m, dirty := [] }
    else some { s with
      shared := m
      dirty := []
      openLog := []
      stagingSeq := s.stagingSeq + 1
      written := s.written ++ [.trailer (s.log s.openLog) m] }
  | .sync i =>
    if i.manifest = s.shared ∧ i.dirty.Perm s.dirty then
      match i.durableSync with
      | .ok (some (m, _)) => some { s with
          shared := m, dirty := [], written := s.written ++ [.object m] }
      | .ok none => some s
      | .error _ => none
    else none
  | .failSync i =>
    if i.manifest = s.shared ∧ i.dirty.Perm s.dirty ∧ i.panics = false then
      some { s with shared := i.snap }
    else none
  | .flush i =>
    if i.manifest = s.shared then
      match i.flushInner with
      | .ok (some (m, _)) => some { s with shared := m, written := s.written ++ [.object m] }
      | .ok none => some s
      | .error _ => some s
    else none
  | .setLen n =>
    if s.shared.pageSize = 0 then some s
    else some { s with shared := s.shared.setLen n, dirty := s.dirty.filter (· < n) }
  | .replay r pages =>
    if s.shared.pageSize ≠ 0 ∧ r.maxReplayedPage ≤ r.newPageCount s.shared ∧
        ∀ p ∈ pages, p.1 < 2 ^ 32 ∧ p.2.length = s.shared.pageSize then
      some { s with
        shared := r.postManifest s.shared
        stagingSeq := s.stagingSeq + 1
        written := s.written ++ [.trailer (s.log pages) (r.postManifest s.shared)] }
    else none
  | .importFile i =>
    match i.importSqliteFile with
    | .ok (m, _) => some { s with
        shared := m.detectAndNormalizeStrategy
        dirty := []
        openLog := []
        written := s.written ++ [.object m] }
    | .error _ => some s
  | .encode => some { s with written := s.written ++ [.envelope s.shared] }

end Turbolite.Lifecycle
