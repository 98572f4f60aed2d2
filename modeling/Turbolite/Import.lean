import Turbolite.Bundles
import Turbolite.GroupMerge

/-!
# Turbolite.Import

`import_sqlite_file`: walk the B-trees of a SQLite file, pack the pages into groups, encode and upload
every group and the bundles, and publish a manifest that names them all.
-/

namespace Turbolite

open Blocks Results

/-- The file, its header fields and the configuration. The B-tree walker is the one of the
repository. -/
structure ImportInput where
  cfg : CodecConfig
  backend : Backend
  pageSize : Nat
  pageCount : Nat
  fileChangeCounter : Nat
  pagesPerGroup : Nat
  subPagesPerFrame : Nat
  file : PageMap
  walkAllBtrees : Nat → Nat → (Nat → Option Bytes) → Walk

namespace ImportInput

variable (i : ImportInput)

/-- The trees of the file. -/
def walk : Walk := i.walkAllBtrees i.pageCount i.pageSize i.file

/-- Put the group of page 0 first. -/
def swapToFront (groups : List (List Nat)) : List (List Nat) :=
  match groups.findIdx? (0 ∈ ·) with
  | some k => (groups.set 0 (groups.getD k [])).set k (groups.getD 0 [])
  | none => groups

/-- `group_pages_list`. -/
def groupPagesList : List (List Nat) := swapToFront (i.walk.groups i.pagesPerGroup)

/-- The pages of one group as the file has them. -/
def readGroup (pageNums : List Nat) : IoResult (List (Nat × Bytes)) :=
  pageNums.mapM fun p =>
    match i.file p with
    | some data => .ok (p, data)
    | none => .error (.io .unexpectedEof "failed to fill whole buffer")

/-- The object of a group and its frame table, empty for the legacy format. -/
def encodeGroup (gid : Nat) (pages : List (Nat × Bytes)) : Bytes × List FrameEntry :=
  let slots := pages.map fun p => some p.2
  if 0 < i.subPagesPerFrame then
    i.cfg.encodePageGroupSeekable (aadPageGroup gid) i.pageSize i.subPagesPerFrame slots
  else (i.cfg.encodePageGroup (aadPageGroup gid) i.pageSize slots, [])

/-- Interior and index bundles of all pages. -/
def bundlePlans (pages : List (Nat × Bytes)) : BundlePlans :=
  let interior := pages.filter fun d => isInteriorPage d.1 d.2
  let leaves := pages.filter fun d => !isInteriorPage d.1 d.2 && isIndexLeaf d.1 d.2
  { interior := chunkPlan i.pageSize interior (interior.map (·.1))
    index := chunkPlan i.pageSize leaves (leaves.map (·.1))
    encode := fun aad _ ps => i.cfg.encodeInteriorBundle aad i.pageSize ps }

/-- The manifest of the imported file. -/
def manifest (groups : List (List (Nat × Bytes))) : Manifest :=
  let encoded := groups.zipIdx.map fun g => i.encodeGroup g.2 g.1
  let bundles := publishBundles (some (i.bundlePlans groups.flatten)) i.fileChangeCounter .empty
  ({ version := i.fileChangeCounter
     changeCounter := i.fileChangeCounter
     pageCount := i.pageCount
     pageSize := i.pageSize
     pagesPerGroup := i.pagesPerGroup
     pageGroupKeys := (List.range groups.length).map fun gid =>
       some (.pageGroup gid i.fileChangeCounter)
     interiorChunkKeys := bundles.1.keys
     indexChunkKeys := bundles.2.keys
     frameTables := encoded.map (·.2)
     subPagesPerFrame := i.subPagesPerFrame
     strategy := .bTreeAware
     groupPages := i.groupPagesList
     btrees := i.walk.manifestEntries i.groupPagesList } : Manifest).buildPageIndex

/-- The objects of the import. -/
def uploads (groups : List (List (Nat × Bytes))) : List (ObjectKey × Bytes) :=
  let bundles := publishBundles (some (i.bundlePlans groups.flatten)) i.fileChangeCounter .empty
  groups.zipIdx.map (fun g => (.pageGroup g.2 i.fileChangeCounter, (i.encodeGroup g.2 g.1).1)) ++
    bundles.1.uploads ++ bundles.2.uploads

/-- `import_sqlite_file`. A page size or group size of zero divides by zero, and a file without a
change counter fails the assertion. -/
def importSqliteFile : IoResult (Manifest × Backend) :=
  if i.pageSize = 0 ∨ i.pagesPerGroup = 0 ∨ i.fileChangeCounter = 0 then .error .panic
  else do
    let groups ← i.groupPagesList.mapM i.readGroup
    let b ← (i.backend.putPageGroups (i.uploads groups)).putManifest (i.manifest groups)
    .ok (i.manifest groups, b)

variable {i}

/-- A successful import. -/
theorem importSqliteFile_inv {m : Manifest} {b : Backend} (h : i.importSqliteFile = .ok (m, b)) :
    ∃ groups, i.groupPagesList.mapM i.readGroup = .ok groups ∧ m = i.manifest groups := by
  unfold importSqliteFile at h
  split at h
  · cases h
  · obtain ⟨groups, hg, h⟩ := bind_eq_ok.mp h
    obtain ⟨b', -, h⟩ := bind_eq_ok.mp h
    cases h
    exact ⟨groups, hg, rfl⟩

end ImportInput

end Turbolite
