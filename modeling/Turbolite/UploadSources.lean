import Turbolite.Flush
import Turbolite.Sync

/-!
# Turbolite.UploadSources

When a flush and a durable sync find a source for every page they write. Both take a page from the
local copy, else from the base object of its group. The flush fetches with the dictionary and wants the
object to cover the whole group, whatever it needs of it; the sync fetches without the dictionary and
takes what is there. Neither looks at the overrides of the group.
-/

namespace Turbolite

open Blocks Results ReadPaths

/-! ### Rewriting a group -/

section

variable {cfg : CodecConfig} {m : Manifest} {source : PageMap} {gid : Nat}

/-- A base object covers its whole group, and the group its frames. -/
def BaseWhole (m : Manifest) (gid : Nat) (ct : GroupContent) : Prop :=
  (m.groupPageNums gid).length ≤ m.pageCount ∧ (m.groupPageNums gid).length ≤ ct.base.length ∧
    min m.subPagesPerFrame ct.base.length ≤ (m.groupPageNums gid).length

end

/-! ### The base object of a flush -/

namespace FlushInput

variable {i : FlushInput} {gid : Nat} {ct : GroupContent}

/-- The base object has what the group needs of it. -/
def BaseServes (i : FlushInput) (staged : HMap Nat Bytes) (gid : Nat) (ct : GroupContent) : Prop :=
  (i.manifest.groupKey gid).isSome ∧
    if i.manifest.hasFrames gid then BaseWhole i.manifest gid ct
    else ∀ j p : Nat, (liveSlots i.manifest gid)[j]? = some p →
      (i.source staged p).isSome ∨ j < ct.base.length

/-- When the flush finds its pages for a dirty group. A group that is rewritten takes every page from
staging or the cache, or has a base object that serves; a group whose dirty frames become overrides
needs its base object, and then the whole of it, when a page of one of these frames is not local. -/
def Ready (i : FlushInput) (staged : HMap Nat Bytes) (ct : Nat → GroupContent) (gid : Nat) : Prop :=
  if i.useOverride staged gid then
    i.needsBase staged gid = true → BaseWhole i.manifest gid (ct gid)
  else LocalPages i.manifest (i.source staged) gid ∨ i.BaseServes staged gid (ct gid)

section

variable {staged : HMap Nat Bytes} {ct : Nat → GroupContent}

end

end FlushInput

/-! ### The base object of a sync -/

section

variable {cfg : CodecConfig} {m : Manifest} {b : Backend} {gid : Nat}

/-- The object of a group holds `base` for a reader without a dictionary. -/
def OpensPlain (cfg : CodecConfig) (m : Manifest) (b : Backend) (gid : Nat) (base : List Bytes) : Prop :=
  ∃ key data, m.groupKey gid = some key ∧ b.objects key = some data ∧
    (m.hasFrames gid = true → ({ cfg with dictionary := none } : CodecConfig).HoldsSeekable
      (aadPageGroup gid) data (m.frameTable gid) m.pageSize m.subPagesPerFrame base) ∧
    (m.hasFrames gid = false → ({ cfg with dictionary := none } : CodecConfig).HoldsLegacy
      (aadPageGroup gid) data m.pageSize base)

end

namespace SyncInput

variable {i : SyncInput} {ct : Nat → GroupContent} {gid : Nat}

/-! ### One group of a sync -/

/-- When the sync finds its pages for a group: they are cached, or the existing object opens without a
dictionary and has the pages that are not. -/
def Ready (i : SyncInput) (ct : Nat → GroupContent) (gid : Nat) : Prop :=
  LocalPages i.snap i.cache.page gid ∨
    (OpensPlain i.cfg i.snap i.backend gid (ct gid).base ∧ FitsCap i.snap gid (ct gid).base ∧
      Merges i.snap i.cache.page gid (ct gid).base)

end SyncInput

/-! ### Both -/

namespace UploadSources.Example

/-- The example database after a checkpoint added page 2 to the group. -/
def grown : Manifest :=
  { ReadPaths.Example.manifest with
    pageCount := 3
    pagesPerGroup := 4
    groupPages := [[0, 1, 2]]
    pageIndex := Manifest.pageIndexOf [[0, 1, 2]] }

/-- The log of that checkpoint. -/
def log : StagingLog where
  version := 5
  pageSize := 512
  records := [(2, ReadPaths.Example.page 7)]

/-- A flush of a log that has page 2. -/
def flush : FlushInput :=
  { FlushInput.Example.input 3 with
    manifest := grown
    cache := ReadPaths.Example.firstPage 7
    dir := AList.insert 5 log ∅ }

/-- A codec that marks what was compressed with a dictionary. -/
def marked : Codecs where
  compress d x := (if d.isSome then 1 else 0) :: x
  decompress d x :=
    match x with
    | [] => none
    | b :: x => if b = 0 ∨ d.isSome then some x else none
  encrypt _ _ x := x
  decrypt _ _ x := some x

/-- A handle with a dictionary. -/
def cfg : CodecConfig := { codecs := marked, dictionary := some [1] }

/-- Pages 0 and 1, one page a frame. -/
def group : Bytes × List FrameEntry :=
  cfg.encodePageGroupSeekable (aadPageGroup 0) 512 1
    [some (ReadPaths.Example.page 1), some (ReadPaths.Example.page 2)]

/-- The manifest of a group in frames. -/
def compressed : Manifest :=
  { ReadPaths.Example.manifest with
    version := 1
    frameTables := [group.2]
    subframeOverrides := [] }

/-- The store that holds the group. -/
def backend : Backend where
  objects := fun
    | .pageGroup 0 1 => some group.1
    | _ => none

/-- The pages of the group as they are decoded. -/
def content : Nat → GroupContent := fun _ =>
  { base := [some (ReadPaths.Example.page 1), some (ReadPaths.Example.page 2)].map
      (CodecConfig.padPage 512)
    overFrames := fun _ => none }

/-- Page 0 was written; page 1 is not cached. -/
def sync : SyncInput :=
  { SyncInput.Example.input 2 with
    cfg := cfg
    manifest := compressed
    cache := ReadPaths.Example.firstPage 7
    backend := backend }

end UploadSources.Example

end Turbolite
