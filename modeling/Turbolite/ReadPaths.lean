import Turbolite.Storage

/-!
# Turbolite.ReadPaths

How a page that is not cached gets its bytes. `read_exact_at` has three ways (range read of one
frame, download of the whole group, and the local-mode path) and the prefetch worker a fourth; each
finds the page's frame, the frame's override and the page's slot on its own. Every path is written
here as it runs on an empty cache, for a read of one whole page.
-/

namespace Turbolite

open Blocks

namespace Manifest

/-- `has_frames`: the group is in the seekable format. -/
def hasFrames (m : Manifest) (gid : Nat) : Bool :=
  decide (0 < m.subPagesPerFrame) && !(m.frameTable gid).isEmpty

end Manifest

namespace ReadPaths

variable (cfg : CodecConfig)

/-- A page of zeros. -/
def zeroPage (m : Manifest) : Bytes := List.replicate m.pageSize 0

/-- The decoder a group's format calls for, with the length bound the callers pass. -/
def decodeBase (m : Manifest) (gid : Nat) (data : Bytes) : IoResult (Nat × Nat × Bytes) :=
  if m.hasFrames gid then
    cfg.decodePageGroupSeekableFull cfg.dictionary (aadPageGroup gid) data (m.frameTable gid)
      m.pageSize (m.groupPageNums gid).length m.pageCount
  else cfg.decodePageGroupBulk cfg.dictionary (aadPageGroup gid) data

/-! ### Foreground: whole group -/

/-- The pages the full-group path installs. It applies no overrides. -/
def fullGroupInstall (m : Manifest) (b : Backend) (gid : Nat) : IoResult (List (Nat × Bytes)) :=
  match (m.groupKey gid).bind b.getPageGroup with
  | none => .ok []
  | some data => do
    let (_, _, pageData) ← decodeBase cfg m gid data
    let gp := m.groupPageNums gid
    let dataLen := gp.length * m.pageSize
    if gp.length = 0 then .ok []
    else if dataLen ≤ pageData.length then
      .ok (PageMap.scatter m.pageSize gp (pageData.take dataLen))
    else .error (.io .invalidData
      s!"decoded page group gid={gid} too short: need {dataLen} bytes, got {pageData.length}")

/-- Planned-scan and legacy read of a page: download the group, then read the cache. -/
def fullGroupRead (m : Manifest) (b : Backend) (gid p : Nat) : IoResult Bytes := do
  let writes ← fullGroupInstall cfg m b gid
  (PageMap.empty.install writes).readPresent p
    s!"page {p} in group {gid} missing from remote storage"

/-! ### Foreground: one frame -/

/-- What the frame's object is: an override by its own key, or a range of the base object. `none`
when the base object is missing. -/
def fetchFrame (m : Manifest) (b : Backend) (gid frameIdx : Nat) (entry : FrameEntry) :
    IoResult (Option (Bytes × Bytes)) :=
  match (m.overrides gid).lookup frameIdx with
  | some ovr =>
    match b.getPageGroup ovr.key with
    | some data => .ok (some (aadOverrideFrame gid frameIdx, data))
    | none => .error (.io .notFound
        s!"seekable frame object missing for gid={gid} frame={frameIdx}")
  | none =>
    match m.pageGroupKeys[gid]? with
    | none => .error .panic
    | some none => .ok none
    | some (some key) => do
      let data ← b.rangeGet key entry.offset entry.len
      .ok (data.map fun d => (aadPageGroup gid, d))

/-- The bytes of slot `slot` of an opened frame; zeros when the frame is too short. -/
def framePage (m : Manifest) (slot : Nat) (decompressed : Bytes) : Bytes :=
  if (slot + 1) * m.pageSize ≤ decompressed.length then block m.pageSize slot decompressed
  else zeroPage m

/-- The pages the range path installs from an opened frame: none when the frame is short. -/
def frameInstall (m : Manifest) (gid frameIdx : Nat) (decompressed : Bytes) :
    List (Nat × Bytes) :=
  let framePageNums := block m.subPagesPerFrame frameIdx (m.groupPageNums gid)
  let dataLen := framePageNums.length * m.pageSize
  if dataLen ≤ decompressed.length then
    PageMap.scatter m.pageSize framePageNums (decompressed.take dataLen)
  else []

/-- The seekable range read of the page at slot `idx`; `none` falls through to the whole group. -/
def rangeRead (m : Manifest) (b : Backend) (gid idx : Nat) : IoResult (Option Bytes) :=
  let frameIdx := idx / m.subPagesPerFrame
  match (m.frameTable gid)[frameIdx]? with
  | none => .ok none
  | some entry => do
    match ← fetchFrame m b gid frameIdx entry with
    | none => .ok none
    | some (aad, frame) =>
      let decompressed ← cfg.decodeSeekableSubchunk aad frame
      if (m.groupPageNums gid).length < frameIdx * m.subPagesPerFrame then .error .panic
      else .ok (some (framePage m (idx % m.subPagesPerFrame) decompressed))

/-- `read_exact_at` on an empty cache, outside a planned scan. -/
def coldRead (m : Manifest) (b : Backend) (p : Nat) : IoResult Bytes :=
  if m.pageCount ≤ p then .ok (zeroPage m)
  else
    match m.pageLocation p with
    | none => .ok (zeroPage m)
    | some loc =>
      if m.hasFrames loc.groupId then do
        match ← rangeRead cfg m b loc.groupId loc.index with
        | some data => .ok data
        | none => fullGroupRead cfg m b loc.groupId p
      else fullGroupRead cfg m b loc.groupId p

/-- `read_exact_at` on an empty cache inside a planned scan: the range path is skipped. -/
def scanRead (m : Manifest) (b : Backend) (p : Nat) : IoResult Bytes :=
  if m.pageCount ≤ p then .ok (zeroPage m)
  else
    match m.pageLocation p with
    | none => .ok (zeroPage m)
    | some loc => fullGroupRead cfg m b loc.groupId p

/-! ### Local mode -/

/-- One override of the local path. An object that is missing, does not open or is too short is
skipped; a frame that starts past the group's end is a slice out of range. -/
def localOverride (m : Manifest) (b : Backend) (gid : Nat) (c : PageMap) (frameIdx : Nat)
    (ovr : SubframeOverride) : IoResult PageMap :=
  match b.getPageGroup ovr.key with
  | none => .ok c
  | some data =>
    match cfg.decodeSeekableSubchunk (aadOverrideFrame gid frameIdx) data with
    | .error _ => .ok c
    | .ok decompressed =>
      if (m.groupPageNums gid).length < frameIdx * m.subPagesPerFrame then .error .panic
      else .ok (c.install (frameInstall m gid frameIdx decompressed))

/-- The overrides of a group, one after the other, when the manifest has a frame size. -/
def localOverrides (m : Manifest) (b : Backend) (gid : Nat) (c : PageMap) : IoResult PageMap :=
  if 0 < m.subPagesPerFrame then
    (m.overrides gid).entries.foldlM (fun c ov => localOverride cfg m b gid c ov.1 ov.2) c
  else .ok c

/-- The local-mode path: install what the base object covers, then the overrides. -/
def localRead (m : Manifest) (b : Backend) (p : Nat) : IoResult Bytes :=
  if m.pageCount ≤ p then .ok (zeroPage m)
  else
    match m.pageLocation p with
    | none => .ok (zeroPage m)
    | some loc =>
      let gid := loc.groupId
      let message := s!"page {p} not recoverable from local page groups"
      match (m.groupKey gid).bind b.getPageGroup with
      | none => .error (.io .notFound message)
      | some data =>
        match decodeBase cfg m gid data with
        | .error _ => .error (.io .notFound message)
        | .ok (_, _, bulkData) => do
          let c ← localOverrides cfg m b gid (PageMap.empty.install
            (PageMap.scatter m.pageSize (m.groupPageNums gid) bulkData))
          c.readPresent p message

/-! ### Prefetch worker -/

/-- One override of the worker: it must be there, open, cover its frame and fit the buffer. -/
def prefetchOverride (m : Manifest) (b : Backend) (gid pgSize : Nat) (pageData : Bytes)
    (frameIdx : Nat) (ovr : SubframeOverride) : IoResult Bytes :=
  match b.getPageGroup ovr.key with
  | none => .error (.io .notFound s!"override frame {frameIdx} not found")
  | some data => do
    let decompressed ← cfg.decodeSeekableSubchunk (aadOverrideFrame gid frameIdx) data
    let n := (m.groupPageNums gid).length
    let frameStart := frameIdx * m.subPagesPerFrame
    let frameEnd := min (frameStart + m.subPagesPerFrame) n
    if frameEnd < frameStart then .error .panic
    else
      let dataLen := (frameEnd - frameStart) * pgSize
      let destStart := frameStart * pgSize
      if decompressed.length < dataLen ∨ pageData.length < destStart + dataLen then
        .error (.io .invalidData s!"override frame {frameIdx} does not fit")
      else .ok (splice pageData destStart (decompressed.take dataLen))

/-- The worker's overrides, when the job has a frame size. -/
def prefetchOverrides (m : Manifest) (b : Backend) (gid pgSize : Nat) (pageData : Bytes) :
    IoResult Bytes :=
  if 0 < m.subPagesPerFrame then
    (m.overrides gid).entries.foldlM
      (fun d ov => prefetchOverride cfg m b gid pgSize d ov.1 ov.2) pageData
  else .ok pageData

/-- The worker's decode of the base object. It tells the format by the frame table alone. -/
def prefetchDecode (m : Manifest) (gid : Nat) (data : Bytes) : IoResult (Nat × Nat × Bytes) :=
  if m.frameTable gid ≠ [] then
    cfg.decodePageGroupSeekableFull cfg.dictionary (aadPageGroup gid) data (m.frameTable gid)
      m.pageSize (m.groupPageNums gid).length m.pageCount
  else cfg.decodePageGroupBulk cfg.dictionary (aadPageGroup gid) data

/-- The pages a prefetch job installs. -/
def prefetchInstall (m : Manifest) (b : Backend) (gid : Nat) : IoResult (List (Nat × Bytes)) :=
  match (m.groupKey gid).bind b.getPageGroup with
  | none => .error (.io .notFound s!"page group {gid} missing")
  | some data => do
    let (pgCount, pgSize, pageData) ← prefetchDecode cfg m gid data
    let pageData ← prefetchOverrides cfg m b gid pgSize pageData
    let gp := m.groupPageNums gid
    let actualPages := min pgCount gp.length
    .ok (PageMap.scatter m.pageSize (gp.take actualPages) (pageData.take (actualPages * pgSize)))

/-- A page after the worker fetched its group into an empty cache. -/
def prefetchRead (m : Manifest) (b : Backend) (p : Nat) : IoResult Bytes :=
  if m.pageCount ≤ p then .ok (zeroPage m)
  else
    match m.pageLocation p with
    | none => .ok (zeroPage m)
    | some loc => do
      let writes ← prefetchInstall cfg m b loc.groupId
      (PageMap.empty.install writes).readPresent p
        s!"page {p} in group {loc.groupId} missing from remote storage"

end ReadPaths

end Turbolite
