import Mathlib.Data.List.Dedup
import Turbolite.Writers

/-!
# Turbolite.Bundles

What flush and sync read off the page bytes themselves: the file change counter of page 0, which
bounds the replay cursor, and the B-tree page types, which decide what goes into the interior and
index bundles.
-/

namespace Turbolite

open Blocks

/-! ### Page 0 -/

/-- Four big-endian bytes at an offset. -/
def beU32At (page : Bytes) (offset : Nat) : Nat := ofBeBytes ((page.drop offset).take 4)

theorem ofBeBytes_lt (bytes : Bytes) : ofBeBytes bytes < 256 ^ bytes.length := by
  have hgen : ∀ (bs : Bytes) (n : Nat),
      bs.foldl (fun n x => n * 256 + x.toNat) n < (n + 1) * 256 ^ bs.length := by
    intro bs
    induction bs with
    | nil => intro n; simp
    | cons x bs ih =>
      intro n
      refine lt_of_lt_of_le (ih (n * 256 + x.toNat)) ?_
      rw [List.length_cons, pow_succ', ← mul_assoc]
      refine Nat.mul_le_mul_right _ ?_
      have hx := x.toNat_lt
      omega
  have hlt := hgen bytes 0
  rw [zero_add, one_mul] at hlt
  exact hlt

/-- At most `w` bytes make a number below `256 ^ w`. -/
theorem ofBeBytes_take_lt (bytes : Bytes) (w : Nat) : ofBeBytes (bytes.take w) < 256 ^ w := by
  refine lt_of_lt_of_le (ofBeBytes_lt _) (Nat.pow_le_pow_right (by decide) ?_)
  rw [List.length_take]
  exact min_le_left _ _

theorem beU32At_lt (page : Bytes) (offset : Nat) : beU32At page offset < 2 ^ 32 :=
  lt_of_lt_of_eq (ofBeBytes_take_lt _ 4) (by decide)

/-- `read_file_change_counter`. -/
def readFileChangeCounter (page0 : Bytes) : Nat :=
  if page0.length < 28 then 0 else beU32At page0 24

/-- `SQLITE_DB_HEADER_LEN`. -/
def sqliteDbHeaderLen : Nat := 100

/-- `validate_replay_cursor_page0`. -/
def validateReplayCursorPage0 (cacheCounter manifestCounter : Nat) (cachePage0 : Bytes)
    (manifestPage0 : Option Bytes) : IoResult Unit :=
  if cacheCounter = 0 ∧ manifestCounter = 0 then
    .error (.io .invalidData "file change counter must be > 0 at checkpoint/flush time")
  else if manifestCounter ≤ cacheCounter then .ok ()
  else
    match manifestPage0 with
    | none => .ok ()
    | some page0 =>
      let compareLen := min (min sqliteDbHeaderLen cachePage0.length) page0.length
      if compareLen < sqliteDbHeaderLen then .ok ()
      else if cachePage0.take compareLen ≠ page0.take compareLen then
        .error (.io .invalidData s!"local cache page 0 does not match manifest replay base while file change counter lags replay cursor (cache={cacheCounter}, manifest={manifestCounter})")
      else .ok ()

/-- `resolve_manifest_replay_cursor`. -/
def resolveManifestReplayCursor {ps : Nat} (cache : DiskCache ps) (m : Manifest) : IoResult Nat := do
  let page0 ← cache.readPage 0
  let cacheCounter := readFileChangeCounter page0
  validateReplayCursorPage0 cacheCounter m.changeCounter page0 m.dbHeader
  .ok (max cacheCounter m.changeCounter)

/-! ### B-tree pages -/

/-- Where the B-tree header of a page starts. -/
def btreeHeaderOffset (pageNum : Nat) : Nat := if pageNum = 0 then 100 else 0

/-- Interior table or interior index page. -/
def isInteriorPage (pageNum : Nat) (page : Bytes) : Bool :=
  match page[btreeHeaderOffset pageNum]? with
  | some b => b = 0x05 || b = 0x02
  | none => false

/-- `is_valid_btree_page`. -/
def isValidBtreePage (page : Bytes) (hdrOffset : Nat) : Bool :=
  if page.length < hdrOffset + 8 then false
  else
    let cellCount := ofBeBytes ((page.drop (hdrOffset + 3)).take 2)
    let contentArea := ofBeBytes ((page.drop (hdrOffset + 5)).take 2)
    let fragBytes := ofBeBytes ((page.drop (hdrOffset + 7)).take 1)
    let minContentOffset := hdrOffset + 8 + 2 * cellCount
    decide (cellCount ≠ 0) && decide (cellCount ≤ 10000) &&
      (decide (contentArea = 0) ||
        (decide (minContentOffset ≤ contentArea) && decide (contentArea ≤ page.length))) &&
      decide (fragBytes ≤ 128)

/-- Index leaf page, and not an overflow page that starts with the same byte. -/
def isIndexLeaf (pageNum : Nat) (page : Bytes) : Bool :=
  let hdrOffset := btreeHeaderOffset pageNum
  decide (page[hdrOffset]? = some 0x0A) && isValidBtreePage page hdrOffset

/-! ### Chunks -/

/-- `bundle_chunk_range`. -/
def bundleChunkRange (pageSize : Nat) : Nat := 32 * 1024 * 1024 / pageSize

/-- Group pages by chunk and sort each chunk by page number. -/
def chunkPlan (pageSize : Nat) (pages : List (Nat × Bytes)) (dirty : List Nat) : ChunkPlan where
  chunks := (pages.map fun p => p.1 / bundleChunkRange pageSize).dedup.map fun c =>
    (c, (pages.filter fun p => p.1 / bundleChunkRange pageSize = c).insertionSort
      fun x y => x.1 ≤ y.1)
  dirty := dirty.map (· / bundleChunkRange pageSize)
  nodup := by
    rw [List.map_map]
    simpa [Function.comp_def] using List.nodup_dedup _

/-- Pages with their bytes, those that cannot be read left out. -/
def readable (source : PageMap) (pages : List Nat) : List (Nat × Bytes) :=
  pages.filterMap fun p => (source p).map (p, ·)

end Turbolite
