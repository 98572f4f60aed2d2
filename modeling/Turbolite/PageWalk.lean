import Turbolite.BTreeWalker
import Turbolite.Lib.Checked
import Turbolite.Lib.Search

/-!
# Turbolite.PageWalk

`walk_all_btrees` over any `read_page`, with the checks of a debug build: an addition or subtraction that
does not fit in 64 bits and an access outside a page are failures. `Turbolite.WalkAgreement` compares it
with the release build.

The walk of one tree is a search of the graph of its pages (`walkBtree_eq_search`), the recursion over
`sqlite_master` is one without chains. What a leaf page and a schema cell have to say for the arithmetic on
them to fit is `PageFits` and `MasterCellFits`.
-/

namespace Turbolite

open Blocks Results

namespace PageWalk

open BTreeWalker (cellOffsets cellCount beU16At readVarint serialTypeSize signExtend MasterEntry)
open Search (State)

/-- How a walk fails. -/
inductive WalkError where
  | overflow
  | outOfBounds
  /-- not done yet -/
  | running
  deriving DecidableEq, Repr

/-- A computation of a debug build. -/
abbrev WalkResult := Except WalkError

/-- The computation overflows exactly without `p`. -/
abbrev Fits {α : Type} (x : WalkResult α) (p : Prop) : Prop := OkIff .overflow x p

/-! ### Arithmetic and reads -/

/-- `a + b`. -/
def add (a b : Nat) : WalkResult Nat := Checked.orFail .overflow (Checked.add? 64 a b)

/-- `a - b`. -/
def sub (a b : Nat) : WalkResult Nat := Checked.orFail .overflow (Checked.sub? a b)

/-- `a * b`. -/
def mul (a b : Nat) : WalkResult Nat := Checked.orFail .overflow (Checked.mul? 64 a b)

/-- `buf[i]`. -/
def byteAt (buf : Bytes) (i : Nat) : WalkResult UInt8 := Checked.orFail .outOfBounds buf[i]?

/-- `&buf[start..stop]`. -/
def slice (buf : Bytes) (start stop : Nat) : WalkResult Bytes :=
  Checked.orFail .outOfBounds (Checked.slice? buf start stop)

/-- Two bytes, big-endian. -/
def u16At (buf : Bytes) (i : Nat) : WalkResult Nat := do
  let bytes ← slice buf i (i + 2)
  .ok (ofBeBytes bytes)

/-- Four bytes, big-endian. -/
def u32At (buf : Bytes) (i : Nat) : WalkResult Nat := do
  let bytes ← slice buf i (i + 4)
  .ok (ofBeBytes bytes)

/-- `read_varint` of the bytes from `pos` on. -/
def varintAt (buf : Bytes) (pos : Nat) : WalkResult (Nat × Nat) := do
  let bytes ← slice buf pos buf.length
  .ok (readVarint bytes)

section

variable {buf : Bytes} {a b i : Nat}

theorem add_of_lt (h : a + b < 2 ^ 64) : add a b = .ok (a + b) := by
  rw [add, Checked.add?_of_lt h]
  rfl

theorem add_of_le (h : 2 ^ 64 ≤ a + b) : add a b = .error .overflow := by
  rw [add, Checked.add?, if_neg (Nat.not_lt.mpr h)]
  rfl

theorem sub_of_le (h : b ≤ a) : sub a b = .ok (a - b) := by
  rw [sub, Checked.sub?, if_pos h]
  rfl

theorem sub_of_lt (h : a < b) : sub a b = .error .overflow := by
  rw [sub, Checked.sub?, if_neg (Nat.not_le.mpr h)]
  rfl

theorem mul_of_lt (h : a * b < 2 ^ 64) : mul a b = .ok (a * b) := by
  rw [mul, Checked.mul?_of_lt h]
  rfl

theorem slice_add {n : Nat} (h : i + n ≤ buf.length) :
    slice buf i (i + n) = .ok ((buf.drop i).take n) := by
  rw [slice, Checked.slice?_add h]
  rfl

theorem u16At_of_le (h : i + 2 ≤ buf.length) : u16At buf i = .ok (beU16At buf i) := by
  rw [u16At, slice_add h]
  rfl

theorem u32At_of_le (h : i + 4 ≤ buf.length) : u32At buf i = .ok (beU32At buf i) := by
  rw [u32At, slice_add h]
  rfl

theorem u32At_lt {n : Nat} (h : u32At buf i = .ok n) : n < 2 ^ 32 := by
  obtain ⟨bytes, hbytes, h⟩ := bind_eq_ok.mp h
  cases h
  unfold slice Checked.slice? at hbytes
  split at hbytes
  · cases hbytes
    rw [Nat.add_sub_cancel_left]
    exact lt_of_lt_of_eq (ofBeBytes_take_lt _ 4) (by decide)
  · cases hbytes

theorem varintAt_of_le (h : i ≤ buf.length) : varintAt buf i = .ok (readVarint (buf.drop i)) := by
  rw [varintAt, slice, Checked.slice?_of_le h (Nat.le_refl _), ← List.length_drop, List.take_length]
  rfl

theorem byteAt_of_lt (h : i < buf.length) : byteAt buf i = .ok buf[i] := by
  rw [byteAt, List.getElem?_eq_getElem h]
  rfl

theorem beU16At_lt (buf : Bytes) (i : Nat) : beU16At buf i < 2 ^ 16 :=
  lt_of_lt_of_eq (ofBeBytes_take_lt _ 2) (by decide)

/-- A varint takes at most nine bytes, all of them in the buffer. -/
theorem readVarint_length (buf : Bytes) : (readVarint buf).2 ≤ 9 ∧ (readVarint buf).2 ≤ buf.length := by
  have hgo : ∀ (n val i : Nat) (bs : Bytes), (readVarint.go n val i bs).2 ≤ i + n + 1 ∧
      (readVarint.go n val i bs).2 ≤ i + bs.length := by
    intro n val i bs
    induction bs generalizing n val i with
    | nil =>
      have hnil : (readVarint.go n val i []).2 = i := by
        cases n with
        | zero => rfl
        | succ n => rfl
      rw [hnil]
      constructor
      · omega
      · exact Nat.le_add_right ..
    | cons b bs ih =>
      rw [List.length_cons]
      cases n with
      | zero =>
        rw [readVarint.go]
        constructor
        · omega
        · omega
      | succ n =>
        rw [readVarint.go]
        split
        · constructor
          · omega
          · omega
        · obtain ⟨h₁, h₂⟩ := ih n (val * 128 + b.toNat % 128) (i + 1)
          constructor
          · omega
          · omega
  have h := hgo 8 0 0 buf
  rw [readVarint]
  omega

end

/-! ### Cells -/

/-- `for i in 0..cell_count`: what the cells at the pointers give; the loop stops at the end of the page. -/
def cellLoop {α : Type} (buf : Bytes) (start : Nat) (cell : Nat → WalkResult (Option α)) :
    List Nat → WalkResult (List α)
  | [] => .ok []
  | i :: is => do
    let ptrOff ← add start (i * 2)
    let stop ← add ptrOff 2
    if buf.length < stop then .ok []
    else do
      let cellOff ← u16At buf ptrOff
      let r ← cell cellOff
      let rs ← cellLoop buf start cell is
      .ok (r.toList ++ rs)

/-- `extract_interior_children`. -/
def extractInteriorChildren (buf : Bytes) (hdrOff : Nat) : WalkResult (List Nat) :=
  if buf.length < hdrOff + 12 then .ok []
  else do
    let cellCount ← u16At buf (hdrOff + 3)
    let maxCells := (buf.length - (hdrOff + 12)) / 2
    let rightChild ← u32At buf (hdrOff + 8)
    let leftChildren ← cellLoop buf (hdrOff + 12) (fun cellOff => do
      let stop ← add cellOff 4
      if buf.length < stop then .ok none
      else do
        let leftChild ← u32At buf cellOff
        .ok (some leftChild)) (List.range (min cellCount maxCells))
    .ok (rightChild :: leftChildren)

section

variable {α : Type} {buf : Bytes} {start count hdrOff : Nat} {cell : Nat → WalkResult (Option α)}

theorem cellLoop_eq {is : List Nat} (h : ∀ i ∈ is, start + i * 2 + 2 < 2 ^ 64) :
    cellLoop buf start cell is =
      (((is.takeWhile fun i => start + i * 2 + 2 ≤ buf.length).map fun i =>
        beU16At buf (start + i * 2)).mapM cell >>= fun rs => .ok (rs.filterMap id)) := by
  induction is with
  | nil => rfl
  | cons i is ih =>
    have hi := h i (List.mem_cons_self ..)
    have hrest := ih fun j hj => h j (List.mem_cons_of_mem i hj)
    rw [cellLoop, add_of_lt (by omega), ok_bind, add_of_lt hi, ok_bind]
    by_cases hlen : start + i * 2 + 2 ≤ buf.length
    · rw [if_neg (Nat.not_lt.mpr hlen), u16At_of_le hlen, ok_bind, hrest,
        List.takeWhile_cons_of_pos (by simpa using hlen), List.map_cons, List.mapM_cons]
      cases cell (beU16At buf (start + i * 2)) with
      | error e => rfl
      | ok r =>
        simp only [ok_bind]
        cases List.mapM cell ((is.takeWhile fun i => start + i * 2 + 2 ≤ buf.length).map fun i =>
          beU16At buf (start + i * 2)) with
        | error e => rfl
        | ok rs =>
          cases r with
          | none => rfl
          | some a => rfl
    · rw [if_pos (Nat.not_le.mp hlen), List.takeWhile_cons_of_neg (by simpa using hlen)]
      rfl

theorem cellLoop_range (hstart : start ≤ 2 ^ 16) (hcount : count ≤ 2 ^ 16) :
    cellLoop buf start cell (List.range count) =
      ((cellOffsets buf start count).mapM cell >>= fun rs => .ok (rs.filterMap id)) := by
  apply cellLoop_eq
  intro i hi
  have hlt := List.mem_range.mp hi
  omega

theorem lt_of_mem_cellOffsets {off : Nat} (h : off ∈ cellOffsets buf start count) : off < 2 ^ 16 := by
  obtain ⟨i, -, rfl⟩ := List.mem_map.mp h
  exact beU16At_lt ..

/-- On the header of a page the interior cells need no check. -/
theorem extractInteriorChildren_eq (hhdr : hdrOff ≤ 100) :
    extractInteriorChildren buf hdrOff = .ok (BTreeWalker.extractInteriorChildren buf hdrOff) := by
  unfold extractInteriorChildren BTreeWalker.extractInteriorChildren
  split
  · rfl
  · rename_i hlen
    have hcount : min (cellCount buf hdrOff) ((buf.length - (hdrOff + 12)) / 2) ≤ 2 ^ 16 :=
      (Nat.min_le_left _ _).trans (Nat.le_of_lt (beU16At_lt ..))
    rw [u16At_of_le (by omega), ok_bind, u32At_of_le (by omega), ok_bind]
    show (cellLoop buf (hdrOff + 12) _ (List.range (min (cellCount buf hdrOff) _)) >>= _) = _
    rw [cellLoop_range (by omega) hcount]
    -- a cell that is cut off gives nothing
    have hcells : ∀ offs : List Nat, (∀ off ∈ offs, off < 2 ^ 16) → (offs.mapM fun cellOff => do
        let stop ← add cellOff 4
        if buf.length < stop then .ok none
        else do
          let leftChild ← u32At buf cellOff
          .ok (some leftChild)) =
        .ok (offs.map fun off => if off + 4 ≤ buf.length then some (beU32At buf off) else none) := by
      intro offs hoffs
      rw [mapM_eq_ok, List.map_map]
      apply List.map_congr_left
      intro off hoff
      have hlt := hoffs off hoff
      rw [add_of_lt (by omega), ok_bind]
      by_cases hle : off + 4 ≤ buf.length
      · rw [if_neg (Nat.not_lt.mpr hle), u32At_of_le hle]
        simp [hle]
      · rw [if_pos (Nat.not_le.mp hle)]
        simp [hle]
    rw [hcells _ fun off hoff => lt_of_mem_cellOffsets hoff, ok_bind, ok_bind, List.filterMap_map]
    congr 2
    rw [← List.filterMap_eq_map, List.filterMap_filter]
    simp

end

/-- What a leaf cell keeps on its page. -/
def maxLocal (pageSize : Nat) (isTable : Bool) : WalkResult Nat :=
  if isTable then sub pageSize 35
  else do
    let n ← sub pageSize 12
    let n ← mul n 64
    sub (n / 255) 23

/-- `local_size` of a payload that overflows. -/
def localSize (pageSize payloadSize maxLocal : Nat) : WalkResult Nat := do
  let n ← sub pageSize 12
  let n ← mul n 32
  let minLocal ← sub (n / 255) 23
  let rest ← sub payloadSize minLocal
  let divisor ← sub pageSize 4
  let surplus ← add minLocal (rest % divisor)
  .ok (if surplus ≤ maxLocal then surplus else minLocal)

/-- The first overflow page of a leaf cell whose payload starts at `pos`, 1-based; `none` when the cell is
whole. -/
def overflowPtr (buf : Bytes) (pageSize maxLocal payloadSize pos : Nat) : WalkResult (Option Nat) :=
  if payloadSize ≤ maxLocal then .ok none
  else do
    let size ← localSize pageSize payloadSize maxLocal
    let ovflPtrOff ← add pos size
    let stop ← add ovflPtrOff 4
    if buf.length < stop then .ok none
    else do
      let ovfl ← u32At buf ovflPtrOff
      .ok (if ovfl = 0 then none else some ovfl)

/-- One leaf cell; that of a table has a rowid before its payload. -/
def cellOverflow (buf : Bytes) (pageSize : Nat) (isTable : Bool) (maxLocal cellOff : Nat) :
    WalkResult (Option Nat) :=
  if buf.length ≤ cellOff then .ok none
  else do
    let (payloadSize, n) ← varintAt buf cellOff
    let pos ← add cellOff n
    let n ← if isTable then (varintAt buf pos).map (·.2) else .ok 0
    let pos ← add pos n
    overflowPtr buf pageSize maxLocal payloadSize pos

/-- `extract_leaf_overflow_pages`. -/
def extractLeafOverflowPages (buf : Bytes) (hdrOff pageSize : Nat) (isTable : Bool) :
    WalkResult (List Nat) :=
  if buf.length < hdrOff + 8 then .ok []
  else do
    let cellCount ← u16At buf (hdrOff + 3)
    let maxLocal ← maxLocal pageSize isTable
    cellLoop buf (hdrOff + 8) (cellOverflow buf pageSize isTable maxLocal) (List.range cellCount)

section

variable {buf : Bytes} {pageSize payload hdrOff off : Nat} {isTable : Bool}

/-- The smallest page of a leaf for which `max_local` does not underflow. -/
def minPageSize (isTable : Bool) : Nat := if isTable then 35 else 104

/-- `max_local` of a page that is large enough. -/
def localMax (pageSize : Nat) (isTable : Bool) : Nat :=
  if isTable then pageSize - 35 else (pageSize - 12) * 64 / 255 - 23

theorem maxLocal_of_le (hsize : pageSize < 2 ^ 32) (h : minPageSize isTable ≤ pageSize) :
    maxLocal pageSize isTable = .ok (localMax pageSize isTable) := by
  cases isTable with
  | true => exact sub_of_le h
  | false =>
    have h : 104 ≤ pageSize := h
    show (sub pageSize 12 >>= fun n => mul n 64 >>= fun n => sub (n / 255) 23) = _
    rw [sub_of_le (by omega), ok_bind, mul_of_lt (by omega), ok_bind, sub_of_le (by omega)]
    rfl

theorem maxLocal_of_lt (h : pageSize < minPageSize isTable) :
    maxLocal pageSize isTable = .error .overflow := by
  cases isTable with
  | true => exact sub_of_lt h
  | false =>
    have h : pageSize < 104 := h
    show (sub pageSize 12 >>= fun n => mul n 64 >>= fun n => sub (n / 255) 23) = _
    by_cases h12 : 12 ≤ pageSize
    · rw [sub_of_le h12, ok_bind, mul_of_lt (by omega), ok_bind, sub_of_lt (by omega)]
    · rw [sub_of_lt (Nat.not_le.mp h12), error_bind]

/-- `min_local` fits from 196 bytes on, and then the local part is no larger than a whole cell. -/
theorem localSize_of_le (hsize : pageSize < 2 ^ 32) (h : 196 ≤ pageSize)
    (hp : localMax pageSize isTable < payload) :
    ∃ n ≤ localMax pageSize isTable,
      localSize pageSize payload (localMax pageSize isTable) = .ok n := by
  have hmin : (pageSize - 12) * 32 / 255 - 23 ≤ localMax pageSize isTable := by
    cases isTable with
    | true =>
      show _ ≤ pageSize - 35
      omega
    | false =>
      show _ ≤ (pageSize - 12) * 64 / 255 - 23
      omega
  have hmod := Nat.mod_lt (payload - ((pageSize - 12) * 32 / 255 - 23))
    (show 0 < pageSize - 4 by omega)
  unfold localSize
  rw [sub_of_le (by omega), ok_bind, mul_of_lt (by omega), ok_bind, sub_of_le (by omega), ok_bind,
    sub_of_le (by omega), ok_bind, sub_of_le (by omega), ok_bind, add_of_lt (by omega), ok_bind]
  refine ⟨_, ?_, rfl⟩
  split
  · assumption
  · exact hmin

theorem localSize_of_lt (h : pageSize < 196) (maxLocal : Nat) :
    localSize pageSize payload maxLocal = .error .overflow := by
  unfold localSize
  by_cases h12 : 12 ≤ pageSize
  · rw [sub_of_le h12, ok_bind, mul_of_lt (by omega), ok_bind, sub_of_lt (by omega), error_bind]
  · rw [sub_of_lt (Nat.not_le.mp h12), error_bind]

theorem localMax_lt (isTable : Bool) (hsize : pageSize < 2 ^ 32) : localMax pageSize isTable < 2 ^ 32 := by
  cases isTable with
  | true =>
    show pageSize - 35 < 2 ^ 32
    omega
  | false =>
    show (pageSize - 12) * 64 / 255 - 23 < 2 ^ 32
    omega

/-- `payload_size` of the leaf cell at `off`. -/
def payloadSize (buf : Bytes) (off : Nat) : Nat := (readVarint (buf.drop off)).1

theorem cellOverflow_eq (hoff : off < 2 ^ 16) (hlt : off < buf.length) (pageSize : Nat) (isTable : Bool)
    (maxLocal : Nat) :
    ∃ pos < 2 ^ 17, cellOverflow buf pageSize isTable maxLocal off =
      overflowPtr buf pageSize maxLocal (payloadSize buf off) pos := by
  obtain ⟨h9, hin⟩ := readVarint_length (buf.drop off)
  rw [List.length_drop] at hin
  unfold cellOverflow
  rw [if_neg (Nat.not_le.mpr hlt), varintAt_of_le (Nat.le_of_lt hlt), ok_bind]
  dsimp only
  rw [add_of_lt (by omega), ok_bind]
  cases isTable with
  | true =>
    obtain ⟨h9', -⟩ := readVarint_length (buf.drop (off + (readVarint (buf.drop off)).2))
    refine ⟨off + (readVarint (buf.drop off)).2 +
      (readVarint (buf.drop (off + (readVarint (buf.drop off)).2))).2, by omega, ?_⟩
    rw [if_pos rfl, varintAt_of_le (by omega)]
    show (Except.ok (readVarint (buf.drop (off + (readVarint (buf.drop off)).2))).2 >>= _) = _
    rw [ok_bind, add_of_lt (by omega), ok_bind]
    rfl
  | false =>
    refine ⟨off + (readVarint (buf.drop off)).2 + 0, by omega, ?_⟩
    show (Except.ok 0 >>= _) = _
    rw [ok_bind, add_of_lt (by omega), ok_bind]
    rfl

theorem overflowPtr_fits {pos : Nat} (hsize : pageSize < 2 ^ 32) (hpos : pos < 2 ^ 17) :
    Fits (overflowPtr buf pageSize (localMax pageSize isTable) payload pos)
      (localMax pageSize isTable < payload → 196 ≤ pageSize) := by
  unfold overflowPtr
  by_cases hp : payload ≤ localMax pageSize isTable
  · rw [if_pos hp]
    exact .of_ok none fun hgt => absurd hp (Nat.not_le.mpr hgt)
  · rw [if_neg hp]
    have hgt := Nat.not_le.mp hp
    by_cases h196 : 196 ≤ pageSize
    · obtain ⟨n, hn, hlocal⟩ := localSize_of_le hsize h196 hgt
      have hmax := localMax_lt isTable hsize
      rw [hlocal, ok_bind, add_of_lt (by omega), ok_bind, add_of_lt (by omega), ok_bind]
      split
      · exact .of_ok none fun _ => h196
      · rename_i hin
        rw [u32At_of_le (Nat.not_lt.mp hin), ok_bind]
        exact .of_ok _ fun _ => h196
    · rw [localSize_of_lt (Nat.not_le.mp h196), error_bind]
      exact .of_error fun h => h196 (h hgt)

theorem overflowPtr_lt {maxLocal pos o : Nat}
    (h : overflowPtr buf pageSize maxLocal payload pos = .ok (some o)) : o < 2 ^ 32 := by
  unfold overflowPtr at h
  split at h
  · cases h
  · obtain ⟨size, -, h⟩ := bind_eq_ok.mp h
    obtain ⟨ovflPtrOff, -, h⟩ := bind_eq_ok.mp h
    obtain ⟨stop, -, h⟩ := bind_eq_ok.mp h
    split at h
    · cases h
    · obtain ⟨ovfl, hovfl, h⟩ := bind_eq_ok.mp h
      split at h
      · cases h
      · cases h
        exact u32At_lt hovfl

theorem cellOverflow_fits (hsize : pageSize < 2 ^ 32) (hoff : off < 2 ^ 16) :
    Fits (cellOverflow buf pageSize isTable (localMax pageSize isTable) off)
      (off < buf.length → localMax pageSize isTable < payloadSize buf off → 196 ≤ pageSize) := by
  by_cases hlt : off < buf.length
  · obtain ⟨pos, hpos, heq⟩ := cellOverflow_eq hoff hlt pageSize isTable (localMax pageSize isTable)
    rw [heq]
    exact (overflowPtr_fits hsize hpos).congr ⟨fun h _ => h, fun h => h hlt⟩
  · rw [cellOverflow, if_pos (Nat.not_lt.mp hlt)]
    exact .of_ok none fun h => absurd h hlt

theorem cellOverflow_lt (hoff : off < 2 ^ 16) {maxLocal o : Nat}
    (h : cellOverflow buf pageSize isTable maxLocal off = .ok (some o)) : o < 2 ^ 32 := by
  by_cases hlt : off < buf.length
  · obtain ⟨pos, -, heq⟩ := cellOverflow_eq hoff hlt pageSize isTable maxLocal
    rw [heq] at h
    exact overflowPtr_lt h
  · rw [cellOverflow, if_pos (Nat.not_lt.mp hlt)] at h
    cases h

/-- The arithmetic on the cells of a leaf fits. -/
def LeafFits (pageSize : Nat) (buf : Bytes) (hdrOff : Nat) (isTable : Bool) : Prop :=
  minPageSize isTable ≤ pageSize ∧
    ∀ off ∈ cellOffsets buf (hdrOff + 8) (cellCount buf hdrOff), off < buf.length →
      localMax pageSize isTable < payloadSize buf off → 196 ≤ pageSize

theorem extractLeafOverflowPages_fits (hsize : pageSize < 2 ^ 32) (hhdr : hdrOff ≤ 100)
    (hlen : hdrOff + 8 ≤ buf.length) :
    Fits (extractLeafOverflowPages buf hdrOff pageSize isTable) (LeafFits pageSize buf hdrOff isTable) := by
  unfold extractLeafOverflowPages
  rw [if_neg (Nat.not_lt.mpr hlen), u16At_of_le (by omega), ok_bind]
  by_cases hmin : minPageSize isTable ≤ pageSize
  · rw [maxLocal_of_le hsize hmin, ok_bind,
      cellLoop_range (by omega) (Nat.le_of_lt (beU16At_lt buf (hdrOff + 3)))]
    have hcells : Fits ((cellOffsets buf (hdrOff + 8) (cellCount buf hdrOff)).mapM
        (cellOverflow buf pageSize isTable (localMax pageSize isTable))) _ :=
      .mapM fun off hoff => cellOverflow_fits hsize (lt_of_mem_cellOffsets hoff)
    refine (hcells.bind fun rs => ⟨rs.filterMap id, rfl⟩).congr ?_
    exact ⟨fun h => ⟨hmin, h⟩, fun h => h.2⟩
  · rw [maxLocal_of_lt (Nat.not_le.mp hmin), error_bind]
    exact .of_error fun hfits => hmin hfits.1

theorem lt_of_mem_extractLeafOverflowPages (hhdr : hdrOff ≤ 100) {firsts : List Nat}
    (h : extractLeafOverflowPages buf hdrOff pageSize isTable = .ok firsts) :
    ∀ o ∈ firsts, o < 2 ^ 32 := by
  intro o ho
  unfold extractLeafOverflowPages at h
  split at h
  · cases h
    cases ho
  · obtain ⟨count, hcount, h⟩ := bind_eq_ok.mp h
    obtain ⟨max, -, h⟩ := bind_eq_ok.mp h
    rw [u16At_of_le (by omega)] at hcount
    cases hcount
    rw [cellLoop_range (by omega) (Nat.le_of_lt (beU16At_lt ..))] at h
    obtain ⟨rs, hrs, h⟩ := bind_eq_ok.mp h
    cases h
    obtain ⟨r, hr, hro⟩ := List.mem_filterMap.mp ho
    obtain ⟨off, hoff, hcell⟩ := mapM_inv hrs r hr
    obtain rfl : r = some o := hro
    exact cellOverflow_lt (lt_of_mem_cellOffsets hoff) hcell

end

/-! ### The schema -/

/-- `read_column_text`. -/
def readColumnText (fromUtf8Lossy : Bytes → String) (buf : Bytes) (pos serialType : Nat) :
    WalkResult (Option (String × Nat)) :=
  if serialType < 13 ∨ serialType % 2 ≠ 1 then .ok (some ("", serialTypeSize serialType))
  else do
    let len := (serialType - 13) / 2
    let stop ← add pos len
    if buf.length < stop then .ok none
    else do
      let text ← slice buf pos stop
      .ok (some (fromUtf8Lossy text, len))

/-- `read_column_int`, cast to `u64`. -/
def readColumnInt (buf : Bytes) (pos serialType : Nat) : WalkResult (Option Nat) :=
  let read (bytes : Nat) : WalkResult (Option Nat) := do
    let stop ← add pos bytes
    if buf.length < stop then .ok none
    else do
      let field ← slice buf pos stop
      .ok (some (signExtend field))
  match serialType with
  | 0 => .ok (some 0)
  | 1 => read 1
  | 2 => read 2
  | 3 => read 3
  | 4 => read 4
  | 5 => read 6
  | 6 => read 8
  | 8 => .ok (some 0)
  | 9 => .ok (some 1)
  | _ => .ok none

/-- The serial types of a record header that ends at `headerEnd`. -/
def serialTypes (buf : Bytes) (headerEnd : Nat) : Nat → Nat → WalkResult (List Nat)
  | 0, _ => .ok []
  | n + 1, pos =>
    if headerEnd ≤ pos ∨ buf.length ≤ pos then .ok []
    else do
      let (st, k) ← varintAt buf pos
      let pos ← add pos k
      let sts ← serialTypes buf headerEnd n pos
      .ok (st :: sts)

/-- A text column and where the next one starts; `none` when it does not end in the page. -/
def textColumn (fromUtf8Lossy : Bytes → String) (buf : Bytes) (pos serialType : Nat) :
    WalkResult (Option (String × Nat)) := do
  match ← readColumnText fromUtf8Lossy buf pos serialType with
  | none => .ok none
  | some (text, sz) => do
    let pos ← add pos sz
    .ok (some (text, pos))

/-- The columns of a schema row from `pos` on, by their serial types. -/
def readColumns (fromUtf8Lossy : Bytes → String) (buf : Bytes) (pos typeT nameT tblT rootT : Nat) :
    WalkResult (Option MasterEntry) := do
  match ← textColumn fromUtf8Lossy buf pos typeT with
  | none => .ok none
  | some (objType, pos) => do
    match ← textColumn fromUtf8Lossy buf pos nameT with
    | none => .ok none
    | some (name, pos) => do
      let pos ← add pos (serialTypeSize tblT)
      let root ← readColumnInt buf pos rootT
      .ok (root.map fun rootPage => ⟨objType, name, rootPage⟩)

/-- `parse_master_cell`. -/
def parseMasterCell (fromUtf8Lossy : Bytes → String) (buf : Bytes) (cellOff : Nat) :
    WalkResult (Option MasterEntry) :=
  if buf.length ≤ cellOff then .ok none
  else do
    let (_, n) ← varintAt buf cellOff
    let pos ← add cellOff n
    let (_, n) ← varintAt buf pos
    let payloadStart ← add pos n
    if buf.length ≤ payloadStart then .ok none
    else do
      let (headerLen, n) ← varintAt buf payloadStart
      let headerEnd ← add payloadStart headerLen
      let pos ← add payloadStart n
      match ← serialTypes buf headerEnd 5 pos with
      | [typeT, nameT, tblT, rootT, _] =>
        if buf.length ≤ headerEnd then .ok none
        else readColumns fromUtf8Lossy buf headerEnd typeT nameT tblT rootT
      | _ => .ok none

section

variable {fromUtf8Lossy : Bytes → String} {buf : Bytes} {pos off serialType : Nat}

/-- A text column that does not end in the page. -/
def CutOff (buf : Bytes) (serialType stop : Nat) : Prop :=
  (13 ≤ serialType ∧ serialType % 2 = 1) ∧ buf.length < stop

theorem serialTypeSize_text (h : 13 ≤ serialType ∧ serialType % 2 = 1) :
    serialTypeSize serialType = (serialType - 13) / 2 := by
  obtain ⟨n, rfl⟩ : ∃ n, serialType = n + 13 := ⟨serialType - 13, by omega⟩
  show (if (n + 13) % 2 = 0 then _ else _) = _
  rw [if_neg (by omega)]

theorem textColumn_of_le (h : 2 ^ 64 ≤ pos + serialTypeSize serialType) :
    textColumn fromUtf8Lossy buf pos serialType = .error .overflow := by
  unfold textColumn readColumnText
  split
  · rw [ok_bind]
    dsimp only
    rw [add_of_le h, error_bind]
  · rw [← serialTypeSize_text (by omega)]
    dsimp only
    rw [add_of_le h]
    rfl

theorem textColumn_cutOff (h : pos + serialTypeSize serialType < 2 ^ 64)
    (hcut : CutOff buf serialType (pos + serialTypeSize serialType)) :
    textColumn fromUtf8Lossy buf pos serialType = .ok none := by
  obtain ⟨htext, hlen⟩ := hcut
  unfold textColumn readColumnText
  rw [if_neg (by omega), ← serialTypeSize_text htext]
  dsimp only
  rw [add_of_lt h, ok_bind, if_pos hlen]
  rfl

theorem textColumn_whole (fromUtf8Lossy : Bytes → String)
    (h : pos + serialTypeSize serialType < 2 ^ 64)
    (hcut : ¬ CutOff buf serialType (pos + serialTypeSize serialType)) :
    ∃ text, textColumn fromUtf8Lossy buf pos serialType =
      .ok (some (text, pos + serialTypeSize serialType)) := by
  unfold textColumn readColumnText
  split
  · refine ⟨"", ?_⟩
    rw [ok_bind]
    dsimp only
    rw [add_of_lt h, ok_bind]
  · have htext : 13 ≤ serialType ∧ serialType % 2 = 1 := by omega
    have hin : pos + serialTypeSize serialType ≤ buf.length :=
      Nat.not_lt.mp fun hlt => hcut ⟨htext, hlt⟩
    rw [← serialTypeSize_text htext]
    dsimp only
    rw [add_of_lt h, ok_bind, if_neg (Nat.not_lt.mpr hin), slice_add hin, ok_bind, ok_bind]
    dsimp only
    rw [add_of_lt h, ok_bind]
    exact ⟨_, rfl⟩

/-- How many bytes `readColumnInt` reads. -/
def intSize (serialType : Nat) : Nat := if serialType ≤ 6 then serialTypeSize serialType else 0

theorem readColumnInt_fits (buf : Bytes) (hpos : pos < 2 ^ 64) :
    Fits (readColumnInt buf pos serialType) (pos + intSize serialType < 2 ^ 64) := by
  have hread : ∀ bytes, Fits (add pos bytes >>= fun stop =>
      if buf.length < stop then .ok none
      else slice buf pos stop >>= fun field => .ok (some (signExtend field))) (pos + bytes < 2 ^ 64) := by
    intro bytes
    by_cases hfit : pos + bytes < 2 ^ 64
    · rw [add_of_lt hfit, ok_bind]
      split
      · exact .of_ok none hfit
      · rename_i hin
        rw [slice_add (Nat.not_lt.mp hin), ok_bind]
        exact .of_ok _ hfit
    · rw [add_of_le (Nat.not_lt.mp hfit), error_bind]
      exact .of_error hfit
  unfold readColumnInt
  split
  · exact .of_ok (some 0) hpos
  · exact hread 1
  · exact hread 2
  · exact hread 3
  · exact hread 4
  · exact hread 6
  · exact hread 8
  · exact .of_ok (some 0) hpos
  · exact .of_ok (some 1) hpos
  · rename_i h0 h1 h2 h3 h4 h5 h6 h8 h9
    have hbig : ¬ serialType ≤ 6 := by
      simp only [imp_false] at h0 h1 h2 h3 h4 h5 h6
      omega
    rw [intSize, if_neg hbig]
    exact .of_ok none hpos

/-- The columns of a row start where 64 bits can say, as far as they are looked at. -/
def ColumnsFit (buf : Bytes) (pos typeT nameT tblT rootT : Nat) : Prop :=
  pos + serialTypeSize typeT < 2 ^ 64 ∧
    (¬ CutOff buf typeT (pos + serialTypeSize typeT) →
      pos + serialTypeSize typeT + serialTypeSize nameT < 2 ^ 64 ∧
        (¬ CutOff buf nameT (pos + serialTypeSize typeT + serialTypeSize nameT) →
          pos + serialTypeSize typeT + serialTypeSize nameT + serialTypeSize tblT + intSize rootT <
            2 ^ 64))

theorem readColumns_fits {typeT nameT tblT rootT : Nat} :
    Fits (readColumns fromUtf8Lossy buf pos typeT nameT tblT rootT)
      (ColumnsFit buf pos typeT nameT tblT rootT) := by
  unfold readColumns ColumnsFit
  by_cases h₁ : pos + serialTypeSize typeT < 2 ^ 64
  rotate_left
  · rw [textColumn_of_le (Nat.not_lt.mp h₁), error_bind]
    exact .of_error fun h => h₁ h.1
  by_cases c₁ : CutOff buf typeT (pos + serialTypeSize typeT)
  · rw [textColumn_cutOff h₁ c₁, ok_bind]
    exact .of_ok none ⟨h₁, fun hc => absurd c₁ hc⟩
  obtain ⟨objType, hcol₁⟩ := textColumn_whole fromUtf8Lossy h₁ c₁
  rw [hcol₁, ok_bind]
  dsimp only
  by_cases h₂ : pos + serialTypeSize typeT + serialTypeSize nameT < 2 ^ 64
  rotate_left
  · rw [textColumn_of_le (Nat.not_lt.mp h₂), error_bind]
    exact .of_error fun h => h₂ (h.2 c₁).1
  by_cases c₂ : CutOff buf nameT (pos + serialTypeSize typeT + serialTypeSize nameT)
  · rw [textColumn_cutOff h₂ c₂, ok_bind]
    exact .of_ok none ⟨h₁, fun _ => ⟨h₂, fun hc => absurd c₂ hc⟩⟩
  obtain ⟨name, hcol₂⟩ := textColumn_whole fromUtf8Lossy h₂ c₂
  rw [hcol₂, ok_bind]
  dsimp only
  by_cases h₃ : pos + serialTypeSize typeT + serialTypeSize nameT + serialTypeSize tblT < 2 ^ 64
  · rw [add_of_lt h₃, ok_bind]
    refine ((readColumnInt_fits buf h₃).bind fun root => ⟨_, rfl⟩).congr ?_
    exact ⟨fun h => ⟨h₁, fun _ => ⟨h₂, fun _ => h⟩⟩, fun h => (h.2 c₁).2 c₂⟩
  · rw [add_of_le (Nat.not_lt.mp h₃), error_bind]
    exact .of_error fun h => h₃ (lt_of_le_of_lt (Nat.le_add_right _ _) ((h.2 c₁).2 c₂))

theorem serialTypes_eq {headerEnd n : Nat} (h : pos + 9 * n < 2 ^ 64) :
    serialTypes buf headerEnd n pos = .ok (BTreeWalker.serialTypes buf headerEnd n pos) := by
  induction n generalizing pos with
  | zero => rfl
  | succ n ih =>
    unfold serialTypes BTreeWalker.serialTypes
    split
    · rfl
    · rename_i hin
      obtain ⟨h9, -⟩ := readVarint_length (buf.drop pos)
      rw [varintAt_of_le (by omega), ok_bind]
      dsimp only
      rw [add_of_lt (by omega), ok_bind, ih (by omega)]
      rfl

/-- Where the record of a schema cell starts, behind its length and its rowid. -/
def payloadStart (buf : Bytes) (off : Nat) : Nat :=
  let pos := off + (readVarint (buf.drop off)).2
  pos + (readVarint (buf.drop pos)).2

/-- Where the header of the record of a schema cell ends. -/
def headerEnd (buf : Bytes) (off : Nat) : Nat :=
  payloadStart buf off + (readVarint (buf.drop (payloadStart buf off))).1

/-- The serial types of a schema cell. -/
def headerTypes (buf : Bytes) (off : Nat) : List Nat :=
  BTreeWalker.serialTypes buf (headerEnd buf off) 5
    (payloadStart buf off + (readVarint (buf.drop (payloadStart buf off))).2)

/-- The arithmetic on a schema cell fits. -/
def MasterCellFits (buf : Bytes) (off : Nat) : Prop :=
  off < buf.length → payloadStart buf off < buf.length → headerEnd buf off < 2 ^ 64 ∧
    ∀ typeT nameT tblT rootT sqlT, headerTypes buf off = [typeT, nameT, tblT, rootT, sqlT] →
      headerEnd buf off < buf.length → ColumnsFit buf (headerEnd buf off) typeT nameT tblT rootT

theorem payloadStart_lt (buf : Bytes) (hoff : off < 2 ^ 16) : payloadStart buf off < 2 ^ 17 := by
  obtain ⟨h9, -⟩ := readVarint_length (buf.drop off)
  obtain ⟨h9', -⟩ := readVarint_length (buf.drop (off + (readVarint (buf.drop off)).2))
  unfold payloadStart
  dsimp only
  omega

theorem parseMasterCell_fits (hoff : off < 2 ^ 16) :
    Fits (parseMasterCell fromUtf8Lossy buf off) (MasterCellFits buf off) := by
  unfold parseMasterCell
  by_cases hlt : off < buf.length
  rotate_left
  · rw [if_pos (Nat.not_lt.mp hlt)]
    exact .of_ok none fun h => absurd h hlt
  obtain ⟨h9, hin⟩ := readVarint_length (buf.drop off)
  obtain ⟨h9', -⟩ := readVarint_length (buf.drop (off + (readVarint (buf.drop off)).2))
  rw [List.length_drop] at hin
  have hstart : payloadStart buf off = off + (readVarint (buf.drop off)).2 +
      (readVarint (buf.drop (off + (readVarint (buf.drop off)).2))).2 := rfl
  have hstart_lt := payloadStart_lt buf hoff
  rw [if_neg (Nat.not_le.mpr hlt), varintAt_of_le (Nat.le_of_lt hlt), ok_bind]
  dsimp only
  rw [add_of_lt (by omega), ok_bind, varintAt_of_le (by omega), ok_bind, add_of_lt (by omega), ok_bind,
    ← hstart]
  by_cases hpay : payloadStart buf off < buf.length
  rotate_left
  · rw [if_pos (Nat.not_lt.mp hpay)]
    exact .of_ok none fun _ h => absurd h hpay
  obtain ⟨h9'', -⟩ := readVarint_length (buf.drop (payloadStart buf off))
  rw [if_neg (Nat.not_le.mpr hpay), varintAt_of_le (Nat.le_of_lt hpay), ok_bind]
  have hend : headerEnd buf off =
      payloadStart buf off + (readVarint (buf.drop (payloadStart buf off))).1 := rfl
  by_cases hfit : headerEnd buf off < 2 ^ 64
  rotate_left
  · rw [add_of_le (by omega), error_bind]
    exact .of_error fun h => hfit (h hlt hpay).1
  rw [add_of_lt (by omega), ok_bind, add_of_lt (by omega), ok_bind, ← hend,
    serialTypes_eq (by omega), ok_bind]
  change Fits (match headerTypes buf off with
    | [typeT, nameT, tblT, rootT, _] =>
      if buf.length ≤ headerEnd buf off then .ok none
      else readColumns fromUtf8Lossy buf (headerEnd buf off) typeT nameT tblT rootT
    | _ => .ok none) _
  split
  · rename_i typeT nameT tblT rootT sqlT htypes
    by_cases hrec : headerEnd buf off < buf.length
    · rw [if_neg (Nat.not_le.mpr hrec)]
      refine readColumns_fits.congr ⟨fun hcols _ _ => ⟨hfit, ?_⟩, fun h => ?_⟩
      · intro t₀ t₁ t₂ t₃ t₄ ht _
        rw [htypes] at ht
        cases ht
        exact hcols
      · exact (h hlt hpay).2 typeT nameT tblT rootT sqlT htypes hrec
    · rw [if_pos (Nat.not_lt.mp hrec)]
      exact .of_ok none fun _ _ => ⟨hfit, fun _ _ _ _ _ _ h => absurd h hrec⟩
  · rename_i hother
    refine .of_ok none fun _ _ => ⟨hfit, ?_⟩
    intro t₀ t₁ t₂ t₃ t₄ ht
    exact absurd ht (hother t₀ t₁ t₂ t₃ t₄)

end

end PageWalk

end Turbolite
