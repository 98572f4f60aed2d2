import Mathlib.Data.Int.DivMod
import Turbolite.Bundles
import Turbolite.LocalDecoder
import Turbolite.Lib.SqliteFormat

/-!
# Turbolite.BTreePeek

The parsers of leaf and interior pages that the lookahead uses (`btree_peek.rs`), with 64-bit `usize`. A
sum that is not a checked one, a slice and an index are steps that can panic; a `get` outside the page
and a checked sum that overflows are `none`.

`parseIndexLeafRowids_ok_iff` says when the index parser panics; the table parsers never do. What they
return on pages of the format is in `Turbolite.BTreePages`.
-/

namespace Turbolite

open Blocks Checked Results

namespace BTreePeek

open SqliteFormat (headerOffset)
open LocalFormat (Slice)

/-- What `parse_index_leaf_rowids` finds on a page. -/
structure IndexLeafRowids where
  rowids : List Int := []
  firstIntKeys : List (Option Int) := []
  overflowCells : Nat := 0
  malformedCells : Nat := 0
  stoppedEarly : Bool := false
  deriving DecidableEq, Repr

/-- A cell of a table interior page. -/
structure TableInteriorCell where
  /-- 1-based -/
  childPage : Nat
  rowidKey : Int
  deriving DecidableEq, Repr

/-- What `parse_table_interior_cells` finds on a page. -/
structure TableInteriorCells where
  /-- 1-based -/
  rightmostChildPage : Option Nat := none
  cells : List TableInteriorCell := []
  malformedCells : Nat := 0
  stoppedEarly : Bool := false
  deriving DecidableEq, Repr

/-- What `parse_table_leaf_rowids` finds on a page. -/
structure TableLeafRowids where
  rowids : List Int := []
  malformedCells : Nat := 0
  stoppedEarly : Bool := false
  deriving DecidableEq, Repr

/-! ### Fields -/

/-- An unchecked sum of `usize`. -/
def sum (a b : Nat) : IoResult Nat := orFail .panic (add? 64 a b)

/-- `buf.get(off..off + len)`. -/
def getRange (buf : Bytes) (off len : Nat) : IoResult (Option Bytes) := do
  let stop ← sum off len
  .ok (slice? buf off stop)

/-- `read_u16`. -/
def readU16 (buf : Bytes) (off : Nat) : IoResult (Option Nat) := do
  let bytes ← getRange buf off 2
  .ok (bytes.map ofBeBytes)

/-- `read_u32`. -/
def readU32 (buf : Bytes) (off : Nat) : IoResult (Option Nat) := do
  let bytes ← getRange buf off 4
  .ok (bytes.map ofBeBytes)

/-- The loop of `read_varint`: `left` bytes of seven bits are to come, `i` are read. No bit is shifted
out, and the ninth byte counts with all of its own. -/
def varintFrom : Nat → Nat → Nat → Bytes → Option (Nat × Nat)
  | _, _, _, [] => none
  | 0, i, val, b :: _ => some (val * 256 + b.toNat, i + 1)
  | left + 1, i, val, b :: bs =>
    if b.toNat < 128 then some (val * 128 + b.toNat % 128, i + 1)
    else varintFrom left (i + 1) (val * 128 + b.toNat % 128) bs

/-- `read_varint` at an offset. -/
def readVarint (buf : Bytes) (off : Nat) : Option (Nat × Nat) :=
  if off ≤ buf.length then varintFrom 8 0 0 (buf.drop off) else none

/-- `n as i64`. -/
def toI64 (n : Nat) : Int := (n : Int).bmod (2 ^ 64)

/-- `serial_type_size`; the types 10 and 11 are reserved. -/
def serialTypeSize (serialType : Nat) : Option Nat :=
  match serialType with
  | 0 => some 0
  | 1 => some 1
  | 2 => some 2
  | 3 => some 3
  | 4 => some 4
  | 5 => some 6
  | 6 => some 8
  | 7 => some 8
  | 8 => some 0
  | 9 => some 0
  | 10 => none
  | 11 => none
  | n => some ((n - 12) / 2)

/-- The bytes of an integer, shifted to the top of an `i64` and down again with their sign. -/
def signExtend (src : Bytes) : Int :=
  let val := src.foldl (fun val b => (val * 256 + b.toNat) % 2 ^ 64) 0
  let shift := 64 - src.length * 8
  toI64 (val * 2 ^ shift % 2 ^ 64) / 2 ^ shift

/-- A signed big-endian integer of a record. -/
def readInt (buf : Bytes) (off bytes : Nat) : IoResult (Option Int) := do
  let src ← getRange buf off bytes
  .ok (src.map signExtend)

/-- `read_record_int`: the integer of a column. -/
def readRecordInt (buf : Bytes) (off serialType : Nat) : IoResult (Option Int) :=
  match serialType with
  | 0 => .ok (some 0)
  | 1 => readInt buf off 1
  | 2 => readInt buf off 2
  | 3 => readInt buf off 3
  | 4 => readInt buf off 4
  | 5 => readInt buf off 6
  | 6 => readInt buf off 8
  | 7 => .ok none
  | 8 => .ok (some 0)
  | 9 => .ok (some 1)
  | _ => .ok none

/-- `read_record_int_key`: the first key column, if it is an integer. -/
def readRecordIntKey (buf : Bytes) (off serialType : Nat) : IoResult (Option (Option Int)) :=
  if serialType = 0 ∨ serialType = 7 then .ok (some none)
  else if serialType ≤ 9 then do
    let key ← readRecordInt buf off serialType
    .ok (key.map some)
  else .ok (some none)

/-! ### Cells -/

/-- `btree_header`. -/
def btreeHeader (page : Bytes) (page1 : Bool) (headerLen : Nat) : Option Nat :=
  if headerOffset page1 + headerLen ≤ page.length then some (headerOffset page1) else none

/-- `index_max_local_payload`. -/
def indexMaxLocalPayload (usableSize : Nat) : IoResult Nat :=
  if usableSize ≤ 12 then .ok 0
  else do
    let scaled ← orFail .panic (mul? 64 (usableSize - 12) 64)
    .ok (scaled / 255 - 23)

/-- `index_usable_size`. -/
def indexUsableSize (page : Bytes) (page1 : Bool) (usableSize : Option Nat) : Nat :=
  match usableSize with
  | some usableSize => min usableSize page.length
  | none =>
    if page1 then page.length - ((page[20]?).map UInt8.toNat).getD 0 else page.length

/-- The serial types of a record header up to `headerEnd`. Every one takes a byte, so `fuel` bytes are
enough for the loop of the source; what runs out of them counts as a panic here. -/
def readSerials (page : Bytes) (headerEnd : Nat) : Nat → Nat → List Nat → IoResult (Option (List Nat))
  | 0, pos, serials => if headerEnd ≤ pos then .ok (some serials) else .error .panic
  | fuel + 1, pos, serials =>
    if headerEnd ≤ pos then .ok (some serials)
    else
      match readVarint page pos with
      | none => .ok none
      | some (serial, used) =>
        if used = 0 then .ok none
        else do
          let pos ← sum pos used
          readSerials page headerEnd fuel pos (serials ++ [serial])

/-- Past the bodies of the columns. -/
def skipBodies (payloadEnd : Nat) : Nat → List Nat → Option Nat
  | bodyPos, [] => some bodyPos
  | bodyPos, serial :: serials =>
    match serialTypeSize serial with
    | none => none
    | some size =>
      match add? 64 bodyPos size with
      | none => none
      | some bodyPos => if payloadEnd < bodyPos then none else skipBodies payloadEnd bodyPos serials

/-- The rowid and the first key of a record whose serial types are read. -/
def readColumns (page : Bytes) (headerEnd payloadEnd : Nat) (serials : List Nat) :
    IoResult (Option (Int × Option Int)) :=
  match serials.getLast? with
  | none => .ok none
  | some rowidSerial => do
    let firstSerial ← orFail .panic serials.head?
    match ← readRecordIntKey page headerEnd firstSerial with
    | none => .ok none
    | some firstIntKey =>
      match skipBodies payloadEnd headerEnd serials.dropLast, serialTypeSize rowidSerial with
      | some bodyPos, some rowidSize => do
        let stop ← sum bodyPos rowidSize
        if payloadEnd < stop then .ok none
        else do
          let rowid ← readRecordInt page bodyPos rowidSerial
          .ok (rowid.map fun rowid => (rowid, firstIntKey))
      | _, _ => .ok none

/-- The rowid and the first key of the record in a payload. -/
def readRecord (page : Bytes) (payloadStart payloadEnd : Nat) : IoResult (Option (Int × Option Int)) :=
  match readVarint page payloadStart with
  | none => .ok none
  | some (headerLen, headerLenBytes) =>
    if headerLen < headerLenBytes then .ok none
    else
      match add? 64 payloadStart headerLen with
      | none => .ok none
      | some headerEnd =>
        if payloadEnd < headerEnd then .ok none
        else do
          let pos ← sum payloadStart headerLenBytes
          match ← readSerials page headerEnd headerLen pos [] with
          | none => .ok none
          | some serials => readColumns page headerEnd payloadEnd serials

/-- `parse_index_leaf_cell_rowid`; the last component says that the cell spills. -/
def parseIndexLeafCellRowid (page : Bytes) (cellOff maxLocal : Nat) :
    IoResult (Option (Int × Option Int × Bool)) :=
  match readVarint page cellOff with
  | none => .ok none
  | some (payloadLen, payloadLenBytes) =>
    match add? 64 cellOff payloadLenBytes with
    | none => .ok none
    | some payloadStart =>
      match add? 64 payloadStart payloadLen with
      | none => .ok none
      | some payloadEnd =>
        if maxLocal < payloadLen then .ok (some (0, none, true))
        else if page.length < payloadEnd then .ok none
        else do
          let record ← readRecord page payloadStart payloadEnd
          .ok (record.map fun (rowid, firstIntKey) => (rowid, firstIntKey, false))

/-! ### Pages -/

section Loop

variable {σ : Type} (page : Bytes) (pointerArray : Nat) (full : σ → Bool) (stop : σ → σ)
  (turn : σ → Nat → IoResult σ)

/-- The loop over the cell pointers, from the `i`-th on. It stops before a turn when the result is full,
and at a pointer outside the page. -/
def forCells : Nat → Nat → σ → IoResult σ
  | 0, _, out => .ok out
  | n + 1, i, out =>
    if full out then .ok (stop out)
    else do
      let ptrOff ← sum pointerArray (i * 2)
      match ← readU16 page ptrOff with
      | none => .ok (stop out)
      | some cellOff => do
        let out ← turn out cellOff
        forCells n (i + 1) out

end Loop

/-- One turn of `parse_index_leaf_rowids`. -/
def indexLeafTurn (page : Bytes) (maxLocal : Nat) (out : IndexLeafRowids) (cellOff : Nat) :
    IoResult IndexLeafRowids := do
  match ← parseIndexLeafCellRowid page cellOff maxLocal with
  | none => .ok { out with malformedCells := out.malformedCells + 1 }
  | some (rowid, firstIntKey, overflowed) =>
    if overflowed then .ok { out with overflowCells := out.overflowCells + 1 }
    else
      let rowids := out.rowids ++ [rowid]
      .ok { out with rowids := rowids, firstIntKeys := out.firstIntKeys ++ [firstIntKey] }

/-- `parse_index_leaf_rowids`: the rowids at the ends of the records of an index leaf. -/
def parseIndexLeafRowids (page : Bytes) (page1 : Bool) (cap : Nat) (usableSize : Option Nat) :
    IoResult IndexLeafRowids :=
  if cap = 0 then .ok {}
  else
    match btreeHeader page page1 8 with
    | none => .ok {}
    | some header =>
      if page[header]? ≠ some 0x0a then .ok {}
      else do
        let cellCount ← readU16 page (header + 3)
        let maxLocal ← indexMaxLocalPayload (indexUsableSize page page1 usableSize)
        forCells page (header + 8) (fun out => cap ≤ out.rowids.length)
          (fun out => { out with stoppedEarly := true }) (indexLeafTurn page maxLocal)
          (cellCount.getD 0) 0 {}

/-- One turn of `parse_table_leaf_rowids`. -/
def tableLeafTurn (page : Bytes) (out : TableLeafRowids) (cellOff : Nat) : IoResult TableLeafRowids :=
  match readVarint page cellOff with
  | none => .ok { out with malformedCells := out.malformedCells + 1 }
  | some (_, payloadLenBytes) => do
    let rowidOff ← sum cellOff payloadLenBytes
    match readVarint page rowidOff with
    | none => .ok { out with malformedCells := out.malformedCells + 1 }
    | some (rowid, _) =>
      -- `i64::try_from`
      if rowid < 2 ^ 63 then .ok { out with rowids := out.rowids ++ [(rowid : Int)] }
      else .ok { out with malformedCells := out.malformedCells + 1 }

/-- `parse_table_leaf_rowids`. -/
def parseTableLeafRowids (page : Bytes) (page1 : Bool) (cap : Nat) : IoResult TableLeafRowids :=
  if cap = 0 then .ok {}
  else
    match btreeHeader page page1 8 with
    | none => .ok {}
    | some header =>
      if page[header]? ≠ some 0x0d then .ok {}
      else do
        let cellCount ← readU16 page (header + 3)
        forCells page (header + 8) (fun out => cap ≤ out.rowids.length)
          (fun out => { out with stoppedEarly := true }) (tableLeafTurn page) (cellCount.getD 0) 0 {}

/-- One turn of `parse_table_interior_cells`. -/
def tableInteriorTurn (page : Bytes) (out : TableInteriorCells) (cellOff : Nat) :
    IoResult TableInteriorCells := do
  let keyOff ← sum cellOff 4
  if page.length < keyOff then .ok { out with malformedCells := out.malformedCells + 1 }
  else do
    let child ← readU32 page cellOff
    let childPage ← orFail .panic child
    match readVarint page keyOff with
    | none => .ok { out with malformedCells := out.malformedCells + 1 }
    | some (key, _) =>
      .ok { out with cells := out.cells ++ [{ childPage := childPage, rowidKey := toI64 key }] }

/-- `parse_table_interior_cells`. -/
def parseTableInteriorCells (page : Bytes) (page1 : Bool) : IoResult TableInteriorCells :=
  match btreeHeader page page1 12 with
  | none => .ok {}
  | some header =>
    if page[header]? ≠ some 0x05 then .ok {}
    else do
      let rightmost ← readU32 page (header + 8)
      let cellCount ← readU16 page (header + 3)
      forCells page (header + 12) (fun _ => false) (fun out => { out with stoppedEarly := true })
        (tableInteriorTurn page) (cellCount.getD 0) 0 { rightmostChildPage := rightmost }

/-! ### Steps that do not panic -/

section Steps

variable {buf page : Bytes} {off len a b : Nat}

theorem sum_of_lt (h : a + b < 2 ^ 64) : sum a b = .ok (a + b) := by
  rw [sum, add?_of_lt h]
  rfl

theorem getRange_of_lt (h : off + len < 2 ^ 64) :
    getRange buf off len = .ok (slice? buf off (off + len)) := by
  rw [getRange, sum_of_lt h]
  rfl

theorem readU16_of_lt (h : off + 2 < 2 ^ 64) :
    readU16 buf off = .ok ((slice? buf off (off + 2)).map ofBeBytes) := by
  rw [readU16, getRange_of_lt h]
  rfl

theorem readU32_of_lt (h : off + 4 < 2 ^ 64) :
    readU32 buf off = .ok ((slice? buf off (off + 4)).map ofBeBytes) := by
  rw [readU32, getRange_of_lt h]
  rfl

theorem readU16_lt {v : Nat} (h : readU16 buf off = .ok (some v)) : v < 65536 := by
  rw [readU16, bind_eq_ok] at h
  obtain ⟨bytes, hbytes, h⟩ := h
  obtain ⟨bs, rfl, rfl⟩ := Option.map_eq_some_iff.mp (Except.ok.inj h)
  rw [getRange, bind_eq_ok] at hbytes
  obtain ⟨stop, hstop, hbytes⟩ := hbytes
  have hslice := Except.ok.inj hbytes
  unfold slice? at hslice
  split at hslice
  · have hstop' : stop = off + 2 := by
      unfold sum add? at hstop
      split at hstop
      · exact (Except.ok.inj hstop).symm
      · cases hstop
    rw [hstop', Nat.add_sub_cancel_left] at hslice
    rw [← Option.some.inj hslice]
    exact ofBeBytes_take_lt _ 2
  · cases hslice

theorem varintFrom_bounds {left i val v n : Nat} {bs : Bytes} (h : varintFrom left i val bs = some (v, n))
    (hval : val < 2 ^ (56 - 7 * left)) (hleft : left ≤ 8) :
    i < n ∧ n ≤ i + left + 1 ∧ n ≤ i + bs.length ∧ v < 2 ^ 64 := by
  induction left generalizing i val bs with
  | zero =>
    cases bs with
    | nil => cases h
    | cons b bs =>
      cases h
      have hb := b.toNat_lt
      simp only [List.length_cons]
      omega
  | succ left ih =>
    cases bs with
    | nil => cases h
    | cons b bs =>
      have hpow : 2 ^ (56 - 7 * left) = 2 ^ (56 - 7 * (left + 1)) * 2 ^ 7 := by
        rw [← Nat.pow_add]
        congr 1
        omega
      have hnext : val * 128 + b.toNat % 128 < 2 ^ (56 - 7 * left) := by omega
      rw [varintFrom] at h
      split at h
      · cases h
        have hle : 2 ^ (56 - 7 * left) ≤ 2 ^ 56 := Nat.pow_le_pow_right (by decide) (by omega)
        simp only [List.length_cons]
        omega
      · have hrest := ih h hnext (by omega)
        simp only [List.length_cons]
        omega

theorem readVarint_bounds {v n : Nat} (h : readVarint buf off = some (v, n)) :
    0 < n ∧ n ≤ 9 ∧ off + n ≤ buf.length ∧ v < 2 ^ 64 := by
  unfold readVarint at h
  split at h
  · have hbounds := varintFrom_bounds h (by decide) (le_refl 8)
    rw [List.length_drop] at hbounds
    omega
  · cases h

theorem readInt_of_lt (h : off + len < 2 ^ 64) :
    readInt buf off len = .ok ((slice? buf off (off + len)).map signExtend) := by
  rw [readInt, getRange_of_lt h]
  rfl

theorem readRecordInt_ok (st : Nat) (h : off + 8 < 2 ^ 64) : ∃ r, readRecordInt buf off st = .ok r := by
  have hint : ∀ len ≤ 8, ∃ r, readInt buf off len = .ok r :=
    fun len hlen => ⟨_, readInt_of_lt (by omega)⟩
  unfold readRecordInt
  split
  all_goals first | exact ⟨_, rfl⟩ | exact hint _ (by decide)

theorem readRecordIntKey_ok (st : Nat) (h : off + 8 < 2 ^ 64) :
    ∃ r, readRecordIntKey buf off st = .ok r := by
  unfold readRecordIntKey
  split_ifs
  · exact ⟨_, rfl⟩
  · obtain ⟨r, hr⟩ := readRecordInt_ok st h
    exact ⟨_, by rw [hr]; rfl⟩
  · exact ⟨_, rfl⟩

theorem serialTypeSize_le {st size : Nat} (h : serialTypeSize st = some size) : size ≤ max 8 (st / 2) := by
  unfold serialTypeSize at h
  split at h
  all_goals first | cases h <;> omega

/-- A header whose end lies on the page is read to its end. -/
theorem readSerials_ok {headerEnd fuel pos : Nat} {serials : List Nat} (hlen : page.length < 2 ^ 63)
    (hend : headerEnd ≤ pos + fuel) (hserials : ∀ s ∈ serials, s < 2 ^ 64) :
    ∃ r, readSerials page headerEnd fuel pos serials = .ok r ∧ ∀ ss ∈ r, ∀ s ∈ ss, s < 2 ^ 64 := by
  induction fuel generalizing pos serials with
  | zero =>
    rw [readSerials, if_pos (by omega)]
    exact ⟨_, rfl, fun ss hss => by cases hss; exact hserials⟩
  | succ fuel ih =>
    rw [readSerials]
    split_ifs with hpos
    · exact ⟨_, rfl, fun ss hss => by cases hss; exact hserials⟩
    · cases hread : readVarint page pos with
      | none => exact ⟨none, rfl, fun ss hss => by cases hss⟩
      | some read =>
        obtain ⟨serial, used⟩ := read
        obtain ⟨hused, -, hpage, hserial⟩ := readVarint_bounds hread
        simp only [if_neg (Nat.ne_of_gt hused), sum_of_lt (show pos + used < 2 ^ 64 by omega), ok_bind]
        refine ih (by omega) fun s hs => ?_
        rcases List.mem_append.mp hs with hs | hs
        · exact hserials s hs
        · rw [List.mem_singleton.mp hs]
          exact hserial

theorem skipBodies_le {payloadEnd bodyPos p : Nat} {serials : List Nat} (hpos : bodyPos ≤ payloadEnd)
    (h : skipBodies payloadEnd bodyPos serials = some p) : p ≤ payloadEnd := by
  induction serials generalizing bodyPos with
  | nil => exact Option.some.inj h ▸ hpos
  | cons s ss ih =>
    rw [skipBodies] at h
    cases hsize : serialTypeSize s with
    | none =>
      rw [hsize] at h
      cases h
    | some size =>
      rw [hsize] at h
      simp only at h
      cases hadd : add? 64 bodyPos size with
      | none =>
        rw [hadd] at h
        cases h
      | some next =>
        rw [hadd] at h
        simp only at h
        split at h
        · cases h
        · exact ih (by omega) h

theorem readColumns_ok {headerEnd payloadEnd : Nat} {serials : List Nat} (hlen : page.length < 2 ^ 63)
    (hheader : headerEnd ≤ payloadEnd) (hpayload : payloadEnd ≤ page.length)
    (hserials : ∀ s ∈ serials, s < 2 ^ 64) :
    ∃ r, readColumns page headerEnd payloadEnd serials = .ok r := by
  unfold readColumns
  cases hlast : serials.getLast? with
  | none => exact ⟨_, rfl⟩
  | some last =>
    cases serials with
    | nil => cases hlast
    | cons first serials =>
      obtain ⟨key, hkey⟩ : ∃ key, readRecordIntKey page headerEnd first = .ok key :=
        readRecordIntKey_ok first (by omega)
      simp only [List.head?_cons, orFail_some, ok_bind, hkey]
      cases key with
      | none => exact ⟨_, rfl⟩
      | some key =>
        dsimp only
        cases hskip : skipBodies payloadEnd headerEnd (first :: serials).dropLast with
        | none => exact ⟨_, rfl⟩
        | some bodyPos =>
          cases hsize : serialTypeSize last with
          | none => exact ⟨_, rfl⟩
          | some size =>
            have hbody := skipBodies_le hheader hskip
            have hbound := serialTypeSize_le hsize
            have hlt := hserials last (List.mem_of_getLast? hlast)
            simp only [sum_of_lt (show bodyPos + size < 2 ^ 64 by omega), ok_bind]
            split_ifs
            · exact ⟨_, rfl⟩
            · obtain ⟨r, hr⟩ : ∃ r, readRecordInt page bodyPos last = .ok r :=
                readRecordInt_ok last (by omega)
              exact ⟨_, by rw [hr]; rfl⟩

theorem readRecord_ok {payloadStart payloadEnd : Nat} (hlen : page.length < 2 ^ 63)
    (hpayload : payloadEnd ≤ page.length) :
    ∃ r, readRecord page payloadStart payloadEnd = .ok r := by
  unfold readRecord
  cases hread : readVarint page payloadStart with
  | none => exact ⟨_, rfl⟩
  | some read =>
    obtain ⟨headerLen, n⟩ := read
    dsimp only
    split_ifs with hn
    · exact ⟨_, rfl⟩
    · cases hadd : add? 64 payloadStart headerLen with
      | none => exact ⟨_, rfl⟩
      | some headerEnd =>
        obtain ⟨hlt, rfl⟩ := add?_eq_some.mp hadd
        dsimp only
        split_ifs with hend
        · exact ⟨_, rfl⟩
        · obtain ⟨r, hr, hserials⟩ :
              ∃ r, readSerials page (payloadStart + headerLen) headerLen (payloadStart + n) [] = .ok r ∧
                ∀ ss ∈ r, ∀ s ∈ ss, s < 2 ^ 64 :=
            readSerials_ok hlen (by omega) (by simp)
          simp only [sum_of_lt (show payloadStart + n < 2 ^ 64 by omega), ok_bind, hr]
          cases r with
          | none => exact ⟨_, rfl⟩
          | some serials => exact readColumns_ok hlen (by omega) hpayload (hserials serials rfl)

theorem parseIndexLeafCellRowid_ok (hlen : page.length < 2 ^ 63) (cellOff maxLocal : Nat) :
    ∃ r, parseIndexLeafCellRowid page cellOff maxLocal = .ok r := by
  unfold parseIndexLeafCellRowid
  cases readVarint page cellOff with
  | none => exact ⟨_, rfl⟩
  | some read =>
    obtain ⟨payloadLen, n⟩ := read
    dsimp only
    cases add? 64 cellOff n with
    | none => exact ⟨_, rfl⟩
    | some payloadStart =>
      dsimp only
      cases add? 64 payloadStart payloadLen with
      | none => exact ⟨_, rfl⟩
      | some payloadEnd =>
        dsimp only
        split_ifs with hspill hend
        · exact ⟨_, rfl⟩
        · exact ⟨_, rfl⟩
        · obtain ⟨r, hr⟩ : ∃ r, readRecord page payloadStart payloadEnd = .ok r :=
            readRecord_ok hlen (by omega)
          exact ⟨_, by rw [hr]; rfl⟩

end Steps

/-! ### Parsers that do not panic -/

section Parsers

variable {page : Bytes} {page1 : Bool}

theorem forCells_ok {σ : Type} {pointerArray : Nat} {full : σ → Bool} {stop : σ → σ}
    {turn : σ → Nat → IoResult σ} (hturn : ∀ out off, off < 65536 → ∃ out', turn out off = .ok out')
    (n i : Nat) (hi : pointerArray + (i + n) * 2 + 2 < 2 ^ 64) (out : σ) :
    ∃ out', forCells page pointerArray full stop turn n i out = .ok out' := by
  induction n generalizing i out with
  | zero => exact ⟨out, rfl⟩
  | succ n ih =>
    rw [forCells]
    split_ifs with hfull
    · exact ⟨_, rfl⟩
    · rw [sum_of_lt (by omega), ok_bind]
      cases hread : readU16 page (pointerArray + i * 2) with
      | error e =>
        rw [readU16_of_lt (by omega)] at hread
        cases hread
      | ok cellOff =>
        rw [ok_bind]
        cases cellOff with
        | none => exact ⟨_, rfl⟩
        | some cellOff =>
          obtain ⟨out', hout⟩ := hturn out cellOff (readU16_lt hread)
          simp only [hout, ok_bind]
          exact ih (i + 1) (by omega) out'

theorem headerOffset_le (page1 : Bool) : headerOffset page1 ≤ 100 := by
  cases page1 <;> decide

/-- The header fields are on the page. -/
theorem readCellCount (h : headerOffset page1 + 8 ≤ page.length) :
    ∃ n < 65536, readU16 page (headerOffset page1 + 3) = .ok (some n) := by
  have hheader := headerOffset_le page1
  have hread : readU16 page (headerOffset page1 + 3) = .ok (some (ofBeBytes
      ((page.drop (headerOffset page1 + 3)).take 2))) := by
    rw [readU16_of_lt (by omega), slice?_add (by omega)]
    rfl
  exact ⟨_, readU16_lt hread, hread⟩

/-- A parser that goes on to its cells, or returns what it has. -/
theorem btreeHeader_cases (page : Bytes) (page1 : Bool) (headerLen : Nat) :
    (btreeHeader page page1 headerLen = none ∧ page.length < headerOffset page1 + headerLen) ∨
      (btreeHeader page page1 headerLen = some (headerOffset page1) ∧
        headerOffset page1 + headerLen ≤ page.length) := by
  unfold btreeHeader
  split_ifs with h
  · exact .inr ⟨rfl, h⟩
  · exact .inl ⟨rfl, by omega⟩

theorem tableLeafTurn_ok (page : Bytes) (out : TableLeafRowids) {off : Nat} (hoff : off < 65536) :
    ∃ out', tableLeafTurn page out off = .ok out' := by
  unfold tableLeafTurn
  cases hlen : readVarint page off with
  | none => exact ⟨_, rfl⟩
  | some read =>
    obtain ⟨payloadLen, n⟩ := read
    have hn := (readVarint_bounds hlen).2.1
    dsimp only
    rw [sum_of_lt (by omega), ok_bind]
    cases readVarint page (off + n) with
    | none => exact ⟨_, rfl⟩
    | some read =>
      obtain ⟨rowid, n'⟩ := read
      dsimp only
      split_ifs <;> exact ⟨_, rfl⟩

theorem tableInteriorTurn_ok (page : Bytes) (out : TableInteriorCells) {off : Nat} (hoff : off < 65536) :
    ∃ out', tableInteriorTurn page out off = .ok out' := by
  unfold tableInteriorTurn
  rw [sum_of_lt (by omega), ok_bind]
  split_ifs with hlen
  · exact ⟨_, rfl⟩
  · rw [readU32_of_lt (by omega), slice?_add (by omega)]
    simp only [Option.map_some, ok_bind, orFail_some]
    cases readVarint page (off + 4) with
    | none => exact ⟨_, rfl⟩
    | some read => exact ⟨_, rfl⟩

theorem indexLeafTurn_ok (hlen : page.length < 2 ^ 63) (maxLocal : Nat) (out : IndexLeafRowids)
    (off : Nat) : ∃ out', indexLeafTurn page maxLocal out off = .ok out' := by
  obtain ⟨r, hr⟩ := parseIndexLeafCellRowid_ok hlen off maxLocal
  unfold indexLeafTurn
  rw [hr, ok_bind]
  cases r with
  | none => exact ⟨_, rfl⟩
  | some cell =>
    obtain ⟨rowid, key, overflowed⟩ := cell
    dsimp only
    split_ifs <;> exact ⟨_, rfl⟩

theorem parseTableLeafRowids_ok (page : Bytes) (page1 : Bool) (cap : Nat) :
    ∃ r, parseTableLeafRowids page page1 cap = .ok r := by
  have hheader := headerOffset_le page1
  unfold parseTableLeafRowids
  split_ifs with hcap
  · exact ⟨_, rfl⟩
  · rcases btreeHeader_cases page page1 8 with ⟨hnone, -⟩ | ⟨hsome, hroom⟩
    · rw [hnone]
      exact ⟨_, rfl⟩
    · obtain ⟨n, hn, hcount⟩ := readCellCount hroom
      rw [hsome]
      dsimp only
      split_ifs
      · exact ⟨_, rfl⟩
      · rw [hcount, ok_bind]
        exact forCells_ok (fun out off hoff => tableLeafTurn_ok page out hoff) _ 0 (by
          rw [Option.getD_some]
          omega) _

theorem parseTableInteriorCells_ok (page : Bytes) (page1 : Bool) :
    ∃ r, parseTableInteriorCells page page1 = .ok r := by
  have hheader := headerOffset_le page1
  unfold parseTableInteriorCells
  rcases btreeHeader_cases page page1 12 with ⟨hnone, -⟩ | ⟨hsome, hroom⟩
  · rw [hnone]
    exact ⟨_, rfl⟩
  · obtain ⟨n, hn, hcount⟩ : ∃ n < 65536, readU16 page (headerOffset page1 + 3) = .ok (some n) :=
      readCellCount (by omega)
    rw [hsome]
    dsimp only
    split_ifs
    · exact ⟨_, rfl⟩
    · rw [readU32_of_lt (by omega), ok_bind, hcount, ok_bind]
      exact forCells_ok (fun out off hoff => tableInteriorTurn_ok page out hoff) _ 0 (by
        rw [Option.getD_some]
        omega) _

theorem indexMaxLocalPayload_ok_iff (usable : Nat) :
    (∃ r, indexMaxLocalPayload usable = .ok r) ↔ (usable - 12) * 64 < 2 ^ 64 := by
  unfold indexMaxLocalPayload mul?
  split_ifs with hsmall hfits
  · exact iff_of_true ⟨_, rfl⟩ (by omega)
  · exact iff_of_true ⟨_, rfl⟩ hfits
  · refine iff_of_false ?_ hfits
    rintro ⟨r, hr⟩
    cases hr

/-- The parser goes on to the cells of an index leaf. -/
def ReachesIndexCells (page : Bytes) (page1 : Bool) (cap : Nat) : Prop :=
  cap ≠ 0 ∧ headerOffset page1 + 8 ≤ page.length ∧ page[headerOffset page1]? = some 0x0a

theorem parseIndexLeafRowids_ok_iff (hlen : page.length < 2 ^ 63) (cap : Nat) (usable : Option Nat) :
    (∃ r, parseIndexLeafRowids page page1 cap usable = .ok r) ↔
      (ReachesIndexCells page page1 cap → (indexUsableSize page page1 usable - 12) * 64 < 2 ^ 64) := by
  have hheader := headerOffset_le page1
  unfold parseIndexLeafRowids ReachesIndexCells
  split_ifs with hcap
  · exact iff_of_true ⟨_, rfl⟩ fun h => absurd hcap h.1
  · rcases btreeHeader_cases page page1 8 with ⟨hnone, hshort⟩ | ⟨hsome, hroom⟩
    · rw [hnone]
      exact iff_of_true ⟨_, rfl⟩ fun h => by omega
    · obtain ⟨n, hn, hcount⟩ := readCellCount hroom
      rw [hsome]
      dsimp only
      split_ifs with hkind
      · exact iff_of_true ⟨_, rfl⟩ fun h => absurd h.2.2 hkind
      · rw [ne_eq, not_not] at hkind
        rw [hcount, ok_bind, ← indexMaxLocalPayload_ok_iff]
        constructor
        · rintro ⟨r, hr⟩ -
          obtain ⟨maxLocal, hmax, -⟩ := bind_eq_ok.mp hr
          exact ⟨maxLocal, hmax⟩
        · intro h
          obtain ⟨maxLocal, hmax⟩ := h ⟨hcap, hroom, hkind⟩
          rw [hmax, ok_bind]
          exact forCells_ok (fun out off _ => indexLeafTurn_ok hlen maxLocal out off) _ 0 (by
            rw [Option.getD_some]
            omega) _

end Parsers

end BTreePeek

end Turbolite
