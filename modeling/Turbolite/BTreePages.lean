import Turbolite.BTreePeek

/-!
# Turbolite.BTreePages

What the parsers of `btree_peek.rs` return on pages of the SQLite format. A field of the page is read
as what it holds (`readVarint_at`, `readU16_field`), then a cell, then all cells in the order of their
pointers (`forCells_eq`).
-/

namespace Turbolite

open Blocks Checked Results

namespace BTreePeek

open SqliteFormat hiding Bytes
open LocalFormat (Slice)

/-! ### Fields -/

section Fields

variable {page bs : Bytes} {off v : Nat}

theorem varintFrom_init {init : Bytes} (hinit : ∀ b ∈ init, 128 ≤ b.toNat) (left i val : Nat)
    (rest : Bytes) :
    varintFrom (init.length + left) i val (init ++ rest) =
      varintFrom left (i + init.length) (init.foldl (fun n b => n * 128 + b.toNat % 128) val) rest := by
  induction init generalizing i val with
  | nil => simp
  | cons b init ih =>
    have hb : ¬ b.toNat < 128 := Nat.not_lt.mpr (hinit b List.mem_cons_self)
    have hlen : (b :: init).length + left = (init.length + left) + 1 := by
      rw [List.length_cons]
      omega
    rw [hlen, List.cons_append, varintFrom, if_neg hb,
      ih (fun c hc => hinit c (List.mem_cons_of_mem b hc)), List.foldl_cons, List.length_cons]
    congr 1
    omega

theorem readVarint_at (hv : IsVarint v bs) (hat : At page off bs) :
    readVarint page off = some (v, bs.length) := by
  obtain ⟨hle, rest, hrest⟩ := hat
  rw [readVarint, if_pos hle, ← hrest]
  cases hv with
  | @short init last hlen hinit hlast =>
    obtain ⟨left, hleft⟩ : ∃ left, 8 = init.length + (left + 1) := ⟨7 - init.length, by omega⟩
    rw [hleft, List.append_assoc, varintFrom_init hinit, List.singleton_append, varintFrom,
      if_pos hlast, base128, List.foldl_append, List.length_append]
    simp
  | @long init last hlen hinit =>
    have hleft : 8 = init.length + 0 := hlen.symm
    rw [hleft, List.append_assoc, varintFrom_init hinit, List.singleton_append, varintFrom, base128,
      List.length_append]
    simp

theorem readU16_field (hlen : page.length ≤ 65536) (h : HasField page off 2 v) :
    readU16 page off = .ok (some v) := by
  obtain ⟨hroom, hv⟩ := h
  rw [readU16_of_lt (by omega), slice?_add hroom, Option.map_some]
  exact congrArg (fun n => Except.ok (some n)) hv

theorem readU32_field (hlen : page.length ≤ 65536) (h : HasField page off 4 v) :
    readU32 page off = .ok (some v) := by
  obtain ⟨hroom, hv⟩ := h
  rw [readU32_of_lt (by omega), slice?_add hroom, Option.map_some]
  exact congrArg (fun n => Except.ok (some n)) hv

theorem toI64_toNat (v : BitVec 64) : toI64 v.toNat = v.toInt := (BitVec.toInt_eq_toNat_bmod v).symm

end Fields

/-! ### Cells in order -/

section Loop

variable {page : Bytes} {σ γ : Type} {pointerArray : Nat} {full : σ → Bool} {stop : σ → σ}
  {turn : σ → Nat → IoResult σ} {P : Nat → γ → Prop} {push : σ → γ → σ}

/-- Every pointer is on the page and no turn finds the result full: the cells are pushed in order. -/
theorem forCells_eq (hlen : page.length ≤ 65536)
    (hturn : ∀ off c out, P off c → turn out off = .ok (push out c)) {offs : List Nat} {cells : List γ}
    (hcells : List.Forall₂ P offs cells) (i : Nat) (out : σ)
    (hptr : ∀ j off, offs[j]? = some off → HasField page (pointerArray + (i + j) * 2) 2 off)
    (hfull : ∀ done c rest, cells = done ++ c :: rest → full (done.foldl push out) = false) :
    forCells page pointerArray full stop turn offs.length i out = .ok (cells.foldl push out) := by
  induction hcells generalizing i out with
  | nil => rfl
  | @cons off c offs cells hc _ ih =>
    have hfirst : HasField page (pointerArray + i * 2) 2 off := hptr 0 off rfl
    have hroom := hfirst.1
    have hout : full out = false := hfull [] c cells rfl
    rw [List.length_cons, forCells, hout, if_neg Bool.false_ne_true, sum_of_lt (by omega), ok_bind,
      readU16_field hlen hfirst, ok_bind]
    simp only [hturn off c out hc, ok_bind]
    refine ih (i + 1) (push out c) (fun j off' hoff => ?_) fun done c' rest hsplit => ?_
    · have hnext := hptr (j + 1) off' hoff
      have heq : i + (j + 1) = i + 1 + j := by omega
      rwa [heq] at hnext
    · exact hfull (c :: done) c' rest (by rw [hsplit, List.cons_append])

end Loop

/-- The header of a page of the format. -/
theorem hasCells_read {page : Bytes} {page1 : Bool} {kind : UInt8} {headerLen : Nat} {offs : List Nat}
    (h : HasCells page page1 kind headerLen offs) :
    btreeHeader page page1 headerLen = some (headerOffset page1) ∧
      readU16 page (headerOffset page1 + 3) = .ok (some offs.length) :=
  ⟨if_pos h.room, readU16_field h.size h.count⟩

/-! ### Table leaves -/

/-- A rowid is pushed when its bit pattern is that of a nonnegative one. -/
def pushRowid (out : TableLeafRowids) (rowid : BitVec 64) : TableLeafRowids :=
  if rowid.toNat < 2 ^ 63 then { out with rowids := out.rowids ++ [rowid.toInt] }
  else { out with malformedCells := out.malformedCells + 1 }

theorem toInt_nonneg_iff (v : BitVec 64) : 0 ≤ v.toInt ↔ v.toNat < 2 ^ 63 := by
  have hlt := v.isLt
  rw [BitVec.toInt_eq_toNat_cond]
  split <;> omega

theorem tableLeafTurn_cell {page : Bytes} (hlen : page.length ≤ 65536) {off : Nat} {rowid : BitVec 64}
    {out : TableLeafRowids} (h : IsTableLeafCell page off rowid) :
    tableLeafTurn page out off = .ok (pushRowid out rowid) := by
  obtain ⟨payloadLen, n, r, hn, hr, hat⟩ := h
  obtain ⟨hatn, hatr⟩ := hat.of_append
  have hbound := hatn.length_le
  unfold tableLeafTurn pushRowid
  rw [readVarint_at hn hatn]
  dsimp only
  rw [sum_of_lt (by omega), ok_bind, readVarint_at hr hatr]
  dsimp only
  split_ifs with hsign
  · have hint : rowid.toInt = (rowid.toNat : Int) := by
      rw [BitVec.toInt_eq_toNat_cond, if_pos (by omega)]
    rw [hint]
  · rfl

theorem foldl_pushRowid (rowids : List (BitVec 64)) (out : TableLeafRowids) :
    rowids.foldl pushRowid out =
      { out with
        rowids := out.rowids ++ (rowids.filter fun r => 0 ≤ r.toInt).map BitVec.toInt
        malformedCells := out.malformedCells + (rowids.filter fun r => ¬ 0 ≤ r.toInt).length } := by
  induction rowids generalizing out with
  | nil => simp
  | cons r rs ih =>
    rw [List.foldl_cons, ih, pushRowid]
    by_cases hr : 0 ≤ r.toInt
    · rw [if_pos ((toInt_nonneg_iff r).mp hr)]
      simp [hr]
    · rw [if_neg (mt (toInt_nonneg_iff r).mpr hr)]
      simp [Int.not_le.mp hr, Nat.add_assoc, Nat.add_comm 1]

/-- The rowids that are not negative, in the order of their cells; the other cells count as malformed. -/
theorem parseTableLeafRowids_eq {page : Bytes} {page1 : Bool} {rowids : List (BitVec 64)}
    {offs : List Nat} (h : IsTableLeaf page page1 rowids offs) {cap : Nat} (hcap : rowids.length ≤ cap) :
    parseTableLeafRowids page page1 cap = .ok
      { rowids := (rowids.filter fun r => 0 ≤ r.toInt).map BitVec.toInt
        malformedCells := (rowids.filter fun r => ¬ 0 ≤ r.toInt).length } := by
  obtain ⟨hheader, hcount⟩ := hasCells_read h.layout
  rcases Nat.eq_zero_or_pos cap with rfl | hpos
  · rw [List.eq_nil_of_length_eq_zero (Nat.le_zero.mp hcap)]
    rfl
  have hturn : ∀ off r out, IsTableLeafCell page off r →
      tableLeafTurn page out off = .ok (pushRowid out r) :=
    fun off r out hr => tableLeafTurn_cell h.layout.size hr
  unfold parseTableLeafRowids
  rw [if_neg (by omega), hheader]
  dsimp only
  rw [if_neg (not_not.mpr h.layout.kind), hcount, ok_bind, Option.getD_some,
    forCells_eq h.layout.size hturn h.contents 0 {}
      (fun j off hoff => by simpa using h.layout.pointers j off hoff) ?_, foldl_pushRowid]
  · simp
  · intro done c rest hsplit
    have hle := List.length_filter_le (fun r : BitVec 64 => decide (0 ≤ r.toInt)) done
    have hlen := congrArg List.length hsplit
    rw [List.length_append, List.length_cons] at hlen
    rw [foldl_pushRowid]
    simp
    omega

/-! ### Table interior pages -/

/-- A cell as the source keeps it, its key signed. -/
def interiorCell (c : InteriorCell) : TableInteriorCell :=
  { childPage := c.child, rowidKey := c.key.toInt }

theorem tableInteriorTurn_cell {page : Bytes} (hlen : page.length ≤ 65536) {off : Nat} {c : InteriorCell}
    {out : TableInteriorCells} (h : IsInteriorCell page off c) :
    tableInteriorTurn page out off = .ok { out with cells := out.cells ++ [interiorCell c] } := by
  obtain ⟨hchild, k, hk, hat⟩ := h
  have hroom := hchild.1
  unfold tableInteriorTurn
  rw [sum_of_lt (by omega), ok_bind, if_neg (by omega), readU32_field hlen hchild, ok_bind, orFail_some,
    ok_bind, readVarint_at hk hat]
  simp only [interiorCell, toI64_toNat]

theorem foldl_interiorCell (cells : List InteriorCell) (out : TableInteriorCells) :
    cells.foldl (fun out c => { out with cells := out.cells ++ [interiorCell c] }) out =
      { out with cells := out.cells ++ cells.map interiorCell } := by
  induction cells generalizing out with
  | nil => simp
  | cons c cells ih => rw [List.foldl_cons, ih, List.map_cons, List.append_assoc, List.singleton_append]

/-- The child pointers and keys in the order of their cells, and the rightmost child. -/
theorem parseTableInteriorCells_eq {page : Bytes} {page1 : Bool} {cells : List InteriorCell}
    {rightmost : Nat} {offs : List Nat} (h : IsTableInterior page page1 cells rightmost offs) :
    parseTableInteriorCells page page1 = .ok
      { rightmostChildPage := some rightmost, cells := cells.map interiorCell } := by
  obtain ⟨hheader, hcount⟩ := hasCells_read h.layout
  have hturn : ∀ off c out, IsInteriorCell page off c →
      tableInteriorTurn page out off = .ok { out with cells := out.cells ++ [interiorCell c] } :=
    fun off c out hc => tableInteriorTurn_cell h.layout.size hc
  unfold parseTableInteriorCells
  rw [hheader]
  dsimp only
  rw [if_neg (not_not.mpr h.layout.kind), readU32_field h.layout.size h.isRightmost, ok_bind, hcount,
    ok_bind, Option.getD_some,
    forCells_eq h.layout.size hturn h.contents 0 _
      (fun j off hoff => by simpa using h.layout.pointers j off hoff) (fun _ _ _ _ => rfl),
    foldl_interiorCell]
  rfl

/-! ### Values -/

theorem serialTypeSize_serialType (v : Value) : serialTypeSize v.serialType = some v.size := by
  cases v with
  | null => rfl
  | int w v => cases w <;> rfl
  | zero => rfl
  | one => rfl
  | real bits => rfl
  | blob bytes =>
    rw [Value.serialType, Nat.add_comm]
    simp [serialTypeSize, Value.size]
  | text bytes =>
    rw [Value.serialType, Nat.add_comm]
    simp [serialTypeSize, Value.size]
    omega

theorem foldl_signExtend (bs : Bytes) (n : Nat) (h : (n + 1) * 256 ^ bs.length ≤ 2 ^ 64) :
    bs.foldl (fun val b => (val * 256 + b.toNat) % 2 ^ 64) n =
      bs.foldl (fun n b => n * 256 + b.toNat) n := by
  induction bs generalizing n with
  | nil => rfl
  | cons b bs ih =>
    have hb := b.toNat_lt
    have hnext : (n * 256 + b.toNat + 1) * 256 ^ bs.length ≤ (n + 1) * 256 ^ (b :: bs).length := by
      rw [List.length_cons, Nat.pow_succ', ← Nat.mul_assoc]
      exact Nat.mul_le_mul_right _ (by omega)
    have hone : 1 ≤ 256 ^ bs.length := Nat.one_le_pow _ _ (by decide)
    have hlt : n * 256 + b.toNat < 2 ^ 64 := by
      have hle := Nat.le_mul_of_pos_right (n * 256 + b.toNat + 1) hone
      omega
    rw [List.foldl_cons, List.foldl_cons, Nat.mod_eq_of_lt hlt, ih _ (le_trans hnext h)]

theorem toI64_of_lt {n : Nat} (h : n < 2 ^ 64) :
    toI64 n = if 2 * n < 2 ^ 64 then (n : Int) else (n : Int) - 2 ^ 64 := by
  unfold toI64
  rw [Int.bmod_eq_emod]
  split_ifs <;> omega
/-- Shifted up by what the word has left, and down again, a number keeps its sign. -/
theorem toI64_shift (n width shift : Nat) (hshift : width + shift = 64) (h : n < 2 ^ width) :
    toI64 (n * 2 ^ shift % 2 ^ 64) / 2 ^ shift =
      if 2 * n < 2 ^ width then (n : Int) else (n : Int) - (2 ^ width : Nat) := by
  have hpow : 2 ^ width * 2 ^ shift = 2 ^ 64 := by rw [← Nat.pow_add, hshift]
  have hpos : 0 < 2 ^ shift := Nat.two_pow_pos shift
  have hlt : n * 2 ^ shift < 2 ^ 64 := by
    rw [← hpow]
    exact Nat.mul_lt_mul_of_pos_right h hpos
  have hhalf : 2 * (n * 2 ^ shift) < 2 ^ 64 ↔ 2 * n < 2 ^ width := by
    rw [← hpow, ← Nat.mul_assoc]
    exact Nat.mul_lt_mul_right hpos
  have hne : (2 : Int) ^ shift ≠ 0 := (Int.pow_pos (by decide)).ne'
  have hfull : (2 : Int) ^ width * 2 ^ shift = 2 ^ 64 := by exact_mod_cast hpow
  rw [Nat.mod_eq_of_lt hlt, toI64_of_lt hlt]
  split_ifs with hl hr hr
  · rw [Nat.cast_mul, Nat.cast_pow, Nat.cast_ofNat, Int.mul_ediv_cancel _ hne]
  · exact absurd (hhalf.mp hl) hr
  · exact absurd (hhalf.mpr hr) hl
  · rw [Nat.cast_mul, Nat.cast_pow, Nat.cast_ofNat, Nat.cast_pow, Nat.cast_ofNat, ← hfull,
      ← Int.sub_mul, Int.mul_ediv_cancel _ hne]

/-- The sign is the highest bit of the highest byte. -/
theorem signExtend_int (w : IntWidth) (v : BitVec (8 * w.bytes)) {bs : Bytes} (hlen : bs.length = w.bytes)
    (hbs : bigEndian bs = v.toNat) : signExtend bs = v.toInt := by
  have hw : w.bytes ≤ 8 := by cases w <;> decide
  have hpow : (0 + 1) * 256 ^ bs.length ≤ 2 ^ 64 := by
    rw [hlen, Nat.zero_add, Nat.one_mul]
    calc 256 ^ w.bytes ≤ 256 ^ 8 := Nat.pow_le_pow_right (by decide) hw
      _ = 2 ^ 64 := by norm_num
  have hfold := (foldl_signExtend bs 0 hpow).trans hbs
  have hshift := toI64_shift v.toNat (8 * w.bytes) (64 - w.bytes * 8) (by omega) v.isLt
  unfold signExtend
  rw [hfold, hlen, BitVec.toInt_eq_toNat_cond]
  exact hshift

section Values

variable {page bs : Bytes} {off : Nat} {v : Value}

theorem readInt_at (hlen : page.length < 2 ^ 63) (hat : At page off bs) :
    readInt page off bs.length = .ok (some (signExtend bs)) := by
  have hroom := hat.length_le
  rw [readInt_of_lt (by omega), slice?_add hroom, hat.take_drop]
  rfl

theorem readRecordInt_int (hlen : page.length < 2 ^ 63) {w : IntWidth} {n : BitVec (8 * w.bytes)}
    (hbody : (Value.int w n).IsBody bs) (hat : At page off bs) :
    readRecordInt page off w.serialType = .ok (some n.toInt) := by
  have hint := readInt_at hlen hat
  rw [signExtend_int w n hbody.1 hbody.2, hbody.1] at hint
  cases w <;> exact hint

/-- An integer column is read as its value. -/
theorem readRecordInt_value (hlen : page.length ≤ 65536) {i : Int} (hint : v.int? = some i)
    (hbody : v.IsBody bs) (hat : At page off bs) :
    readRecordInt page off v.serialType = .ok (some i) := by
  cases v with
  | int w n =>
    rw [← Option.some.inj hint]
    exact readRecordInt_int (by omega) hbody hat
  | zero => rw [← Option.some.inj hint]; rfl
  | one => rw [← Option.some.inj hint]; rfl
  | null => cases hint
  | real bits => cases hint
  | blob bytes => cases hint
  | text bytes => cases hint

theorem readRecordIntKey_value (hlen : page.length ≤ 65536) (hbody : v.IsBody bs) (hat : At page off bs) :
    readRecordIntKey page off v.serialType = .ok (some v.int?) := by
  cases v with
  | null => rfl
  | int w n =>
    have hread := readRecordInt_int (by omega) hbody hat
    have hw : ¬ (w.serialType = 0 ∨ w.serialType = 7) ∧ w.serialType ≤ 9 := by cases w <;> decide
    rw [readRecordIntKey, Value.serialType, if_neg hw.1, if_pos hw.2, hread]
    rfl
  | zero => rfl
  | one => rfl
  | real bits => rfl
  | blob bytes =>
    rw [readRecordIntKey, Value.serialType, if_neg (by omega), if_neg (by omega)]
    rfl
  | text bytes =>
    rw [readRecordIntKey, Value.serialType, if_neg (by omega), if_neg (by omega)]
    rfl

end Values

/-! ### Records -/

section Records

variable {page : Bytes}

/-- The serial types are read to the end of the header. -/
theorem readSerials_at (hlen : page.length ≤ 65536) {values : List Value} {types : List Bytes}
    (htypes : List.Forall₂ (fun v bs => IsVarint v.serialType bs) values types) {pos fuel : Nat}
    (hat : At page pos types.flatten) (hfuel : types.flatten.length ≤ fuel) (serials : List Nat) :
    readSerials page (pos + types.flatten.length) fuel pos serials =
      .ok (some (serials ++ values.map Value.serialType)) := by
  induction htypes generalizing pos fuel serials with
  | nil =>
    rw [List.flatten_nil, List.length_nil, Nat.add_zero, List.map_nil, List.append_nil]
    cases fuel <;> exact if_pos (le_refl pos)
  | @cons v bs values types hv _ ih =>
    rw [List.flatten_cons] at hat hfuel ⊢
    obtain ⟨hatv, hatrest⟩ := hat.of_append
    have hpos := List.length_pos_of_ne_nil hv.ne_nil
    have hroom := hatv.length_le
    rw [List.length_append] at hfuel ⊢
    obtain ⟨fuel, rfl⟩ : ∃ k, fuel = k + 1 := ⟨fuel - 1, by omega⟩
    rw [readSerials, if_neg (by omega), readVarint_at hv hatv]
    dsimp only
    rw [if_neg (by omega), sum_of_lt (by omega), ok_bind, ← Nat.add_assoc,
      ih hatrest (by omega) (serials ++ [v.serialType]), List.append_assoc, List.singleton_append,
      List.map_cons]

theorem skipBodies_at {keys : List Value} {bodies : List Bytes}
    (hbodies : List.Forall₂ Value.IsBody keys bodies) (payloadEnd pos : Nat)
    (hend : pos + bodies.flatten.length ≤ payloadEnd) (hlt : payloadEnd < 2 ^ 64) :
    skipBodies payloadEnd pos (keys.map Value.serialType) = some (pos + bodies.flatten.length) := by
  induction hbodies generalizing pos with
  | nil => rfl
  | @cons v bs keys bodies hv _ ih =>
    rw [List.flatten_cons, List.length_append] at hend ⊢
    rw [hv.length_eq] at hend ⊢
    rw [List.map_cons, skipBodies, serialTypeSize_serialType]
    dsimp only
    rw [add?_of_lt (by omega)]
    dsimp only
    rw [if_neg (by omega), ih _ (by omega), Nat.add_assoc]

/-- The rowid is the last column, the first key the first one. -/
theorem readColumns_at (hlen : page.length ≤ 65536) {keys : List Value} {rowid : Value} {i : Int}
    (hint : rowid.int? = some i) {bodies : List Bytes}
    (hbodies : List.Forall₂ Value.IsBody (keys ++ [rowid]) bodies) {headerEnd : Nat}
    (hat : At page headerEnd bodies.flatten) :
    readColumns page headerEnd (headerEnd + bodies.flatten.length)
        ((keys ++ [rowid]).map Value.serialType) =
      .ok (some (i, ((keys ++ [rowid]).head?.bind Value.int?))) := by
  obtain ⟨first, rest, hcols⟩ := List.exists_cons_of_ne_nil (l := keys ++ [rowid]) (by simp)
  have hroom := hat.length_le
  -- the first column
  have hkey : readRecordIntKey page headerEnd first.serialType = .ok (some first.int?) := by
    rw [hcols] at hbodies
    cases hbodies with
    | @cons _ bs _ bodies hfirst _ =>
      rw [List.flatten_cons] at hat
      exact readRecordIntKey_value hlen hfirst hat.of_append.1
  -- the bodies before the last, and the last
  obtain ⟨front, body, rfl, hkeys, hrowid⟩ := forall₂_concat_left hbodies
  rw [List.flatten_concat] at hat hroom ⊢
  rw [List.length_append] at hroom ⊢
  obtain ⟨hatfront, hatrowid⟩ := hat.of_append
  have hbody := hrowid.length_eq
  have hskip := skipBodies_at hkeys (headerEnd + (front.flatten.length + body.length)) headerEnd
    (by omega) (by omega)
  have hlast : ((keys ++ [rowid]).map Value.serialType).getLast? = some rowid.serialType := by simp
  have hhead : ((keys ++ [rowid]).map Value.serialType).head? = some first.serialType := by
    rw [hcols]
    rfl
  have hfirst : (keys ++ [rowid]).head? = some first := by
    rw [hcols]
    rfl
  have hdrop : ((keys ++ [rowid]).map Value.serialType).dropLast = keys.map Value.serialType := by
    rw [List.map_append, List.map_singleton, List.dropLast_concat]
  unfold readColumns
  rw [hlast, hhead, hdrop, hfirst]
  dsimp only
  rw [orFail_some, ok_bind, hkey, ok_bind]
  dsimp only
  rw [hskip, serialTypeSize_serialType]
  dsimp only
  rw [sum_of_lt (by omega), ok_bind, if_neg (by omega), readRecordInt_value hlen hint hrowid hatrowid]
  rfl

/-- A payload of the format. -/
theorem readRecord_at (hlen : page.length ≤ 65536) (c : IndexCell) {off : Nat}
    (hat : At page off c.payload) :
    readRecord page off (off + c.payload.length) =
      .ok (some (c.rowidInt, (c.keys ++ [c.rowid]).head?.bind Value.int?)) := by
  obtain ⟨len, types, bodies, hrec⟩ := c.isRecord
  have hpayload := hrec.payload_eq
  rw [hpayload] at hat ⊢
  obtain ⟨hatlen, hatrest⟩ := hat.of_append
  obtain ⟨hattypes, hatbodies⟩ := hatrest.of_append
  have hroom := hat.length_le
  rw [List.length_append, List.length_append] at hroom ⊢
  have hend : off + (len.length + (types.flatten.length + bodies.flatten.length)) =
      off + len.length + types.flatten.length + bodies.flatten.length := by omega
  unfold readRecord
  rw [readVarint_at hrec.isLen hatlen]
  dsimp only
  rw [if_neg (by omega), add?_of_lt (by omega)]
  dsimp only
  rw [if_neg (by omega), sum_of_lt (by omega), ok_bind, ← Nat.add_assoc off len.length,
    readSerials_at hlen hrec.isTypes hattypes (by omega) [], ok_bind, hend]
  exact readColumns_at hlen c.isInt hrec.isBodies hatbodies

end Records

/-! ### Index leaves -/

/-- The parser and the page agree on whether the payload of the cell spills. -/
def Judged (usable maxLocal' : Nat) (c : IndexCell) : Prop :=
  c.payload.length ≤ maxLocal usable ↔ c.payload.length ≤ maxLocal'

/-- What one cell adds: a whole one its rowid and first key, a spilled one to the count. -/
def pushIndexCell (usable : Nat) (out : IndexLeafRowids) (c : IndexCell) : IndexLeafRowids :=
  if c.payload.length ≤ maxLocal usable then
    { out with
      rowids := out.rowids ++ [c.rowidInt]
      firstIntKeys := out.firstIntKeys ++ [(c.keys ++ [c.rowid]).head?.bind Value.int?] }
  else { out with overflowCells := out.overflowCells + 1 }

theorem indexLeafTurn_cell {page : Bytes} (hlen : page.length ≤ 65536) {usable maxLocal' off : Nat}
    {c : IndexCell} {out : IndexLeafRowids} (h : IsIndexCell page usable off c)
    (hjudged : Judged usable maxLocal' c) :
    indexLeafTurn page maxLocal' out off = .ok (pushIndexCell usable out c) := by
  obtain ⟨n, hn, hat⟩ := h
  have hsize := c.size
  have hnlen := hn.length_le
  unfold indexLeafTurn parseIndexLeafCellRowid pushIndexCell
  by_cases hfits : c.payload.length ≤ maxLocal usable
  · rw [if_pos hfits] at hat
    obtain ⟨hatn, hatpayload⟩ := hat.of_append
    have hroom := hatpayload.length_le
    rw [readVarint_at hn hatn]
    dsimp only
    rw [add?_of_lt (by omega)]
    dsimp only
    rw [add?_of_lt (by omega)]
    dsimp only
    rw [if_neg (Nat.not_lt.mpr (hjudged.mp hfits)), if_neg (by omega), readRecord_at hlen c hatpayload,
      if_pos hfits]
    rfl
  · rw [if_neg hfits] at hat
    have hroom := hat.length_le
    rw [readVarint_at hn hat]
    dsimp only
    rw [add?_of_lt (by omega)]
    dsimp only
    rw [add?_of_lt (by omega)]
    dsimp only
    rw [if_pos (Nat.not_le.mp (mt hjudged.mpr hfits)), if_neg hfits]
    rfl

/-- The cells that do not spill. -/
def wholeCells (usable : Nat) (cells : List IndexCell) : List IndexCell :=
  cells.filter fun c => c.payload.length ≤ maxLocal usable

theorem foldl_pushIndexCell (usable : Nat) (cells : List IndexCell) (out : IndexLeafRowids) :
    cells.foldl (pushIndexCell usable) out =
      { out with
        rowids := out.rowids ++ (wholeCells usable cells).map (·.rowidInt)
        firstIntKeys := out.firstIntKeys ++
          (wholeCells usable cells).map fun c => (c.keys ++ [c.rowid]).head?.bind Value.int?
        overflowCells := out.overflowCells +
          (cells.filter fun c => ¬ c.payload.length ≤ maxLocal usable).length } := by
  induction cells generalizing out with
  | nil => simp [wholeCells]
  | cons c cells ih =>
    rw [List.foldl_cons, ih, pushIndexCell]
    by_cases hfits : c.payload.length ≤ maxLocal usable
    · simp [wholeCells, hfits]
    · simp [wholeCells, hfits, Nat.not_le.mp hfits, Nat.add_assoc, Nat.add_comm 1]

theorem indexMaxLocalPayload_eq {usable : Nat} (h : usable ≤ 65536) :
    indexMaxLocalPayload usable = .ok (maxLocal usable) := by
  unfold indexMaxLocalPayload maxLocal
  split_ifs with hsmall
  · rw [Nat.sub_eq_zero_of_le hsmall]
  · rw [mul?_of_lt (by omega)]
    rfl

theorem indexUsableSize_le (page : Bytes) (page1 : Bool) (usable : Option Nat) :
    indexUsableSize page page1 usable ≤ page.length := by
  unfold indexUsableSize
  cases usable with
  | some usable => exact Nat.min_le_right _ _
  | none =>
    dsimp only
    split_ifs <;> omega

/-- The rowids and first keys of the cells that do not spill, in the order of their cells. -/
theorem parseIndexLeafRowids_eq {page : Bytes} {page1 : Bool} {usable : Nat} {cells : List IndexCell}
    {offs : List Nat} (h : IsIndexLeaf page page1 usable cells offs) {cap : Nat}
    (hcap : cells.length ≤ cap) {usableSize : Option Nat}
    (hjudged : ∀ c ∈ cells, Judged usable (maxLocal (indexUsableSize page page1 usableSize)) c) :
    parseIndexLeafRowids page page1 cap usableSize = .ok
      { rowids := (wholeCells usable cells).map (·.rowidInt)
        firstIntKeys :=
          (wholeCells usable cells).map fun c => (c.keys ++ [c.rowid]).head?.bind Value.int?
        overflowCells := (cells.filter fun c => ¬ c.payload.length ≤ maxLocal usable).length } := by
  obtain ⟨hheader, hcount⟩ := hasCells_read h.layout
  rcases Nat.eq_zero_or_pos cap with rfl | hpos
  · rw [List.eq_nil_of_length_eq_zero (Nat.le_zero.mp hcap)]
    rfl
  have hlen := h.layout.size
  have hmax := indexMaxLocalPayload_eq (le_trans (indexUsableSize_le page page1 usableSize) hlen)
  have hcells : List.Forall₂ (fun off c => c ∈ cells ∧ IsIndexCell page usable off c) offs cells := by
    have hflip : List.Forall₂ (flip (IsIndexCell page usable)) cells offs := List.Forall₂.flip h.contents
    exact List.Forall₂.flip ((List.forall₂_and_left cells offs).mpr ⟨fun c hc => hc, hflip⟩)
  have hturn : ∀ off c out, (c ∈ cells ∧ IsIndexCell page usable off c) →
      indexLeafTurn page (maxLocal (indexUsableSize page page1 usableSize)) out off =
        .ok (pushIndexCell usable out c) :=
    fun off c out hc => indexLeafTurn_cell hlen hc.2 (hjudged c hc.1)
  unfold parseIndexLeafRowids
  rw [if_neg (by omega), hheader]
  dsimp only
  rw [if_neg (not_not.mpr h.layout.kind), hcount, ok_bind, hmax, ok_bind, Option.getD_some,
    forCells_eq hlen hturn hcells 0 {}
      (fun j off hoff => by simpa using h.layout.pointers j off hoff) ?_, foldl_pushIndexCell]
  · simp
  · intro done c rest hsplit
    have hle := List.length_filter_le (fun c : IndexCell => decide (c.payload.length ≤ maxLocal usable))
      done
    have hdone := congrArg List.length hsplit
    rw [List.length_append, List.length_cons] at hdone
    rw [foldl_pushIndexCell]
    simp [wholeCells]
    omega

/-! ### The parsers -/

/-- The usable size that the parser goes by is that of the page: it was passed, or page 1 tells the
reserved bytes, or there are none. -/
def Known (page : Bytes) (page1 : Bool) (usable : Nat) (usableSize : Option Nat) : Prop :=
  usable ≤ page.length ∧ (usableSize = some usable ∨
    (usableSize = none ∧ if page1 then page[20]? = some (UInt8.ofNat (page.length - usable)) ∧
      page.length - usable < 256 else usable = page.length))

theorem indexUsableSize_known {page : Bytes} {page1 : Bool} {usable : Nat} {usableSize : Option Nat}
    (h : Known page page1 usable usableSize) : indexUsableSize page page1 usableSize = usable := by
  obtain ⟨hle, rfl | ⟨rfl, hnone⟩⟩ := h
  · exact Nat.min_eq_left hle
  · cases page1 with
    | false => exact hnone.symm
    | true =>
      obtain ⟨hbyte, hlt⟩ := hnone
      have hreserved : (UInt8.ofNat (page.length - usable)).toNat = page.length - usable :=
        Nat.mod_eq_of_lt hlt
      simp only [indexUsableSize, if_true, hbyte, Option.map_some, Option.getD_some, hreserved]
      omega

/-- Where the usable size is known, every cell is judged right. -/
theorem judged_of_known {page : Bytes} {page1 : Bool} {usable : Nat} {usableSize : Option Nat}
    (h : Known page page1 usable usableSize) (c : IndexCell) :
    Judged usable (maxLocal (indexUsableSize page page1 usableSize)) c := by
  rw [indexUsableSize_known h]
  exact Iff.rfl

/-- **The parsers.** On any slice the table parsers return, and the index parser does exactly when the
product in the overflow threshold fits, which it does on slices of less than `2 ^ 58` bytes. On pages of
the format, all cells of an interior page are read; those of a table leaf are exactly when no rowid is
negative; those of an index leaf that do not spill are when the parser knows which ones do. -/
theorem parsers_read (s : Slice) (page1 : Bool) (cap : Nat) (usableSize : Option Nat) :
    ((∃ r, parseTableLeafRowids s.bytes page1 cap = .ok r) ∧
      (∃ r, parseTableInteriorCells s.bytes page1 = .ok r) ∧
      ((∃ r, parseIndexLeafRowids s.bytes page1 cap usableSize = .ok r) ↔
        (ReachesIndexCells s.bytes page1 cap →
          (indexUsableSize s.bytes page1 usableSize - 12) * 64 < 2 ^ 64))) ∧
    (∀ rowids offs, IsTableLeaf s.bytes page1 rowids offs → rowids.length ≤ cap →
      ((∃ r, parseTableLeafRowids s.bytes page1 cap = .ok r ∧ r.rowids = rowids.map BitVec.toInt) ↔
        ∀ r ∈ rowids, 0 ≤ r.toInt)) ∧
    (∀ cells rightmost offs, IsTableInterior s.bytes page1 cells rightmost offs →
      ∃ r, parseTableInteriorCells s.bytes page1 = .ok r ∧ r.cells = cells.map interiorCell ∧
        r.rightmostChildPage = some rightmost) ∧
    (∀ usable cells offs, IsIndexLeaf s.bytes page1 usable cells offs → cells.length ≤ cap →
      (∀ c ∈ cells, Judged usable (maxLocal (indexUsableSize s.bytes page1 usableSize)) c) →
      ∃ r, parseIndexLeafRowids s.bytes page1 cap usableSize = .ok r ∧
        r.rowids = (wholeCells usable cells).map (·.rowidInt) ∧
        r.firstIntKeys =
          (wholeCells usable cells).map fun c => (c.keys ++ [c.rowid]).head?.bind Value.int?) := by
  refine ⟨⟨parseTableLeafRowids_ok _ _ _, parseTableInteriorCells_ok _ _,
    parseIndexLeafRowids_ok_iff s.length_lt cap usableSize⟩, fun rowids offs h hcap => ?_,
    fun cells rightmost offs h => ?_, fun usable cells offs h hcap hj => ?_⟩
  · rw [parseTableLeafRowids_eq h hcap]
    constructor
    · rintro ⟨r, hr, hrowids⟩
      rw [← Except.ok.inj hr] at hrowids
      have hlen := congrArg List.length hrowids
      rw [List.length_map, List.length_map, List.length_filter_eq_length_iff] at hlen
      simpa using hlen
    · intro hall
      refine ⟨_, rfl, ?_⟩
      rw [List.filter_eq_self.mpr fun r hr => decide_eq_true (hall r hr)]
  · exact ⟨_, parseTableInteriorCells_eq h, rfl, rfl⟩
  · exact ⟨_, parseIndexLeafRowids_eq h hcap hj, rfl, rfl⟩

/-- A leaf with the one rowid whose varint is given. -/
def oneRowid (varint : Bytes) : Bytes := [0x0d, 0, 0, 0, 1, 0, 0, 0, 0, 10, 2] ++ varint ++ [2, 0]

/-- A leaf with the key 7 and the rowid 9. -/
def oneKey : Bytes := [0x0a, 0, 0, 0, 1, 0, 0, 0, 0, 10, 5, 3, 1, 1, 7, 9] ++ List.replicate 108 0

theorem isVarint_one {v : Nat} {b : UInt8} (hv : v = b.toNat) (h : b.toNat < 128) :
    IsVarint v [b] := by
  have hshort : IsVarint (base128 ([] ++ [b])) ([] ++ [b]) := .short (by decide) (by simp) h
  rw [hv]
  simpa [base128, Nat.mod_eq_of_lt h] using hshort

theorem isTableLeaf_oneRowid {varint : Bytes} {rowid : BitVec 64} (h : IsVarint rowid.toNat varint) :
    IsTableLeaf (oneRowid varint) false [rowid] [10] := by
  have hlen := h.length_le
  refine ⟨⟨?_, rfl, ?_, ⟨?_, rfl⟩, fun i off hoff => ?_⟩,
    .cons ⟨2, [2], varint, isVarint_one rfl (by decide), h, ?_, [2, 0], ?_⟩ .nil⟩
  · simp [oneRowid]
    omega
  · simp [oneRowid, headerOffset]
  · simp [oneRowid, headerOffset]
  · cases i with
    | zero =>
      cases hoff
      exact ⟨by simp [oneRowid, headerOffset], rfl⟩
    | succ i => cases hoff
  · simp [oneRowid]
  · simp [oneRowid]

/-- The cell of `oneKey`. -/
theorem exists_isIndexLeaf_oneKey :
    ∃ c : IndexCell, c.rowidInt = 9 ∧ c.keys.map Value.int? = [some 7] ∧ c.payload.length = 5 ∧
      IsIndexLeaf oneKey false 124 [c] [10] := by
  have hrecord : IsRecord ([.int .w1 7] ++ [.int .w1 9]) [3, 1, 1, 7, 9] [3] [[1], [1]] [[7], [9]] :=
    ⟨.cons (isVarint_one rfl (by decide)) (.cons (isVarint_one rfl (by decide)) .nil),
      .cons ⟨rfl, rfl⟩ (.cons ⟨rfl, rfl⟩ .nil), isVarint_one rfl (by decide), rfl⟩
  have hcell : At oneKey 10 ([5] ++ [3, 1, 1, 7, 9]) := by decide +kernel
  refine ⟨⟨[.int .w1 7], .int .w1 9, 9, rfl, [3, 1, 1, 7, 9], by decide, _, _, _, hrecord⟩, rfl, rfl, rfl,
    ⟨by decide +kernel, rfl, by decide +kernel, by decide +kernel, fun i off hoff => ?_⟩,
    .cons ⟨[5], isVarint_one rfl (by decide), hcell⟩ .nil⟩
  cases i with
  | zero =>
    cases hoff
    decide +kernel
  | succ i => cases hoff

theorem fits_of_le {page : Bytes} (h : page.length ≤ 65536) : page.length ≤ LocalFormat.maxVecLen :=
  Nat.le_trans h (by decide)

theorem exists_slice {page : Bytes} (h : page.length ≤ 65536) : ∃ s : Slice, s.bytes = page :=
  ⟨⟨page, fits_of_le h⟩, rfl⟩

theorem parsers_read_oneKey :
    (∃ r, parseIndexLeafRowids oneKey false 1 (some 124) = .ok r ∧ r.rowids = [9] ∧
      r.firstIntKeys = [some 7]) ∧
    ∃ r, parseTableLeafRowids (oneRowid [5]) false 1 = .ok r ∧ r.rowids = [5] := by
  constructor
  · obtain ⟨c, hrowid, hkeys, hlen, hleaf⟩ := exists_isIndexLeaf_oneKey
    have hknown : Known oneKey false 124 (some 124) := ⟨by decide +kernel, .inl rfl⟩
    obtain ⟨s, hs⟩ := exists_slice hleaf.layout.size
    rw [← hs] at hleaf hknown ⊢
    obtain ⟨r, hr, hrowids, hfirst⟩ := (parsers_read s false 1 (some 124)).2.2.2 124 [c] [10] hleaf
      (le_refl 1) fun c _ => judged_of_known hknown c
    have hwhole : wholeCells 124 [c] = [c] :=
      List.filter_eq_self.mpr fun d hd => by
        rw [List.mem_singleton.mp hd, hlen]
        decide
    obtain ⟨k, ks, hk⟩ := List.exists_cons_of_ne_nil (l := c.keys) (by
      intro hnil
      rw [hnil] at hkeys
      cases hkeys)
    rw [hk, List.map_cons] at hkeys
    rw [hwhole] at hrowids hfirst
    refine ⟨r, hr, by rw [hrowids, List.map_singleton, hrowid], ?_⟩
    rw [hfirst, List.map_singleton, hk]
    exact congrArg (fun i => [i]) (List.cons.inj hkeys).1
  · have hvarint : IsVarint (5 : BitVec 64).toNat [5] := isVarint_one rfl (by decide)
    have hleaf := isTableLeaf_oneRowid hvarint
    obtain ⟨s, hs⟩ := exists_slice hleaf.layout.size
    rw [← hs] at hleaf ⊢
    have hpos : ∀ r ∈ [(5 : BitVec 64)], 0 ≤ r.toInt := by simp
    have hmap : [(5 : BitVec 64)].map BitVec.toInt = [5] := by simp
    obtain ⟨r, hr, hrowids⟩ :=
      ((parsers_read s false 1 none).2.1 [5] [10] hleaf (le_refl 1)).mpr hpos
    exact ⟨r, hr, hrowids.trans hmap⟩

/-- A negative rowid is counted as malformed. -/
theorem negative_rowid_dropped :
    ∃ page, IsTableLeaf page false [-1] [10] ∧
      parseTableLeafRowids page false 1 = .ok { rowids := [], malformedCells := 1 } := by
  have hval : (-1 : BitVec 64).toNat = base128 (List.replicate 8 255) * 256 + (255 : UInt8).toNat := by
    decide
  have hvarint : IsVarint (-1 : BitVec 64).toNat (List.replicate 8 255 ++ [255]) := by
    rw [hval]
    refine .long (by decide) fun b hb => ?_
    rw [List.eq_of_mem_replicate hb]
    decide
  exact ⟨oneRowid (List.replicate 8 255 ++ [255]), isTableLeaf_oneRowid hvarint, by decide +kernel⟩

end BTreePeek

end Turbolite
