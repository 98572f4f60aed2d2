import Mathlib.Data.Bool.AllAny
import Turbolite.BTreePages
import Turbolite.BTreeWalker

/-!
# Turbolite.Varints

The readers of variable-length integers in `btree_walker.rs` and `btree_peek.rs` beside each other, and
their readers of record integers. Both read the canonical encoding of a `u64`, and they agree where a
varint ends. In front of the end of the buffer the one of `btree_peek.rs` has no result, and the one of
`btree_walker.rs`, which has no way to say so, gives the bits and the bytes there are.
-/

namespace Turbolite

open Blocks Results Checked

namespace Varints

open SqliteFormat hiding Bytes

/-- Every byte to the end of the buffer asks for another one. -/
def Truncated (buf : Bytes) : Prop := buf.length ≤ 8 ∧ ∀ b ∈ buf, 128 ≤ b.toNat

/-! ### The two loops -/

section Loops

variable {left i val : Nat} {buf : Bytes}

theorem go_of_varintFrom {r : Nat × Nat} (h : BTreePeek.varintFrom left i val buf = some r) :
    BTreeWalker.readVarint.go left val i buf = r := by
  induction buf generalizing left i val with
  | nil => cases left <;> cases h
  | cons b bs ih =>
    cases left with
    | zero =>
      rw [BTreePeek.varintFrom] at h
      exact Option.some.inj h
    | succ left =>
      rw [BTreePeek.varintFrom] at h
      rw [BTreeWalker.readVarint.go]
      split at h
      · rename_i hlast
        rw [if_pos hlast]
        rw [Nat.mod_eq_of_lt hlast] at h
        exact Option.some.inj h
      · rename_i hmore
        rw [if_neg hmore]
        exact ih h

/-- The loops at the end of the buffer. -/
theorem loops_of_truncated (hlen : buf.length ≤ left) (hmore : ∀ b ∈ buf, 128 ≤ b.toNat) :
    BTreePeek.varintFrom left i val buf = none ∧
    BTreeWalker.readVarint.go left val i buf =
      (buf.foldl (fun n b => n * 128 + b.toNat % 128) val, i + buf.length) := by
  induction buf generalizing left i val with
  | nil => cases left <;> exact ⟨rfl, rfl⟩
  | cons b bs ih =>
    cases left with
    | zero => simp at hlen
    | succ left =>
      have hb : ¬ b.toNat < 128 := Nat.not_lt.mpr (hmore b List.mem_cons_self)
      obtain ⟨hnone, hgo⟩ := @ih left (i + 1) (val * 128 + b.toNat % 128)
        (Nat.le_of_succ_le_succ hlen) fun c hc => hmore c (List.mem_cons_of_mem b hc)
      rw [BTreePeek.varintFrom, BTreeWalker.readVarint.go, if_neg hb, if_neg hb]
      refine ⟨hnone, hgo.trans ?_⟩
      rw [List.foldl_cons, List.length_cons]
      congr 1
      omega

theorem varintFrom_isSome (h : ¬ (buf.length ≤ left ∧ ∀ b ∈ buf, 128 ≤ b.toNat)) :
    ∃ r, BTreePeek.varintFrom left i val buf = some r := by
  induction buf generalizing left i val with
  | nil => simp at h
  | cons b bs ih =>
    cases left with
    | zero => exact ⟨_, rfl⟩
    | succ left =>
      rw [BTreePeek.varintFrom]
      split
      · exact ⟨_, rfl⟩
      · rename_i hb
        refine ih fun hbs => h ⟨Nat.succ_le_succ hbs.1, ?_⟩
        intro c hc
        rcases List.mem_cons.mp hc with rfl | hmem
        · exact Nat.not_lt.mp hb
        · exact hbs.2 c hmem

end Loops

/-! ### The two readers -/

section Readers

variable {buf : Bytes} {off : Nat}

theorem readVarint_agree (hoff : off ≤ buf.length) (h : ¬ Truncated (buf.drop off)) :
    BTreePeek.readVarint buf off = some (BTreeWalker.readVarint (buf.drop off)) := by
  rw [BTreePeek.readVarint, if_pos hoff]
  obtain ⟨r, hr⟩ : ∃ r, BTreePeek.varintFrom 8 0 0 (buf.drop off) = some r := varintFrom_isSome h
  rw [hr, BTreeWalker.readVarint, go_of_varintFrom hr]

theorem readVarint_truncated (hoff : off ≤ buf.length) (h : Truncated (buf.drop off)) :
    BTreePeek.readVarint buf off = none ∧
    BTreeWalker.readVarint (buf.drop off) = (base128 (buf.drop off), (buf.drop off).length) := by
  obtain ⟨hnone, hgo⟩ := @loops_of_truncated 8 0 0 _ h.1 h.2
  rw [BTreePeek.readVarint, if_pos hoff]
  refine ⟨hnone, hgo.trans ?_⟩
  rw [Nat.zero_add]
  rfl

theorem readVarint_outside (hoff : buf.length < off) : BTreePeek.readVarint buf off = none :=
  if_neg (Nat.not_le.mpr hoff)

/-- Both read a varint that stands at the offset. -/
theorem readVarints_at {v : Nat} {enc pre post : Bytes} (h : IsVarint v enc) :
    BTreeWalker.readVarint (enc ++ post) = (v, enc.length) ∧
    BTreePeek.readVarint (pre ++ enc ++ post) pre.length = some (v, enc.length) := by
  have hdrop : (pre ++ enc ++ post).drop pre.length = enc ++ post := by simp
  have hoff : pre.length ≤ (pre ++ enc ++ post).length := by simp
  have hpeek : BTreePeek.readVarint (pre ++ enc ++ post) pre.length = some (v, enc.length) :=
    BTreePeek.readVarint_at h ⟨hoff, by rw [hdrop]; exact List.prefix_append enc post⟩
  refine ⟨?_, hpeek⟩
  rw [BTreePeek.readVarint, if_pos hoff, hdrop] at hpeek
  exact go_of_varintFrom hpeek

end Readers

/-! ### Record integers -/

section Integers

variable {w : IntWidth} {field pre post : Bytes}

theorem bytes_le (w : IntWidth) : 0 < w.bytes ∧ w.bytes ≤ 8 := by
  cases w <;> decide

theorem bigEndian_lt (hlen : field.length = w.bytes) : bigEndian field < 2 ^ (8 * w.bytes) := by
  have hlt : bigEndian field < 256 ^ field.length := ofBeBytes_lt field
  rw [hlen] at hlt
  rwa [Nat.pow_mul]

/-- `read_record_int`. -/
theorem readRecordInt_twosComplement (hlen : field.length = w.bytes)
    (hbuf : (pre ++ field ++ post).length < 2 ^ 63) :
    BTreePeek.readRecordInt (pre ++ field ++ post) pre.length w.serialType =
      .ok (some (twosComplement w field)) := by
  have hbody : (Value.int w (BitVec.ofNat (8 * w.bytes) (bigEndian field))).IsBody field := by
    refine ⟨hlen, ?_⟩
    rw [BitVec.toNat_ofNat, Nat.mod_eq_of_lt (bigEndian_lt hlen)]
  refine BTreePeek.readRecordInt_int hbuf hbody ⟨by simp, ?_⟩
  rw [List.append_assoc, List.drop_left]
  exact List.prefix_append field post

/-- The sign bits above the field. -/
theorem toI64_signExtend (hlen : field.length = w.bytes) :
    BTreePeek.toI64 (BTreeWalker.signExtend field) = twosComplement w field ∧
    BTreeWalker.signExtend field < 2 ^ 64 := by
  have hlt := bigEndian_lt hlen
  obtain ⟨hpos, hle⟩ := bytes_le w
  have hhalf : 2 ^ (8 * w.bytes) = 2 * 2 ^ (8 * w.bytes - 1) := by
    rw [← Nat.pow_succ']
    congr 1
    omega
  have hword : 2 ^ (8 * w.bytes) ≤ 2 ^ 64 := Nat.pow_le_pow_right (by decide) (by omega)
  have hone : 0 < 2 ^ (8 * w.bytes - 1) := Nat.two_pow_pos _
  have hsign : BTreeWalker.signExtend field = if bigEndian field < 2 ^ (8 * field.length - 1) then
      bigEndian field else bigEndian field + 2 ^ 64 - 2 ^ (8 * field.length) :=
    BTreeWalker.signExtend_eq (by omega) (by omega)
  rw [hsign]
  unfold twosComplement
  rw [hlen, BitVec.toInt_eq_toNat_cond, BitVec.toNat_ofNat, Nat.mod_eq_of_lt hlt]
  split
  · rename_i hsmall
    rw [BTreePeek.toI64_of_lt (by omega), if_pos (by omega), if_pos (by omega)]
    exact ⟨rfl, by omega⟩
  · rename_i hbig
    rw [BTreePeek.toI64_of_lt (by omega), if_neg (by omega), if_neg (by omega)]
    exact ⟨by omega, by omega⟩

/-- `read_column_int`, as the `u64` that the caller makes of its `i64`. -/
theorem readColumnInt_twosComplement (hlen : field.length = w.bytes)
    (hbuf : (pre ++ field ++ post).length < 2 ^ 63) :
    BTreeWalker.readColumnInt (pre ++ field ++ post) pre.length w.serialType =
      .ok (some (BTreeWalker.signExtend field)) := by
  have hroom : pre.length + w.bytes ≤ (pre ++ field ++ post).length := by
    simp only [List.length_append]
    omega
  have htake : ((pre ++ field ++ post).drop pre.length).take w.bytes = field := by
    rw [List.append_assoc, List.drop_left, ← hlen, List.take_left]
  have hwrap : BTreeWalker.wrapAdd pre.length w.bytes = pre.length + w.bytes := Nat.mod_eq_of_lt (by omega)
  have hread : (if (pre ++ field ++ post).length < BTreeWalker.wrapAdd pre.length w.bytes then
        (.ok none : IoResult (Option Nat))
      else if (pre ++ field ++ post).length < pre.length + w.bytes then .error .panic
      else .ok (some (BTreeWalker.signExtend (((pre ++ field ++ post).drop pre.length).take w.bytes)))) =
      .ok (some (BTreeWalker.signExtend field)) := by
    rw [hwrap, if_neg (Nat.not_lt.mpr hroom), if_neg (Nat.not_lt.mpr hroom), htake]
  cases w <;> exact hread

end Integers

/-- The canonical encoding of a `u64` is the shortest varint and has up to nine bytes. Both readers
decode it, whatever stands before and after it, and where the buffer has a varint to its end they agree
at every offset. A truncated varint has no result in one and the bits that are there in the other. An
integer of a record is the two's complement of its bytes. -/
theorem varints_decode :
    (∀ v : UInt64, IsVarint v.toNat (encodeVarint v.toNat) ∧
      (∀ bs, IsVarint v.toNat bs → (encodeVarint v.toNat).length ≤ bs.length) ∧
      1 ≤ (encodeVarint v.toNat).length ∧ (encodeVarint v.toNat).length ≤ 9 ∧
      ∀ pre post,
        BTreeWalker.readVarint (encodeVarint v.toNat ++ post) = (v.toNat, (encodeVarint v.toNat).length) ∧
        BTreePeek.readVarint (pre ++ encodeVarint v.toNat ++ post) pre.length =
          some (v.toNat, (encodeVarint v.toNat).length)) ∧
    (∀ (buf : Bytes) (off : Nat), off ≤ buf.length →
      (¬ Truncated (buf.drop off) →
        BTreePeek.readVarint buf off = some (BTreeWalker.readVarint (buf.drop off))) ∧
      (Truncated (buf.drop off) → BTreePeek.readVarint buf off = none ∧
        BTreeWalker.readVarint (buf.drop off) = (base128 (buf.drop off), (buf.drop off).length))) ∧
    (∀ (buf : Bytes) (off : Nat), buf.length < off → BTreePeek.readVarint buf off = none) ∧
    ∀ (w : IntWidth) (pre field post : Bytes), field.length = w.bytes →
      (pre ++ field ++ post).length < 2 ^ 63 →
      BTreePeek.readRecordInt (pre ++ field ++ post) pre.length w.serialType =
        .ok (some (twosComplement w field)) ∧
      ∃ n, BTreeWalker.readColumnInt (pre ++ field ++ post) pre.length w.serialType = .ok (some n) ∧
        n < 2 ^ 64 ∧ BTreePeek.toI64 n = twosComplement w field := by
  refine ⟨fun v => ?_, fun buf off hoff => ⟨readVarint_agree hoff, readVarint_truncated hoff⟩,
    fun buf off hoff => readVarint_outside hoff, fun w pre field post hlen hbuf => ?_⟩
  · have hvarint : IsVarint v.toNat (encodeVarint v.toNat) := isVarint_encodeVarint v.toNat_lt
    exact ⟨hvarint, fun bs => encodeVarint_shortest, List.length_pos_iff.mpr hvarint.ne_nil,
      hvarint.length_le, fun pre post => readVarints_at hvarint⟩
  · obtain ⟨hvalue, hword⟩ := toI64_signExtend hlen
    exact ⟨readRecordInt_twosComplement hlen hbuf, _, readColumnInt_twosComplement hlen hbuf, hword,
      hvalue⟩

/-- At an offset: the field `ff fe`, and a truncated varint. -/
theorem varints_decode_at_1 :
    BTreePeek.readRecordInt [0xff, 0xff, 0xfe, 0x00] 1 2 = .ok (some (-2)) ∧
    (∃ n, BTreeWalker.readColumnInt [0xff, 0xff, 0xfe, 0x00] 1 2 = .ok (some n) ∧
      n < 2 ^ 64 ∧ BTreePeek.toI64 n = -2) ∧
    BTreePeek.readVarint [0x00, 0x81] 1 = none ∧ BTreeWalker.readVarint [0x81] = (1, 1) ∧
    BTreePeek.readVarint [0x00, 0x82, 0x2c, 0xff] 1 = some (300, 2) ∧
    BTreePeek.readVarint [0x00] 2 = none := by
  obtain ⟨-, hagree, houtside, hints⟩ := varints_decode
  have hvalue : twosComplement .w2 [0xff, 0xfe] = -2 := by decide
  obtain ⟨hpeek, hwalker⟩ := hints .w2 [0xff] [0xff, 0xfe] [0x00] rfl (by decide)
  rw [hvalue] at hpeek hwalker
  have htruncated : Truncated [0x81] := ⟨by decide, List.all_iff_forall_prop.mp (by decide)⟩
  obtain ⟨hnone, hbits⟩ := (hagree [0x00, 0x81] 1 (by decide)).2 htruncated
  have hwhole : ¬ Truncated [0x82, 0x2c, 0xff] := fun h => absurd (h.2 0x2c (by decide)) (by decide)
  have hthree := (hagree [0x00, 0x82, 0x2c, 0xff] 1 (by decide)).1 hwhole
  exact ⟨hpeek, hwalker, hnone, hbits, hthree, houtside [0x00] 2 (by decide)⟩

/-- A truncated varint and a whole one look alike to `btree_walker.rs` and not to `btree_peek.rs`. -/
theorem truncated_differ : ¬ ∃ result : Nat × Nat → Option (Nat × Nat), ∀ (buf : Bytes) (off : Nat),
    off ≤ buf.length → BTreePeek.readVarint buf off = result (BTreeWalker.readVarint (buf.drop off)) := by
  rintro ⟨result, h⟩
  have htruncated : none = result (1, 1) := h [0x81] 0 (by decide)
  have hwhole : some (1, 1) = result (1, 1) := h [0x01] 0 (by decide)
  cases htruncated.trans hwhole.symm

end Varints

end Turbolite
