import Mathlib.Data.List.Forall2
import Mathlib.Data.List.Infix
import Mathlib.Data.Nat.Log
import Mathlib.Tactic.Ring

/-!
# Turbolite.Lib.SqliteFormat

The pages of B-trees in a SQLite database file: variable-length integers, records and their serial
types, and the cells of leaf and interior pages. Everything here says which bytes hold which content;
nothing is decoded. A field of a page is given by the bytes that stand at its offset, so a content may
have several encodings (a varint need not be the shortest) and a page may hold more than its cells.
-/

namespace SqliteFormat

/-- The contents of a file or a page. -/
abbrev Bytes := List UInt8

/-! ### Integers -/

/-- The number that the bytes write. -/
def bigEndian (bs : Bytes) : Nat := bs.foldl (fun n b => n * 256 + b.toNat) 0

/-- Seven bits of every byte. -/
def base128 (bs : Bytes) : Nat := bs.foldl (fun n b => n * 128 + b.toNat % 128) 0

/-- A varint of up to eight bytes of seven bits, or of eight and a ninth with all its bits. -/
inductive IsVarint : Nat → Bytes → Prop
  | short {init : Bytes} {last : UInt8} (hlen : init.length < 8) (hinit : ∀ b ∈ init, 128 ≤ b.toNat)
      (hlast : last.toNat < 128) : IsVarint (base128 (init ++ [last])) (init ++ [last])
  | long {init : Bytes} {last : UInt8} (hlen : init.length = 8) (hinit : ∀ b ∈ init, 128 ≤ b.toNat) :
      IsVarint (base128 init * 256 + last.toNat) (init ++ [last])

/-- The low `n` septets of a number, each with its continuation bit. -/
def septets : Nat → Nat → Bytes
  | 0, _ => []
  | n + 1, v => septets n (v / 128) ++ [UInt8.ofNat (128 + v % 128)]

/-- The canonical varint: the shortest whose last byte has seven bits, or the nine bytes that a number
of more than 56 bits needs. -/
def encodeVarint (v : Nat) : Bytes :=
  if v < 2 ^ 56 then septets (Nat.log 128 v) (v / 128) ++ [UInt8.ofNat (v % 128)]
  else septets 8 (v / 256) ++ [UInt8.ofNat (v % 256)]

/-- The bytes stand in the page at the offset. -/
def At (page : Bytes) (off : Nat) (bs : Bytes) : Prop := off ≤ page.length ∧ bs <+: page.drop off

/-- A big-endian field of the page. -/
def HasField (page : Bytes) (off width value : Nat) : Prop :=
  off + width ≤ page.length ∧ bigEndian ((page.drop off).take width) = value

instance decidableAt (page : Bytes) (off : Nat) (bs : Bytes) : Decidable (At page off bs) :=
  inferInstanceAs (Decidable (_ ∧ _))

instance decidableHasField (page : Bytes) (off width value : Nat) :
    Decidable (HasField page off width value) :=
  inferInstanceAs (Decidable (_ ∧ _))

/-! ### Records -/

/-- The widths of stored integers. -/
inductive IntWidth where
  | w1
  | w2
  | w3
  | w4
  | w6
  | w8
  deriving DecidableEq, Repr

/-- The bytes of an integer of that width. -/
def IntWidth.bytes : IntWidth → Nat
  | .w1 => 1
  | .w2 => 2
  | .w3 => 3
  | .w4 => 4
  | .w6 => 6
  | .w8 => 8

/-- The serial type of an integer of that width. -/
def IntWidth.serialType : IntWidth → Nat
  | .w1 => 1
  | .w2 => 2
  | .w3 => 3
  | .w4 => 4
  | .w6 => 5
  | .w8 => 6

/-- The integer in a big-endian field. -/
def twosComplement (w : IntWidth) (field : Bytes) : Int :=
  (BitVec.ofNat (8 * w.bytes) (bigEndian field)).toInt

/-- A column of a record. -/
inductive Value where
  | null
  | int (w : IntWidth) (v : BitVec (8 * w.bytes))
  | zero
  | one
  | real (bits : BitVec 64)
  | blob (bytes : Bytes)
  | text (bytes : Bytes)

namespace Value

/-- The serial type of a value. -/
def serialType : Value → Nat
  | null => 0
  | int w _ => w.serialType
  | real _ => 7
  | zero => 8
  | one => 9
  | blob bytes => 12 + 2 * bytes.length
  | text bytes => 13 + 2 * bytes.length

/-- The bytes of a value in the body of a record. -/
def IsBody : Value → Bytes → Prop
  | null, bs => bs = []
  | int w v, bs => bs.length = w.bytes ∧ bigEndian bs = v.toNat
  | zero, bs => bs = []
  | one, bs => bs = []
  | real bits, bs => bs.length = 8 ∧ bigEndian bs = bits.toNat
  | blob bytes, bs => bs = bytes
  | text bytes, bs => bs = bytes

/-- The value as an integer, when it is stored as one. -/
def int? : Value → Option Int
  | int _ v => some v.toInt
  | zero => some 0
  | one => some 1
  | _ => none

/-- The bytes that a value of a serial type takes. -/
def size : Value → Nat
  | null => 0
  | int w _ => w.bytes
  | zero => 0
  | one => 0
  | real _ => 8
  | blob bytes => bytes.length
  | text bytes => bytes.length

theorem IsBody.length_eq {v : Value} {bs : Bytes} (h : v.IsBody bs) : bs.length = v.size := by
  cases v with
  | null => exact congrArg List.length h
  | int w v => exact h.1
  | zero => exact congrArg List.length h
  | one => exact congrArg List.length h
  | real bits => exact h.1
  | blob bytes => exact congrArg List.length h
  | text bytes => exact congrArg List.length h

end Value

/-- A record: the length of its header, the serial types, the bodies. -/
structure IsRecord (values : List Value) (payload : Bytes) (len : Bytes) (types bodies : List Bytes) :
    Prop where
  isTypes : List.Forall₂ (fun v bs => IsVarint v.serialType bs) values types
  isBodies : List.Forall₂ Value.IsBody values bodies
  isLen : IsVarint (len.length + types.flatten.length) len
  payload_eq : payload = len ++ (types.flatten ++ bodies.flatten)

/-! ### Pages -/

/-- Page 1 begins with the header of the database. -/
def headerOffset (page1 : Bool) : Nat := if page1 then 100 else 0

/-- The header of a B-tree page and its array of cell pointers. -/
structure HasCells (page : Bytes) (page1 : Bool) (kind : UInt8) (headerLen : Nat) (offs : List Nat) :
    Prop where
  size : page.length ≤ 65536
  kind : page[headerOffset page1]? = some kind
  room : headerOffset page1 + headerLen ≤ page.length
  count : HasField page (headerOffset page1 + 3) 2 offs.length
  pointers : ∀ i off, offs[i]? = some off →
    HasField page (headerOffset page1 + headerLen + i * 2) 2 off

/-- A cell of a table leaf: the length of its payload and its rowid. -/
def IsTableLeafCell (page : Bytes) (off : Nat) (rowid : BitVec 64) : Prop :=
  ∃ payloadLen n r, IsVarint payloadLen n ∧ IsVarint rowid.toNat r ∧ At page off (n ++ r)

/-- A table leaf with these rowids at these offsets. -/
structure IsTableLeaf (page : Bytes) (page1 : Bool) (rowids : List (BitVec 64)) (offs : List Nat) :
    Prop where
  layout : HasCells page page1 0x0d 8 offs
  contents : List.Forall₂ (IsTableLeafCell page) offs rowids

/-- A cell of a table interior page: a child pointer and the greatest rowid below it. -/
structure InteriorCell where
  child : Nat
  key : BitVec 64
  deriving DecidableEq

/-- The cell of a table interior page: a child and a key. -/
def IsInteriorCell (page : Bytes) (off : Nat) (c : InteriorCell) : Prop :=
  HasField page off 4 c.child ∧ ∃ k, IsVarint c.key.toNat k ∧ At page (off + 4) k

/-- A table interior page with these cells and this rightmost child. -/
structure IsTableInterior (page : Bytes) (page1 : Bool) (cells : List InteriorCell) (rightmost : Nat)
    (offs : List Nat) : Prop where
  layout : HasCells page page1 0x05 12 offs
  isRightmost : HasField page (headerOffset page1 + 8) 4 rightmost
  contents : List.Forall₂ (IsInteriorCell page) offs cells

/-- The longest payload that an index cell keeps on its page. -/
def maxLocal (usable : Nat) : Nat := (usable - 12) * 64 / 255 - 23

/-- The payload of an index cell: the indexed values and, last, the rowid. No row is longer than
`2 ^ 31 - 1` bytes. -/
structure IndexCell where
  keys : List Value
  rowid : Value
  rowidInt : Int
  isInt : rowid.int? = some rowidInt
  payload : Bytes
  size : payload.length < 2 ^ 31
  isRecord : ∃ len types bodies, IsRecord (keys ++ [rowid]) payload len types bodies

/-- A spilled cell keeps some of its payload only. -/
def IsIndexCell (page : Bytes) (usable off : Nat) (c : IndexCell) : Prop :=
  ∃ n, IsVarint c.payload.length n ∧
    At page off (if c.payload.length ≤ maxLocal usable then n ++ c.payload else n)

/-- An index leaf with these cells. -/
structure IsIndexLeaf (page : Bytes) (page1 : Bool) (usable : Nat) (cells : List IndexCell)
    (offs : List Nat) : Prop where
  layout : HasCells page page1 0x0a 8 offs
  contents : List.Forall₂ (IsIndexCell page usable) offs cells

/-! ### Facts about the encodings -/

/-- The last one and those before it. -/
theorem forall₂_concat_left {α β : Type} {R : α → β → Prop} {xs : List α} {x : α} {zs : List β}
    (h : List.Forall₂ R (xs ++ [x]) zs) :
    ∃ ys y, zs = ys ++ [y] ∧ List.Forall₂ R xs ys ∧ R x y := by
  induction xs generalizing zs with
  | nil =>
    cases h with
    | cons hx hnil =>
      cases hnil
      exact ⟨[], _, rfl, .nil, hx⟩
  | cons w xs ih =>
    cases h with
    | cons hw hrest =>
      obtain ⟨ys, y, rfl, hys, hx⟩ := ih hrest
      exact ⟨_ :: ys, y, rfl, .cons hw hys, hx⟩

theorem IsVarint.ne_nil {v : Nat} {bs : Bytes} (h : IsVarint v bs) : bs ≠ [] := by
  cases h <;> simp

theorem IsVarint.length_le {v : Nat} {bs : Bytes} (h : IsVarint v bs) : bs.length ≤ 9 := by
  cases h with
  | short hlen => simp; omega
  | long hlen => simp [hlen]

/-! ### The canonical varint -/

theorem base128_concat (bs : Bytes) (b : UInt8) :
    base128 (bs ++ [b]) = base128 bs * 128 + b.toNat % 128 := by
  rw [base128, List.foldl_append]
  rfl

@[simp] theorem length_septets (n v : Nat) : (septets n v).length = n := by
  induction n generalizing v with
  | zero => rfl
  | succ n ih => simp [septets, ih]

theorem mem_septets {n v : Nat} {b : UInt8} (h : b ∈ septets n v) : 128 ≤ b.toNat := by
  induction n generalizing v with
  | zero => cases h
  | succ n ih =>
    rcases List.mem_append.mp h with hinit | hlast
    · exact ih hinit
    · rw [List.mem_singleton.mp hlast, UInt8.toNat_ofNat']
      omega

theorem base128_septets {n v : Nat} (h : v < 128 ^ n) : base128 (septets n v) = v := by
  induction n generalizing v with
  | zero =>
    rw [pow_zero, Nat.lt_one_iff] at h
    simp [septets, base128, h]
  | succ n ih =>
    have hdiv : v / 128 < 128 ^ n := by
      rw [Nat.div_lt_iff_lt_mul (by decide)]
      rwa [pow_succ] at h
    rw [septets, base128_concat, ih hdiv, UInt8.toNat_ofNat']
    omega

theorem log_lt {v n : Nat} (hn : 0 < n) (h : v < 128 ^ n) : Nat.log 128 v < n := by
  rcases Nat.eq_zero_or_pos v with rfl | hpos
  · simpa using hn
  · exact Nat.log_lt_of_lt_pow (by omega) h

/-- Eight bytes of seven bits. -/
theorem pow_septets : 128 ^ 8 = 2 ^ 56 := by norm_num

theorem isVarint_encodeVarint {v : Nat} (h : v < 2 ^ 64) : IsVarint v (encodeVarint v) := by
  unfold encodeVarint
  split
  · rename_i hshort
    have hdiv : v / 128 < 128 ^ Nat.log 128 v := by
      rw [Nat.div_lt_iff_lt_mul (by decide), ← pow_succ]
      exact Nat.lt_pow_succ_log_self (by decide) v
    have hlen : (septets (Nat.log 128 v) (v / 128)).length < 8 := by
      rw [length_septets]
      exact log_lt (by decide) (pow_septets ▸ hshort)
    have hlast : (UInt8.ofNat (v % 128)).toNat = v % 128 := by
      rw [UInt8.toNat_ofNat']
      omega
    have hvarint : IsVarint (base128 (septets (Nat.log 128 v) (v / 128) ++ [UInt8.ofNat (v % 128)]))
        (septets (Nat.log 128 v) (v / 128) ++ [UInt8.ofNat (v % 128)]) :=
      .short hlen (fun b hb => mem_septets hb) (by omega)
    rw [base128_concat, base128_septets hdiv, hlast] at hvarint
    have hv : v / 128 * 128 + v % 128 % 128 = v := by omega
    rwa [hv] at hvarint
  · have hdiv : v / 256 < 128 ^ 8 := by
      rw [pow_septets]
      omega
    have hlast : (UInt8.ofNat (v % 256)).toNat = v % 256 := by
      rw [UInt8.toNat_ofNat']
      omega
    have hvarint : IsVarint (base128 (septets 8 (v / 256)) * 256 + (UInt8.ofNat (v % 256)).toNat)
        (septets 8 (v / 256) ++ [UInt8.ofNat (v % 256)]) :=
      .long (length_septets 8 _) fun b hb => mem_septets hb
    rw [base128_septets hdiv, hlast] at hvarint
    have hv : v / 256 * 256 + v % 256 = v := by omega
    rwa [hv] at hvarint

theorem base128_lt (bs : Bytes) : base128 bs < 128 ^ bs.length := by
  induction bs using List.reverseRecOn with
  | nil => simp [base128]
  | append_singleton bs b ih =>
    rw [base128_concat, List.length_append, List.length_singleton, pow_succ]
    omega

theorem length_encodeVarint {v : Nat} (h : v < 2 ^ 56) :
    (encodeVarint v).length = Nat.log 128 v + 1 := by
  rw [encodeVarint, if_pos h]
  simp

/-- No varint of the number is shorter. -/
theorem encodeVarint_shortest {v : Nat} {bs : Bytes} (h : IsVarint v bs) :
    (encodeVarint v).length ≤ bs.length := by
  cases h with
  | @short init last hlen hinit hlast =>
    have hlt : base128 (init ++ [last]) < 128 ^ (init.length + 1) := by
      simpa using base128_lt (init ++ [last])
    have hpow : 128 ^ (init.length + 1) ≤ 2 ^ 56 := by
      rw [← pow_septets]
      exact Nat.pow_le_pow_right (by decide) hlen
    rw [length_encodeVarint (lt_of_lt_of_le hlt hpow), List.length_append, List.length_singleton]
    exact Nat.add_le_add_right (Nat.lt_succ_iff.mp (log_lt (Nat.succ_pos _) hlt)) 1
  | @long init last hlen hinit =>
    have hbs : (init ++ [last]).length = 9 := by simp [hlen]
    rw [hbs]
    by_cases hv : base128 init * 256 + last.toNat < 2 ^ 56
    · rw [length_encodeVarint hv]
      have hlog : Nat.log 128 (base128 init * 256 + last.toNat) < 8 :=
        log_lt (by decide) (pow_septets ▸ hv)
      omega
    · rw [encodeVarint, if_neg hv]
      simp

theorem At.of_append {page x y : Bytes} {off : Nat} (h : At page off (x ++ y)) :
    At page off x ∧ At page (off + x.length) y := by
  obtain ⟨hle, t, ht⟩ := h
  have hlen := congrArg List.length ht
  simp only [List.length_append, List.length_drop] at hlen
  refine ⟨⟨hle, y ++ t, by rw [← List.append_assoc, ht]⟩, by omega, t, ?_⟩
  rw [← List.drop_drop, ← ht, List.append_assoc, List.drop_left]

theorem At.length_le {page x : Bytes} {off : Nat} (h : At page off x) : off + x.length ≤ page.length := by
  obtain ⟨hle, hpre⟩ := h
  have hlen := hpre.length_le
  rw [List.length_drop] at hlen
  omega

theorem At.take_drop {page x : Bytes} {off : Nat} (h : At page off x) :
    (page.drop off).take x.length = x := by
  obtain ⟨-, t, ht⟩ := h
  rw [← ht, List.take_left]

end SqliteFormat
