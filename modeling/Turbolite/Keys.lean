import Mathlib.Data.List.Basic
import Mathlib.Tactic.Ring

/-!
# Turbolite.Keys

Bytes, the object keys of the backend (`keys.rs`) and the additional authenticated data that binds
an encrypted object to its slot.
-/

namespace Turbolite

/-- A byte buffer. -/
abbrev Bytes := List UInt8

/-! ### Integers on the wire -/

/-- The `w` little-endian bytes of `n` (`to_le_bytes` of a `w`-byte integer). -/
def leBytes : Nat → Nat → Bytes
  | 0, _ => []
  | w + 1, n => UInt8.ofNat n :: leBytes w (n / 256)

/-- `from_le_bytes`. -/
def ofLeBytes : Bytes → Nat
  | [] => 0
  | b :: bs => b.toNat + 256 * ofLeBytes bs

/-- `from_be_bytes`. -/
def ofBeBytes (bytes : Bytes) : Nat := bytes.foldl (fun n x => n * 256 + x.toNat) 0

@[simp] theorem length_leBytes (w n : Nat) : (leBytes w n).length = w := by
  induction w generalizing n with
  | zero => rfl
  | succ w ih => simp [leBytes, ih]

theorem ofLeBytes_leBytes {w n : Nat} (h : n < 256 ^ w) : ofLeBytes (leBytes w n) = n := by
  induction w generalizing n with
  | zero =>
    simp only [pow_zero, Nat.lt_one_iff] at h
    simp [leBytes, ofLeBytes, h]
  | succ w ih =>
    have hdiv : n / 256 < 256 ^ w := by
      rw [Nat.div_lt_iff_lt_mul (by decide)]
      rwa [pow_succ] at h
    simp only [leBytes, ofLeBytes, ih hdiv, UInt8.toNat_ofNat']
    omega

/-! ### Object keys -/

/-- Keys the program gives its objects. The strings are `manifest.msgpack`, `p/d/{gid}_v{v}`,
`p/it/{chunk}_v{v}`, `p/ix/{chunk}_v{v}` and `p/d/{gid}_f{frame}_v{v}`. -/
inductive ObjectKey where
  | manifest
  | pageGroup (gid version : Nat)
  | interiorChunk (chunkId version : Nat)
  | indexChunk (chunkId version : Nat)
  | overrideFrame (gid frameIdx version : Nat)
  deriving DecidableEq, Repr

namespace ObjectKey

/-- The version a key was minted at; the manifest object is overwritten in place. -/
def version? : ObjectKey → Option Nat
  | .manifest => none
  | .pageGroup _ v | .interiorChunk _ v | .indexChunk _ v | .overrideFrame _ _ v => some v

end ObjectKey

/-! ### Slot identities -/

/-- `aad_page_group`. -/
def aadPageGroup (gid : Nat) : Bytes := 0x67 :: leBytes 8 gid

/-- `aad_interior_bundle`. -/
def aadInteriorBundle (chunkId : Nat) : Bytes := 0x69 :: leBytes 4 chunkId

/-- `aad_index_bundle`. -/
def aadIndexBundle (chunkId : Nat) : Bytes := 0x78 :: leBytes 4 chunkId

/-- `aad_override_frame`. -/
def aadOverrideFrame (gid frameIdx : Nat) : Bytes := 0x6f :: (leBytes 8 gid ++ leBytes 8 frameIdx)

/-! ### Failures -/

/-- The `io::ErrorKind`s the program raises. -/
inductive ErrorKind where
  | notFound
  | invalidData
  | invalidInput
  | interrupted
  | unexpectedEof
  | unsupported
  | other
  deriving DecidableEq, Repr

/-- How an operation stops early: with an `io::Error`, or by an index or slice outside its
buffer. -/
inductive IoError where
  | io (kind : ErrorKind) (message : String)
  | panic
  deriving DecidableEq, Repr

/-- `io::Result`. -/
abbrev IoResult := Except IoError

end Turbolite
