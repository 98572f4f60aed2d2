import Turbolite.Lib.Blocks
import Turbolite.Lib.RawFile
import Turbolite.Lib.Runs
import Turbolite.StagingFile

/-!
# Turbolite.Passthrough

Encrypted WAL and journal files. SQLite owns the offsets, so a write is encrypted in place, under a
nonce of its own, and its extent and nonce go to a sidecar (`PassthroughNonceMap`). A read is decrypted
with the nonce of one extent that contains it. The data is synced first and the record after it, so a
write is two steps here, and the process may stop between them. AES-CTR is a keystream: one byte for
each nonce and offset.
-/

namespace Turbolite

open Blocks RawFile Runs

/-- `ctr_xor_at`. -/
def ctrXorAt (keystream : Nat → Nat → UInt8) (data : Bytes) (nonce skip : Nat) : Bytes :=
  (List.range data.length).map fun i => data.getD i 0 ^^^ keystream nonce (skip + i)

/-- A record of the sidecar. -/
structure Extent where
  start : Nat
  len : Nat
  nonce : Nat
  deriving DecidableEq

namespace Extent

/-- `start.saturating_add(len)`. -/
def stop (e : Extent) : Nat := min (e.start + e.len) (2 ^ 64 - 1)

/-- The extent ends at `readEnd` or after it; the sum of `lookup` does not saturate, it wraps. -/
def Reaches (e : Extent) (readEnd : Nat) : Prop := readEnd ≤ (e.start + e.len) % 2 ^ 64

instance (e : Extent) (readEnd : Nat) : Decidable (e.Reaches readEnd) :=
  inferInstanceAs (Decidable (_ ≤ _))

/-- The 24 bytes of a record. -/
def bytes (e : Extent) : Bytes := leBytes 8 e.start ++ leBytes 8 e.len ++ leBytes 8 e.nonce

/-- A record of the sidecar. -/
def parse (record : Bytes) : Extent where
  start := ofLeBytes (record.take 8)
  len := ofLeBytes ((record.drop 8).take 8)
  nonce := ofLeBytes ((record.drop 16).take 8)

/-- The new record starts at or before the extent and reaches its end. -/
def Covers (r e : Extent) : Prop := r.start ≤ e.start ∧ e.start < r.stop ∧ e.stop ≤ r.stop

instance (r e : Extent) : Decidable (r.Covers e) := inferInstanceAs (Decidable (_ ∧ _))

end Extent

namespace NonceMap

/-- `apply_record`. The map is the list of its entries in the order of their starts; the insert
replaces an entry with the same start. -/
def applyRecord (entries : List Extent) (r : Extent) : List Extent :=
  let rest := entries.filter fun e => decide (¬ r.Covers e ∧ e.start ≠ r.start)
  rest.filter (fun e => decide (e.start < r.start)) ++
    r :: rest.filter fun e => decide (r.start < e.start)

/-- `load`: the records in the order they were appended; a torn last record is left out. -/
def load (sidecar : Bytes) : List Extent :=
  ((List.range (sidecar.length / 24)).map fun i => Extent.parse (block 24 i sidecar)).foldl applyRecord []

/-- `compact`: the log with exactly the live entries. -/
def compact (entries : List Extent) : Bytes := (entries.map Extent.bytes).flatten

/-- `lookup`: the extent with the largest start that contains the range. -/
def lookup (entries : List Extent) (offset len : Nat) : Option Extent :=
  entries.reverse.find? fun e => decide (e.start ≤ offset ∧ e.Reaches (offset + len))

end NonceMap

namespace Passthrough

/-- A file, its sidecar and the one handle that has it open: every `xOpen` loads a map of its own and compacts
the sidecar, and two handles at once are not modelled. `entries` is the map in memory, `writing` a write
whose record is not yet appended. `plain` is the file an unencrypted handle would have, and `origin` the
start and nonce of the last write of each byte. -/
structure State where
  data : File := RawFile.empty
  sidecar : Bytes := []
  entries : List Extent := []
  writing : Option Extent := none
  plain : File := RawFile.empty
  origin : Nat → Option (Nat × Nat) := fun _ => none

/-- The calls of the handle, and a crash. -/
inductive Event where
  /-- `write_all_at`: the ciphertext is written and synced -/
  | write (offset : Nat) (buf : Bytes) (nonce : Nat)
  /-- `commit_record` -/
  | commit
  /-- `commit_record` fails after `n` bytes of the record, and so does the write -/
  | fail (n : Nat)
  | setLen (size : Nat)
  /-- The file is opened again, after it was closed or after a crash; a crash in a write leaves `n`
  bytes of its record. The compaction may fail. -/
  | reopen (n : Nat) (compacts : Bool)

variable (keystream : Nat → Nat → UInt8)

/-- The sidecar with the first `n` bytes of the record that is being appended. -/
def State.torn (s : State) (n : Nat) : Bytes :=
  match s.writing with
  | some r => s.sidecar ++ r.bytes.take n
  | none => s.sidecar

/-- One step; offsets, lengths and nonces are 64-bit. -/
def step (s : State) : Event → Option State
  | .write offset buf nonce =>
    if s.writing = none ∧ offset + buf.length < 2 ^ 64 ∧ nonce < 2 ^ 64 then
      some { s with
        data := s.data.writeAt offset (ctrXorAt keystream buf nonce 0)
        writing := some ⟨offset, buf.length, nonce⟩
        plain := s.plain.writeAt offset buf
        origin := fun i => if offset ≤ i ∧ i < offset + buf.length then some (offset, nonce) else s.origin i }
    else none
  | .commit =>
    match s.writing with
    | some r => some { s with
        sidecar := s.sidecar ++ r.bytes
        entries := NonceMap.applyRecord s.entries r
        writing := none }
    | none => none
  | .fail n =>
    match s.writing with
    | some _ => some { s with sidecar := s.torn n, writing := none }
    | none => none
  | .setLen size =>
    if s.writing = none then
      some { s with
        data := s.data.setLen size
        plain := s.plain.setLen size
        origin := fun i => if i < size then s.origin i else none }
    else none
  | .reopen n compacts =>
    let entries := NonceMap.load (s.torn n)
    some { s with
      sidecar := if compacts then NonceMap.compact entries else s.torn n
      entries := entries
      writing := none }

/-- The start and nonce a range is decrypted with. -/
def State.chosen (s : State) (offset len : Nat) : Nat × Nat :=
  match NonceMap.lookup s.entries offset len with
  | some e => (e.start, e.nonce)
  | none => (offset, offset)

/-- `read_exact_at` of the encrypted file. -/
def State.readExactAt (s : State) (offset len : Nat) : IoResult Bytes :=
  match s.data.readAt offset len with
  | none => .error unexpectedEof
  | some data =>
    let (start, nonce) := s.chosen offset len
    .ok (ctrXorAt keystream data nonce (offset - start))

/-- `read_exact_at` of the plain file. -/
def State.plainReadExactAt (s : State) (offset len : Nat) : IoResult Bytes :=
  match s.plain.readAt offset len with
  | none => .error unexpectedEof
  | some data => .ok data

end Passthrough

end Turbolite
