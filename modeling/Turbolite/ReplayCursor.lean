import Turbolite.Manifest

/-!
# Turbolite.ReplayCursor

The replay cursor of a manifest and the two calls that set it (`vfs.rs`): a follower records how far it
has applied (`update_replay_cursor`), and a writer stamps the base it publishes
(`manifest_bytes_with_replay_cursor_anchor`). Both check the new cursor against the installed one: the
sequence may not go down; the epoch is only asked to be there.
-/

namespace Turbolite

/-- `char::is_whitespace`: the Unicode property White_Space. -/
def isWhitespace (c : Char) : Bool :=
  let n := c.toNat
  (decide (0x09 ≤ n) && decide (n ≤ 0x0D)) || n == 0x20 || n == 0x85 || n == 0xA0 || n == 0x1680 ||
    (decide (0x2000 ≤ n) && decide (n ≤ 0x200A)) || n == 0x2028 || n == 0x2029 || n == 0x202F ||
    n == 0x205F || n == 0x3000

/-- `trim().is_empty()`. -/
def isBlank (s : String) : Bool := s.toList.all isWhitespace

/-- `invalid_replay_cursor_anchor`. -/
def invalidReplayCursorAnchor (message : String) : IoError := .io .invalidInput message

/-- `validate_replay_cursor_anchor`. -/
def validateReplayCursorAnchor (field : String) (anchor : Bytes) : IoResult Unit :=
  if anchor ≠ [] ∧ anchor.length ≠ 32 then
    .error (invalidReplayCursorAnchor s!"{field} must be empty for bootstrap or exactly 32 bytes")
  else .ok ()

namespace Manifest

/-- `validate_replay_cursor_update`. -/
def validateReplayCursorUpdate (m : Manifest) (cursor : ReplayCursor) : IoResult Unit :=
  if cursor.lastAppliedSeq < m.cursor.lastAppliedSeq then
    .error (invalidReplayCursorAnchor
      s!"replay cursor cannot move backward from {m.cursor.lastAppliedSeq} to {cursor.lastAppliedSeq}")
  else do
    validateReplayCursorAnchor "replay cursor base_object_checksum" cursor.baseObjectChecksum
    if 0 < cursor.lastAppliedSeq then
      if cursor.baseObjectChecksum.length ≠ 32 then
        .error (invalidReplayCursorAnchor
          "advanced replay cursor requires a 32-byte base_object_checksum")
      else if cursor.epoch = 0 then
        .error (invalidReplayCursorAnchor "advanced replay cursor requires nonzero lease epoch")
      else if isBlank m.writerId then
        .error (invalidReplayCursorAnchor
          "advanced replay cursor requires an installed writer_id")
      else .ok ()
    else .ok ()

/-- `validate_replay_cursor_publish`. -/
def validateReplayCursorPublish (m : Manifest) (lastAppliedSeq epoch : Nat) (writerId : String) :
    IoResult Unit :=
  if lastAppliedSeq < m.cursor.lastAppliedSeq then
    .error (invalidReplayCursorAnchor
      s!"published replay cursor cannot move backward from {m.cursor.lastAppliedSeq} to {lastAppliedSeq}")
  else if epoch = 0 then
    .error (invalidReplayCursorAnchor "anchored replay cursor publish requires nonzero lease epoch")
  else if isBlank writerId then
    .error (invalidReplayCursorAnchor "anchored replay cursor publish requires nonempty writer_id")
  else .ok ()

/-- What `update_replay_cursor` stores. -/
def withReplayCursor (m : Manifest) (cursor : ReplayCursor) : Manifest := { m with cursor := cursor }

/-- What an anchored publish stores, the anchor being a function of the manifest. -/
def withReplayCursorAnchor (m : Manifest) (lastAppliedSeq epoch : Nat) (writerId : String)
    (anchor : Manifest → Bytes) : Manifest :=
  let m := { m with
    cursor := { m.cursor with lastAppliedSeq := lastAppliedSeq, epoch := epoch }
    writerId := writerId
    changeCounter := lastAppliedSeq }
  { m with cursor := { m.cursor with baseObjectChecksum := anchor m } }

/-! ### What the checks ensure -/

/-- An accepted cursor is not behind the installed one. -/
theorem le_of_validateReplayCursorUpdate {m : Manifest} {cursor : ReplayCursor}
    (h : m.validateReplayCursorUpdate cursor = .ok ()) :
    m.cursor.lastAppliedSeq ≤ cursor.lastAppliedSeq := by
  unfold validateReplayCursorUpdate at h
  split at h
  · cases h
  · rename_i hle
    exact Nat.le_of_not_lt hle

/-- The same for a published one, which has an epoch and a writer. -/
theorem validateReplayCursorPublish_eq_ok {m : Manifest} {seq epoch : Nat} {writerId : String} :
    m.validateReplayCursorPublish seq epoch writerId = .ok () ↔
      m.cursor.lastAppliedSeq ≤ seq ∧ epoch ≠ 0 ∧ isBlank writerId = false := by
  unfold validateReplayCursorPublish
  split
  · rename_i hlt
    simp [Nat.not_le.mpr hlt]
  · rename_i hle
    split
    · rename_i hepoch
      simp [hepoch]
    · rename_i hepoch
      split
      · rename_i hblank
        simp [hblank]
      · rename_i hblank
        simp [Nat.le_of_not_lt hle, hepoch, hblank]

end Manifest

end Turbolite
