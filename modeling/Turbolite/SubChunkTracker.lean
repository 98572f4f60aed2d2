import Turbolite.CacheGroups

/-!
# Turbolite.SubChunkTracker

`SubChunkTracker` (`cache_tracking.rs`) and how it is written down and restored (`local_state.rs`). The
entries that are written name the present sub-chunks, so `track_entries` says what of a tracker comes
back.
-/

namespace Turbolite

/-- `tier as u8`. -/
def SubChunkTier.toByte : SubChunkTier → Nat
  | .pinned => 0
  | .index => 1
  | .data => 2

/-- The tier that a byte stands for. -/
def SubChunkTier.ofByte : Nat → SubChunkTier
  | 0 => .pinned
  | 1 => .index
  | _ => .data

theorem SubChunkTier.ofByte_toByte (tier : SubChunkTier) : ofByte tier.toByte = tier := by
  cases tier <;> rfl

/-- A sub-chunk as it is persisted. -/
structure TrackerEntry where
  id : SubChunkId
  tier : Nat
  accessCount : Nat
  deriving DecidableEq, Repr

/-- The three maps that are written down. -/
structure TrackerMaps where
  /-- the `HashSet`, in the order in which it is gone through -/
  present : List SubChunkId
  nodup : present.Nodup
  tiers : HMap SubChunkId SubChunkTier
  accessCounts : HMap SubChunkId Nat

namespace TrackerMaps

/-- No sub-chunk is tracked. -/
def empty : TrackerMaps := ⟨[], List.nodup_nil, ∅, ∅⟩

/-- The tier of a sub-chunk, data if there is none. -/
def tier (m : TrackerMaps) (id : SubChunkId) : SubChunkTier := (m.tiers.lookup id).getD .data

/-- How often the sub-chunk was used. -/
def accessCount (m : TrackerMaps) (id : SubChunkId) : Nat := (m.accessCounts.lookup id).getD 0

/-- `local_state::tracker_entries`. -/
def trackerEntries (m : TrackerMaps) : List TrackerEntry :=
  m.present.map fun id => { id := id, tier := (m.tier id).toByte, accessCount := m.accessCount id }

/-- One turn of the loop in `local_state::tracker_maps`. -/
def push (m : TrackerMaps) (entry : TrackerEntry) : TrackerMaps where
  present := m.present.insert entry.id
  nodup := m.nodup.insert
  tiers := m.tiers.insert entry.id (.ofByte entry.tier)
  accessCounts :=
    if 0 < entry.accessCount then m.accessCounts.insert entry.id entry.accessCount else m.accessCounts

/-- `local_state::tracker_maps`. -/
def ofEntries (entries : List TrackerEntry) : TrackerMaps := entries.foldl push empty

/-- The same sub-chunks, with the same tiers and counts. -/
def Same (m m' : TrackerMaps) : Prop :=
  ∀ id, (id ∈ m.present ↔ id ∈ m'.present) ∧ m.tier id = m'.tier id ∧
    m.accessCount id = m'.accessCount id

section Push

variable (m : TrackerMaps) (entry : TrackerEntry) (id : SubChunkId)

theorem mem_push : id ∈ (m.push entry).present ↔ id = entry.id ∨ id ∈ m.present := List.mem_insert_iff

theorem tier_push : (m.push entry).tier id = if id = entry.id then .ofByte entry.tier else m.tier id := by
  show ((m.tiers.insert entry.id (.ofByte entry.tier)).lookup id).getD .data = _
  split_ifs with h
  · rw [h, AList.lookup_insert, Option.getD_some]
  · rw [AList.lookup_insert_ne h]
    rfl

theorem accessCount_push : (m.push entry).accessCount id =
    if id = entry.id ∧ 0 < entry.accessCount then entry.accessCount else m.accessCount id := by
  unfold accessCount push
  split_ifs with hpos h h
  · rw [h.1, AList.lookup_insert, Option.getD_some]
  · rw [AList.lookup_insert_ne fun heq => h ⟨heq, hpos⟩]
  · exact absurd h.2 hpos
  · rfl

end Push

/-! ### All entries -/

/-- The entries of some sub-chunks, read in after others. -/
theorem foldl_push (m acc : TrackerMaps) (ids : List SubChunkId) (id : SubChunkId) :
    let entries := ids.map fun id =>
      { id := id, tier := (m.tier id).toByte, accessCount := m.accessCount id : TrackerEntry }
    (id ∈ (entries.foldl push acc).present ↔ id ∈ ids ∨ id ∈ acc.present) ∧
      (entries.foldl push acc).tier id = (if id ∈ ids then m.tier id else acc.tier id) ∧
      (entries.foldl push acc).accessCount id =
        if id ∈ ids ∧ 0 < m.accessCount id then m.accessCount id else acc.accessCount id := by
  induction ids generalizing acc with
  | nil => simp
  | cons i ids ih =>
    obtain ⟨hmem, htier, hcount⟩ := ih (acc.push ⟨i, (m.tier i).toByte, m.accessCount i⟩)
    simp only [List.map_cons, List.foldl_cons]
    refine ⟨?_, ?_, ?_⟩
    · rw [hmem, mem_push, List.mem_cons]
      tauto
    · rw [htier, tier_push, SubChunkTier.ofByte_toByte]
      by_cases hi : id = i
      · simp [hi]
      · simp [hi]
    · rw [hcount, accessCount_push]
      by_cases hi : id = i
      · subst hi
        by_cases hpos : 0 < m.accessCount id <;> simp [hpos]
      · simp [hi]

end TrackerMaps

/-- `SubChunkTracker`. -/
structure SubChunkTracker extends TrackerMaps where
  /-- the clock, when each was used last -/
  accessTimes : HMap SubChunkId Nat
  currentCacheBytes : Nat
  subChunkByteSize : Nat
  pagesPerGroup : Nat
  subPagesPerFrame : Nat

namespace SubChunkTracker

/-- `from_parts`. -/
def fromParts (pagesPerGroup subPagesPerFrame now : Nat) (m : TrackerMaps) : SubChunkTracker where
  toTrackerMaps := m
  accessTimes := m.present.foldl (fun times id => times.insert id now) ∅
  currentCacheBytes := 0
  subChunkByteSize := 0
  pagesPerGroup := pagesPerGroup
  subPagesPerFrame := subPagesPerFrame

/-- `set_sub_chunk_byte_size`. -/
def setSubChunkByteSize (t : SubChunkTracker) (byteSize : Nat) : SubChunkTracker :=
  { t with
    subChunkByteSize := byteSize
    currentCacheBytes := t.present.length * byteSize }

/-- `clear_all`. -/
def clearAll (t : SubChunkTracker) : SubChunkTracker :=
  { t with
    toTrackerMaps := .empty
    accessTimes := ∅
    currentCacheBytes := 0 }

end SubChunkTracker

end Turbolite
