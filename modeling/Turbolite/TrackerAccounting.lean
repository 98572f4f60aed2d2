import Turbolite.BudgetEviction
import Turbolite.SubChunkTracker
import Turbolite.Lib.Runs

/-!
# Turbolite.TrackerAccounting

The operations of `SubChunkTracker` (`cache_tracking.rs`) and what every sequence of them keeps.

What a mark does is `Marked`, what a removal does is `Removed`; the byte total, the tiers and the access
data are read off these two. `accounting_iff`: tiers stand for present sub-chunks only and none loses
priority while its sub-chunk stays, in every run; the total and the access data are right in every state
of a run if and only if no total leaves the 64-bit range and only present sub-chunks are touched; and ids
keep positions apart up to the widths of their two fields and no further.
-/

namespace Turbolite

open Runs

namespace SubChunkTracker

/-! ### Ids -/

/-- `sub_chunk_id_for`: the casts keep the low bits, and without a frame size every page is in frame 0. -/
def subChunkIdFor (t : SubChunkTracker) (gid indexInGroup : Nat) : SubChunkId where
  groupId := gid % 2 ^ 32
  frameIndex := indexInGroup / t.subPagesPerFrame % 2 ^ 16

/-! ### Marks -/

/-- `present.insert`; a new sub-chunk adds its bytes to the total, which wraps. -/
def insertPresent (t : SubChunkTracker) (id : SubChunkId) : SubChunkTracker :=
  { t with
    present := t.present.insert id
    nodup := t.nodup.insert
    currentCacheBytes :=
      if id ∈ t.present then t.currentCacheBytes
      else (t.currentCacheBytes + t.subChunkByteSize) % 2 ^ 64 }

/-- `access_times.entry(id).or_insert_with(Instant::now)`. -/
def timesOrInsert (t : SubChunkTracker) (id : SubChunkId) (now : Nat) : HMap SubChunkId Nat :=
  if id ∈ t.accessTimes then t.accessTimes else t.accessTimes.insert id now

/-- `mark_present`: equal or higher priority is kept. -/
def markPresent (t : SubChunkTracker) (id : SubChunkId) (tier : SubChunkTier) (now : Nat) :
    SubChunkTracker :=
  { t.insertPresent id with
    tiers :=
      match t.tiers.lookup id with
      | some existing => if existing.toByte ≤ tier.toByte then t.tiers else t.tiers.insert id tier
      | none => t.tiers.insert id tier
    accessTimes := t.accessTimes.insert id now }

/-- `mark_pinned`. -/
def markPinned (t : SubChunkTracker) (id : SubChunkId) (now : Nat) : SubChunkTracker :=
  { t.insertPresent id with
    tiers := t.tiers.insert id .pinned
    accessTimes := t.timesOrInsert id now }

/-- `mark_index`. -/
def markIndex (t : SubChunkTracker) (id : SubChunkId) (now : Nat) : SubChunkTracker :=
  { t.insertPresent id with
    tiers := if t.tiers.lookup id = some .pinned then t.tiers else t.tiers.insert id .index
    accessTimes := t.timesOrInsert id now }

/-- `touch`, of any sub-chunk. -/
def touch (t : SubChunkTracker) (id : SubChunkId) (now : Nat) : SubChunkTracker :=
  { t with
    accessTimes := t.accessTimes.insert id now
    accessCounts := t.accessCounts.insert id
      (if t.accessCount id < accessCountCap then t.accessCount id + 1 else t.accessCount id) }

/-- `set_sub_chunk_byte_size` with the product as a `u64`. -/
def resize (t : SubChunkTracker) (byteSize : Nat) : SubChunkTracker :=
  { t.setSubChunkByteSize byteSize with
    currentCacheBytes := t.present.length * byteSize % 2 ^ 64 }

/-! ### Removals -/

/-- `remove`. -/
def remove (t : SubChunkTracker) (id : SubChunkId) : SubChunkTracker :=
  { t with
    present := t.present.erase id
    nodup := t.nodup.erase id
    tiers := t.tiers.erase id
    accessCounts := t.accessCounts.erase id
    accessTimes := t.accessTimes.erase id
    currentCacheBytes :=
      if id ∈ t.present then t.currentCacheBytes - t.subChunkByteSize else t.currentCacheBytes }

/-- Collect the ids first, then remove them one by one. -/
def removeWhere (t : SubChunkTracker) (p : SubChunkId → Bool) : SubChunkTracker :=
  (t.present.filter p).foldl remove t

/-- `remove_group`. -/
def removeGroup (t : SubChunkTracker) (groupId : Nat) : SubChunkTracker :=
  t.removeWhere fun id => decide (id.groupId = groupId)

/-- `clear_data`. -/
def clearData (t : SubChunkTracker) : SubChunkTracker :=
  t.removeWhere fun id => decide (t.tier id ≠ .pinned)

/-- `clear_data_only`. -/
def clearDataOnly (t : SubChunkTracker) : SubChunkTracker :=
  t.removeWhere fun id => decide (t.tier id = .data)

/-- `clear_index_and_data`. -/
def clearIndexAndData (t : SubChunkTracker) : SubChunkTracker :=
  t.removeWhere fun id => decide (t.tier id ≠ .pinned)

/-- What the scores are computed from. -/
def usage (t : SubChunkTracker) (now : Nat) : Usage where
  ages id := (t.accessTimes.lookup id).map fun time => now - time
  counts id := t.accessCounts.lookup id

/-- The loop of `evict_one_skipping`: the first of the lowest scores. -/
def candidate (t : SubChunkTracker) (now : Nat) (skipGroups : List Nat) : Option SubChunkId :=
  let score id := (t.usage now).score (t.tier id) id
  (t.present.filter fun id => decide (t.tier id ≠ .pinned ∧ id.groupId ∉ skipGroups)).foldl
    (fun best id =>
      match best with
      | none => some id
      | some b => if score id < score b then some id else some b) none

/-- `evict_one_skipping`. -/
def evictOneSkipping (t : SubChunkTracker) (now : Nat) (skipGroups : List Nat) :
    SubChunkTracker × Option SubChunkId :=
  match t.candidate now skipGroups with
  | some id => (t.remove id, some id)
  | none => (t, none)

/-- The sub-chunks that `evict_expired_in_tier` removes. -/
def expired (t : SubChunkTracker) (now : Nat) (tier : SubChunkTier) (ttl : Nat) (id : SubChunkId) : Bool :=
  decide (t.tier id = tier ∧ ttl < now - (t.accessTimes.lookup id).getD now)

/-- `evict_expired_in_tier`. -/
def evictExpiredInTier (t : SubChunkTracker) (now : Nat) (tier : SubChunkTier) (ttl : Nat) :
    SubChunkTracker × List SubChunkId :=
  (t.removeWhere (t.expired now tier ttl), t.present.filter (t.expired now tier ttl))

/-! ### Runs -/

/-- An operation, with what the clock shows. -/
inductive Op where
  | markPresent (id : SubChunkId) (tier : SubChunkTier) (now : Nat)
  | markPinned (id : SubChunkId) (now : Nat)
  | markIndex (id : SubChunkId) (now : Nat)
  | touch (id : SubChunkId) (now : Nat)
  | remove (id : SubChunkId)
  | removeGroup (groupId : Nat)
  | clearData
  | clearDataOnly
  | clearIndexAndData
  | clearAll
  | evictOneSkipping (skipGroups : List Nat) (now : Nat)
  | evictExpiredInTier (tier : SubChunkTier) (ttl now : Nat)
  | setSubChunkByteSize (byteSize : Nat)

/-- What a call does to the tracker. -/
def apply (t : SubChunkTracker) : Op → SubChunkTracker
  | .markPresent id tier now => t.markPresent id tier now
  | .markPinned id now => t.markPinned id now
  | .markIndex id now => t.markIndex id now
  | .touch id now => t.touch id now
  | .remove id => t.remove id
  | .removeGroup groupId => t.removeGroup groupId
  | .clearData => t.clearData
  | .clearDataOnly => t.clearDataOnly
  | .clearIndexAndData => t.clearIndexAndData
  | .clearAll => t.clearAll
  | .evictOneSkipping skipGroups now => (t.evictOneSkipping now skipGroups).1
  | .evictExpiredInTier tier ttl now => (t.evictExpiredInTier now tier ttl).1
  | .setSubChunkByteSize byteSize => t.resize byteSize

/-- A call as a step. -/
def step (t : SubChunkTracker) (op : Op) : Option SubChunkTracker := some (t.apply op)

/-- The tracker after some operations. -/
def after (t : SubChunkTracker) (ops : List Op) : SubChunkTracker := ops.foldl apply t

/-- What `DiskCache::touch_group` does to the tracker: it touches every frame of the group. -/
def touchGroup (gid frames now : Nat) : List Op :=
  (List.range frames).map fun fi => .touch ⟨gid % 2 ^ 32, fi % 2 ^ 16⟩ now

/-- A tracker that was restored from entries, or is fresh when there are none. -/
def restored (pagesPerGroup subPagesPerFrame now : Nat) (entries : List TrackerEntry) : SubChunkTracker :=
  fromParts pagesPerGroup subPagesPerFrame now (.ofEntries entries)

/-- The total is that of the present sub-chunks, and nothing is known of the others. -/
structure Accounted (t : SubChunkTracker) : Prop where
  bytes : t.currentCacheBytes = t.present.length * t.subChunkByteSize
  tiers : ∀ id ∈ t.tiers, id ∈ t.present
  times : ∀ id ∈ t.accessTimes, id ∈ t.present
  counts : ∀ id ∈ t.accessCounts, id ∈ t.present

/-- The total with one more sub-chunk is a `u64`. -/
def HasRoom (t : SubChunkTracker) (id : SubChunkId) : Prop :=
  id ∈ t.present ∨ (t.present.length + 1) * t.subChunkByteSize < 2 ^ 64

/-- The operation neither makes the total leave the 64-bit range nor touches what is not there. -/
def Regular (t : SubChunkTracker) : Op → Prop
  | .markPresent id _ _ => t.HasRoom id
  | .markPinned id _ => t.HasRoom id
  | .markIndex id _ => t.HasRoom id
  | .touch id _ => id ∈ t.present
  | .setSubChunkByteSize byteSize => t.present.length * byteSize < 2 ^ 64
  | _ => True

/-- No two positions among the pages up to `lastIndex` of the groups up to `lastGid` share an id. -/
def IdsDistinct (t : SubChunkTracker) (lastGid lastIndex : Nat) : Prop :=
  ∀ gid gid' i i', gid ≤ lastGid → gid' ≤ lastGid → i ≤ lastIndex → i' ≤ lastIndex →
    t.subChunkIdFor gid i = t.subChunkIdFor gid' i' →
    gid = gid' ∧ i / t.subPagesPerFrame = i' / t.subPagesPerFrame

/-! ### What a mark does -/

/-- Tiers stand for present sub-chunks. -/
def TiersPresent (t : SubChunkTracker) : Prop := ∀ id ∈ t.tiers, id ∈ t.present

/-- The tier of `id` does not lose priority. -/
def KeepsTier (t t' : SubChunkTracker) (id : SubChunkId) : Prop :=
  ∀ tier, t.tiers.lookup id = some tier →
    ∃ tier', t'.tiers.lookup id = some tier' ∧ tier'.toByte ≤ tier.toByte

/-- What marking a sub-chunk changes. -/
structure Marked (t : SubChunkTracker) (id : SubChunkId) (t' : SubChunkTracker) : Prop where
  present : t'.present = t.present.insert id
  size : t'.subChunkByteSize = t.subChunkByteSize
  bytes : t'.currentCacheBytes = if id ∈ t.present then t.currentCacheBytes
    else (t.currentCacheBytes + t.subChunkByteSize) % 2 ^ 64
  tiers : ∀ i ∈ t'.tiers, i = id ∨ i ∈ t.tiers
  keepsTier : ∀ i, KeepsTier t t' i
  times : ∀ i ∈ t'.accessTimes, i = id ∨ i ∈ t.accessTimes
  counts : t'.accessCounts = t.accessCounts

section Marks

variable {t t' : SubChunkTracker} {id : SubChunkId} {now : Nat}

theorem mem_insert_tiers {tier : SubChunkTier} {i : SubChunkId} (h : i ∈ t.tiers.insert id tier) :
    i = id ∨ i ∈ t.tiers := (AList.mem_insert _).mp h

theorem mem_timesOrInsert {i : SubChunkId} (h : i ∈ t.timesOrInsert id now) :
    i = id ∨ i ∈ t.accessTimes := by
  unfold timesOrInsert at h
  split at h
  · exact .inr h
  · exact (AList.mem_insert _).mp h

/-- A tier that is written has at least the priority of the one before it. -/
theorem keepsTier_insert {tier : SubChunkTier} (htiers : t'.tiers = t.tiers.insert id tier)
    (hle : ∀ old, t.tiers.lookup id = some old → tier.toByte ≤ old.toByte) (i : SubChunkId) :
    KeepsTier t t' i := by
  intro old hold
  rw [htiers]
  by_cases hi : i = id
  · subst hi
    exact ⟨tier, AList.lookup_insert _, hle old hold⟩
  · exact ⟨old, (AList.lookup_insert_ne hi).trans hold, le_rfl⟩

theorem keepsTier_of_eq (htiers : t'.tiers = t.tiers) (i : SubChunkId) : KeepsTier t t' i :=
  fun old hold => ⟨old, htiers ▸ hold, le_rfl⟩

theorem marked_markPresent (t : SubChunkTracker) (id : SubChunkId) (tier : SubChunkTier) (now : Nat) :
    Marked t id (t.markPresent id tier now) := by
  have hcases : (t.markPresent id tier now).tiers = t.tiers ∨
      (t.markPresent id tier now).tiers = t.tiers.insert id tier ∧
        ∀ old, t.tiers.lookup id = some old → tier.toByte ≤ old.toByte := by
    unfold markPresent
    cases hold : t.tiers.lookup id with
    | none => exact .inr ⟨rfl, fun old h => by cases h⟩
    | some existing =>
      by_cases hle : existing.toByte ≤ tier.toByte
      · exact .inl (if_pos hle)
      · refine .inr ⟨if_neg hle, fun old h => ?_⟩
        cases h
        omega
  refine ⟨rfl, rfl, rfl, fun i hi => ?_, fun i => ?_, fun i hi => (AList.mem_insert _).mp hi, rfl⟩
  · rcases hcases with heq | ⟨heq, -⟩
    · exact .inr (heq ▸ hi)
    · exact mem_insert_tiers (heq ▸ hi)
  · rcases hcases with heq | ⟨heq, hle⟩
    · exact keepsTier_of_eq heq i
    · exact keepsTier_insert heq hle i

theorem marked_markPinned (t : SubChunkTracker) (id : SubChunkId) (now : Nat) :
    Marked t id (t.markPinned id now) :=
  ⟨rfl, rfl, rfl, fun _ => mem_insert_tiers, keepsTier_insert rfl fun _ _ => Nat.zero_le _,
    fun _ => mem_timesOrInsert, rfl⟩

theorem marked_markIndex (t : SubChunkTracker) (id : SubChunkId) (now : Nat) :
    Marked t id (t.markIndex id now) := by
  by_cases hpinned : t.tiers.lookup id = some .pinned
  · have heq : (t.markIndex id now).tiers = t.tiers := if_pos hpinned
    exact ⟨rfl, rfl, rfl, fun _ hi => .inr (heq ▸ hi), keepsTier_of_eq heq,
      fun _ => mem_timesOrInsert, rfl⟩
  · have heq : (t.markIndex id now).tiers = t.tiers.insert id .index := if_neg hpinned
    refine ⟨rfl, rfl, rfl, fun _ hi => mem_insert_tiers (heq ▸ hi), keepsTier_insert heq ?_,
      fun _ => mem_timesOrInsert, rfl⟩
    intro old hold
    cases old with
    | pinned => exact absurd hold hpinned
    | index => exact le_rfl
    | data => exact Nat.le_succ 1

theorem Marked.mem_present (h : Marked t id t') {i : SubChunkId} :
    i ∈ t'.present ↔ i = id ∨ i ∈ t.present := by
  rw [h.present]
  exact List.mem_insert_iff

theorem Marked.tiersPresent (h : Marked t id t') (ht : TiersPresent t) : TiersPresent t' :=
  fun i hi => h.mem_present.mpr ((h.tiers i hi).imp_right (ht i))

theorem Marked.accounted_iff (h : Marked t id t') (ha : Accounted t) : Accounted t' ↔ t.HasRoom id := by
  have hbytes : t'.currentCacheBytes = t'.present.length * t'.subChunkByteSize ↔ t.HasRoom id := by
    rw [h.bytes, h.present, h.size]
    by_cases hid : id ∈ t.present
    · rw [if_pos hid, List.insert_of_mem hid]
      exact iff_of_true ha.bytes (.inl hid)
    · rw [if_neg hid, List.insert_of_not_mem hid, List.length_cons, ha.bytes, ← Nat.succ_mul]
      constructor
      · intro heq
        exact .inr (heq ▸ Nat.mod_lt _ (by decide))
      · intro hroom
        exact Nat.mod_eq_of_lt (hroom.resolve_left hid)
  constructor
  · intro ha'
    exact hbytes.mp ha'.bytes
  · intro hroom
    refine ⟨hbytes.mpr hroom, h.tiersPresent ha.tiers, fun i hi => ?_, fun i hi => ?_⟩
    · exact h.mem_present.mpr ((h.times i hi).imp_right (ha.times i))
    · exact h.mem_present.mpr (.inr (ha.counts i (h.counts ▸ hi)))

end Marks

/-! ### What a removal does -/

/-- What a removal keeps. -/
structure Removed (t t' : SubChunkTracker) : Prop where
  present : ∀ i ∈ t'.present, i ∈ t.present
  tier : ∀ i ∈ t'.present, t'.tiers.lookup i = t.tiers.lookup i
  tiersPresent : TiersPresent t → TiersPresent t'
  accounted : Accounted t → Accounted t'

section Removals

variable {t t' t'' : SubChunkTracker}

theorem Removed.refl (t : SubChunkTracker) : Removed t t := ⟨fun _ h => h, fun _ _ => rfl, id, id⟩

theorem Removed.trans (h : Removed t t') (h' : Removed t' t'') : Removed t t'' where
  present i hi := h.present i (h'.present i hi)
  tier i hi := (h'.tier i hi).trans (h.tier i (h'.present i hi))
  tiersPresent ht := h'.tiersPresent (h.tiersPresent ht)
  accounted ha := h'.accounted (h.accounted ha)

theorem mem_remove {id i : SubChunkId} : i ∈ (t.remove id).present ↔ i ≠ id ∧ i ∈ t.present :=
  t.nodup.mem_erase_iff

/-- Erasing one id from a map and from the present ones. -/
theorem erase_present {β : Type} {m : HMap SubChunkId β} (h : ∀ i ∈ m, i ∈ t.present) (id : SubChunkId) :
    ∀ i ∈ m.erase id, i ∈ (t.remove id).present := by
  intro i hi
  obtain ⟨hne, hmem⟩ := AList.mem_erase.mp hi
  exact mem_remove.mpr ⟨hne, h i hmem⟩

theorem removed_remove (t : SubChunkTracker) (id : SubChunkId) : Removed t (t.remove id) where
  present i hi := (mem_remove.mp hi).2
  tier i hi := AList.lookup_erase_ne (mem_remove.mp hi).1
  tiersPresent ht := erase_present ht id
  accounted ha := by
    refine ⟨?_, erase_present ha.tiers id, erase_present ha.times id, erase_present ha.counts id⟩
    by_cases hid : id ∈ t.present
    · have hbytes : (t.remove id).currentCacheBytes = t.currentCacheBytes - t.subChunkByteSize := if_pos hid
      have hlen : (t.remove id).present.length = t.present.length - 1 := List.length_erase_of_mem hid
      rw [hbytes, hlen, ha.bytes, Nat.sub_mul, Nat.one_mul]
      rfl
    · have hbytes : (t.remove id).currentCacheBytes = t.currentCacheBytes := if_neg hid
      have hpresent : (t.remove id).present = t.present := List.erase_of_not_mem hid
      rw [hbytes, hpresent, ha.bytes]
      rfl

theorem removed_foldl (t : SubChunkTracker) (ids : List SubChunkId) : Removed t (ids.foldl remove t) := by
  induction ids generalizing t with
  | nil => exact .refl t
  | cons id ids ih => exact (removed_remove t id).trans (ih (t.remove id))

theorem removed_removeWhere (t : SubChunkTracker) (p : SubChunkId → Bool) : Removed t (t.removeWhere p) :=
  removed_foldl t _

theorem removed_evictOneSkipping (t : SubChunkTracker) (now : Nat) (skipGroups : List Nat) :
    Removed t (t.evictOneSkipping now skipGroups).1 := by
  unfold evictOneSkipping
  cases t.candidate now skipGroups with
  | none => exact .refl t
  | some id => exact removed_remove t id

theorem removed_clearAll (t : SubChunkTracker) : Removed t t.clearAll where
  present i hi := by cases hi
  tier i hi := by cases hi
  tiersPresent _ i hi := absurd hi (AList.notMem_empty i)
  accounted _ := ⟨(Nat.zero_mul _).symm, fun i hi => absurd hi (AList.notMem_empty i),
    fun i hi => absurd hi (AList.notMem_empty i), fun i hi => absurd hi (AList.notMem_empty i)⟩

end Removals

/-! ### One operation -/

section Step

variable {t : SubChunkTracker}

theorem touch_accounted_iff (ha : Accounted t) (id : SubChunkId) (now : Nat) :
    Accounted (t.touch id now) ↔ id ∈ t.present := by
  constructor
  · intro h
    exact h.times id ((AList.mem_insert _).mpr (.inl rfl))
  · intro hid
    refine ⟨ha.bytes, ha.tiers, fun i hi => ?_, fun i hi => ?_⟩
    · rcases (AList.mem_insert _).mp hi with rfl | hmem
      · exact hid
      · exact ha.times i hmem
    · rcases (AList.mem_insert _).mp hi with rfl | hmem
      · exact hid
      · exact ha.counts i hmem

theorem resize_accounted_iff (ha : Accounted t) (byteSize : Nat) :
    Accounted (t.resize byteSize) ↔ t.present.length * byteSize < 2 ^ 64 := by
  constructor
  · intro h
    have hbytes : t.present.length * byteSize % 2 ^ 64 = t.present.length * byteSize := h.bytes
    exact hbytes ▸ Nat.mod_lt _ (by decide)
  · intro hlt
    exact ⟨Nat.mod_eq_of_lt hlt, ha.tiers, ha.times, ha.counts⟩

theorem accounted_apply_iff (ha : Accounted t) (op : Op) : Accounted (t.apply op) ↔ t.Regular op := by
  cases op with
  | markPresent id tier now => exact (marked_markPresent t id tier now).accounted_iff ha
  | markPinned id now => exact (marked_markPinned t id now).accounted_iff ha
  | markIndex id now => exact (marked_markIndex t id now).accounted_iff ha
  | touch id now => exact touch_accounted_iff ha id now
  | remove id => exact iff_of_true ((removed_remove t id).accounted ha) trivial
  | removeGroup groupId => exact iff_of_true ((removed_removeWhere t _).accounted ha) trivial
  | clearData => exact iff_of_true ((removed_removeWhere t _).accounted ha) trivial
  | clearDataOnly => exact iff_of_true ((removed_removeWhere t _).accounted ha) trivial
  | clearIndexAndData => exact iff_of_true ((removed_removeWhere t _).accounted ha) trivial
  | clearAll => exact iff_of_true ((removed_clearAll t).accounted ha) trivial
  | evictOneSkipping skipGroups now =>
    exact iff_of_true ((removed_evictOneSkipping t now skipGroups).accounted ha) trivial
  | evictExpiredInTier tier ttl now => exact iff_of_true ((removed_removeWhere t _).accounted ha) trivial
  | setSubChunkByteSize byteSize => exact resize_accounted_iff ha byteSize

/-- An operation is a mark, a removal, or leaves the present sub-chunks and their tiers alone. -/
theorem apply_cases (t : SubChunkTracker) (op : Op) :
    (∃ id, Marked t id (t.apply op)) ∨ Removed t (t.apply op) ∨
      (t.apply op).present = t.present ∧ (t.apply op).tiers = t.tiers := by
  cases op with
  | markPresent id tier now => exact .inl ⟨id, marked_markPresent t id tier now⟩
  | markPinned id now => exact .inl ⟨id, marked_markPinned t id now⟩
  | markIndex id now => exact .inl ⟨id, marked_markIndex t id now⟩
  | touch id now => exact .inr (.inr ⟨rfl, rfl⟩)
  | remove id => exact .inr (.inl (removed_remove t id))
  | removeGroup groupId => exact .inr (.inl (removed_removeWhere t _))
  | clearData => exact .inr (.inl (removed_removeWhere t _))
  | clearDataOnly => exact .inr (.inl (removed_removeWhere t _))
  | clearIndexAndData => exact .inr (.inl (removed_removeWhere t _))
  | clearAll => exact .inr (.inl (removed_clearAll t))
  | evictOneSkipping skipGroups now => exact .inr (.inl (removed_evictOneSkipping t now skipGroups))
  | evictExpiredInTier tier ttl now => exact .inr (.inl (removed_removeWhere t _))
  | setSubChunkByteSize byteSize => exact .inr (.inr ⟨rfl, rfl⟩)

theorem tiersPresent_apply (ht : TiersPresent t) (op : Op) : TiersPresent (t.apply op) := by
  rcases apply_cases t op with ⟨id, hm⟩ | hr | ⟨hpresent, htiers⟩
  · exact hm.tiersPresent ht
  · exact hr.tiersPresent ht
  · intro i hi
    rw [hpresent]
    exact ht i (htiers ▸ hi)

theorem keepsTier_apply (op : Op) {id : SubChunkId} (hid : id ∈ (t.apply op).present) :
    KeepsTier t (t.apply op) id := by
  rcases apply_cases t op with ⟨_, hm⟩ | hr | ⟨-, htiers⟩
  · exact hm.keepsTier id
  · intro tier htier
    exact ⟨tier, (hr.tier id hid).trans htier, le_rfl⟩
  · exact keepsTier_of_eq htiers id

end Step

/-! ### Every sequence of operations -/

section Sequences

variable {t : SubChunkTracker}

theorem run_step (t : SubChunkTracker) (ops : List Op) : run step t ops = some (t.after ops) := by
  induction ops generalizing t with
  | nil => rfl
  | cons op ops ih => exact ih (t.apply op)

theorem accounted_after_iff (ha : Accounted t) (ops : List Op) :
    (∀ es, es <+: ops → Accounted (t.after es)) ↔ Meets step Regular t ops := by
  constructor
  · intro h
    refine Meets.of_prefixes fun es₁ op es₂ m hops hm => ?_
    obtain rfl : t.after es₁ = m := Option.some.inj ((run_step t es₁).symm.trans hm)
    have hbefore := h es₁ ⟨op :: es₂, hops.symm⟩
    have hnext := h (es₁ ++ [op]) ⟨es₂, by rw [hops, List.append_assoc]; rfl⟩
    have happly : t.after (es₁ ++ [op]) = (t.after es₁).apply op := by
      rw [after, List.foldl_append]
      rfl
    exact (accounted_apply_iff hbefore op).mp (happly ▸ hnext)
  · rintro hmeets es ⟨rest, rfl⟩
    refine run_invariant (fun s op s' hs hregular hstep => ?_) ha hmeets.of_append (run_step t es)
    cases hstep
    exact (accounted_apply_iff hs op).mpr hregular

theorem tiersPresent_after (ht : TiersPresent t) (ops : List Op) : TiersPresent (t.after ops) := by
  refine run_preserves (fun s op s' hs hstep => ?_) ht (run_step t ops)
  cases hstep
  exact tiersPresent_apply hs op

/-- The tier over a run in which the sub-chunk stays. -/
theorem keepsTier_after {id : SubChunkId} (ops : List Op)
    (hstays : ∀ es, es <+: ops → id ∈ (t.after es).present) : KeepsTier t (t.after ops) id := by
  induction ops generalizing t with
  | nil => exact keepsTier_of_eq rfl id
  | cons op ops ih =>
    intro tier htier
    have hfirst : id ∈ (t.apply op).present := hstays [op] ⟨ops, rfl⟩
    obtain ⟨tier₁, htier₁, hle₁⟩ := keepsTier_apply op hfirst tier htier
    have hrest : ∀ es, es <+: ops → id ∈ ((t.apply op).after es).present :=
      fun es hes => hstays (op :: es) (List.cons_prefix_cons.mpr ⟨rfl, hes⟩)
    obtain ⟨tier₂, htier₂, hle₂⟩ := ih hrest tier₁ htier₁
    exact ⟨tier₂, htier₂, hle₂.trans hle₁⟩

/-! ### Where a run starts -/

theorem mem_foldl_insert {β : Type} (ids : List SubChunkId) (v : β) (m : HMap SubChunkId β) {i : SubChunkId}
    (h : i ∈ ids.foldl (fun m id => m.insert id v) m) : i ∈ ids ∨ i ∈ m := by
  induction ids generalizing m with
  | nil => exact .inr h
  | cons id ids ih =>
    rcases ih (m.insert id v) h with hmem | hmem
    · exact .inl (List.mem_cons_of_mem id hmem)
    · rcases (AList.mem_insert _).mp hmem with rfl | hold
      · exact .inl List.mem_cons_self
      · exact .inr hold

/-- The maps that are read in know of present sub-chunks only. -/
theorem ofEntries_present (entries : List TrackerEntry) :
    (∀ i ∈ (TrackerMaps.ofEntries entries).tiers, i ∈ (TrackerMaps.ofEntries entries).present) ∧
    ∀ i ∈ (TrackerMaps.ofEntries entries).accessCounts, i ∈ (TrackerMaps.ofEntries entries).present := by
  refine List.foldlRecOn (motive := fun m : TrackerMaps =>
    (∀ i ∈ m.tiers, i ∈ m.present) ∧ ∀ i ∈ m.accessCounts, i ∈ m.present) entries TrackerMaps.push ?_ ?_
  · exact ⟨fun i hi => absurd hi (AList.notMem_empty i), fun i hi => absurd hi (AList.notMem_empty i)⟩
  · rintro m ⟨htiers, hcounts⟩ entry -
    refine ⟨fun i hi => ?_, fun i hi => ?_⟩
    · exact List.mem_insert_iff.mpr (((AList.mem_insert _).mp hi).imp_right (htiers i))
    · simp only [TrackerMaps.push] at hi
      split at hi
      · exact List.mem_insert_iff.mpr (((AList.mem_insert _).mp hi).imp_right (hcounts i))
      · exact List.mem_insert_of_mem (hcounts i hi)

theorem accounted_restored (pagesPerGroup subPagesPerFrame now : Nat) (entries : List TrackerEntry) :
    Accounted (restored pagesPerGroup subPagesPerFrame now entries) where
  bytes := rfl
  tiers := (ofEntries_present entries).1
  times i hi := (mem_foldl_insert _ _ _ hi).resolve_right (AList.notMem_empty i)
  counts := (ofEntries_present entries).2

end Sequences

/-! ### Positions -/

theorem idsDistinct_iff (t : SubChunkTracker) (lastGid lastIndex : Nat) :
    t.IdsDistinct lastGid lastIndex ↔ lastGid < 2 ^ 32 ∧ lastIndex / t.subPagesPerFrame < 2 ^ 16 := by
  constructor
  · intro h
    refine ⟨?_, ?_⟩
    · by_contra hgid
      have hsame := (h 0 (2 ^ 32) 0 0 (Nat.zero_le _) (Nat.not_lt.mp hgid) (Nat.zero_le _)
        (Nat.zero_le _) rfl).1
      exact absurd hsame (by decide)
    · by_contra hframe
      have hspf : 0 < t.subPagesPerFrame := by
        refine Nat.pos_of_ne_zero fun hzero => hframe ?_
        rw [hzero, Nat.div_zero]
        decide
      have hlast : 2 ^ 16 * t.subPagesPerFrame ≤ lastIndex :=
        (Nat.le_div_iff_mul_le hspf).mp (Nat.not_lt.mp hframe)
      have hdiv : 2 ^ 16 * t.subPagesPerFrame / t.subPagesPerFrame = 2 ^ 16 := Nat.mul_div_cancel _ hspf
      have hid : t.subChunkIdFor 0 0 = t.subChunkIdFor 0 (2 ^ 16 * t.subPagesPerFrame) := by
        simp only [subChunkIdFor, hdiv, Nat.zero_div, Nat.mod_self, Nat.zero_mod]
      have hsame := (h 0 0 0 _ (Nat.zero_le _) (Nat.zero_le _) (Nat.zero_le _) hlast hid).2
      rw [hdiv, Nat.zero_div] at hsame
      cases hsame
  · rintro ⟨hgid, hframe⟩ gid gid' i i' hg hg' hi hi' heq
    have hlt : ∀ j ≤ lastIndex, j / t.subPagesPerFrame < 2 ^ 16 :=
      fun j hj => lt_of_le_of_lt (Nat.div_le_div_right hj) hframe
    simp only [subChunkIdFor, SubChunkId.mk.injEq] at heq
    rw [Nat.mod_eq_of_lt (by omega), Nat.mod_eq_of_lt (by omega), Nat.mod_eq_of_lt (hlt i hi),
      Nat.mod_eq_of_lt (hlt i' hi')] at heq
    exact heq

/-- From any tracker that is restored: every state of a run is accounted exactly when every operation is
regular in its state; tiers stand for present sub-chunks, and none loses priority while its sub-chunk
stays; and ids are distinct as far as group ids have 32 bits and frames 16. -/
theorem accounting_iff (pagesPerGroup subPagesPerFrame now : Nat) (entries : List TrackerEntry) :
    (∀ ops,
      (∀ es, es <+: ops → Accounted ((restored pagesPerGroup subPagesPerFrame now entries).after es)) ↔
        Meets step Regular (restored pagesPerGroup subPagesPerFrame now entries) ops) ∧
    (∀ ops, TiersPresent ((restored pagesPerGroup subPagesPerFrame now entries).after ops)) ∧
    (∀ (t : SubChunkTracker) (ops : List Op) (id : SubChunkId),
      (∀ es, es <+: ops → id ∈ (t.after es).present) → KeepsTier t (t.after ops) id) ∧
    ∀ (t : SubChunkTracker) (lastGid lastIndex : Nat),
      t.IdsDistinct lastGid lastIndex ↔ lastGid < 2 ^ 32 ∧ lastIndex / t.subPagesPerFrame < 2 ^ 16 := by
  have hstart := accounted_restored pagesPerGroup subPagesPerFrame now entries
  exact ⟨accounted_after_iff hstart, tiersPresent_after hstart.tiers, fun t ops id => keepsTier_after ops,
    idsDistinct_iff⟩

/-- A data sub-chunk that becomes an index one and is marked as data again. -/
theorem accounting_iff_index : KeepsTier ((restored 8 4 0 []).after [.markPresent ⟨0, 0⟩ .data 1])
    ((restored 8 4 0 []).after
      [.markPresent ⟨0, 0⟩ .data 1, .markIndex ⟨0, 0⟩ 2, .markPresent ⟨0, 0⟩ .data 3]) ⟨0, 0⟩ := by
  obtain ⟨-, -, htier, -⟩ := accounting_iff 8 4 0 []
  refine htier ((restored 8 4 0 []).after [.markPresent ⟨0, 0⟩ .data 1])
    [.markIndex ⟨0, 0⟩ 2, .markPresent ⟨0, 0⟩ .data 3] ⟨0, 0⟩ fun es hes => ?_
  cases es with
  | nil => decide
  | cons op es =>
    obtain ⟨hop, hrest⟩ := List.cons_prefix_cons.mp hes
    clear hes
    subst hop
    cases es with
    | nil => decide
    | cons op es =>
      obtain ⟨hop, hnil⟩ := List.cons_prefix_cons.mp hrest
      obtain rfl := List.prefix_nil.mp hnil
      subst hop
      decide

/-- A group of two frames of which one is cached is touched, and group `2 ^ 32` shares its ids. -/
theorem touched_not_accounted :
    ¬ Accounted ((restored 8 4 0 []).after (.markPresent ⟨0, 0⟩ .data 1 :: touchGroup 0 2 2)) ∧
    (restored 8 4 0 []).subChunkIdFor 0 0 = (restored 8 4 0 []).subChunkIdFor (2 ^ 32) 0 := by
  refine ⟨fun h => ?_, rfl⟩
  have hmem := h.times ⟨0, 1⟩ (by decide)
  revert hmem
  decide

end SubChunkTracker

end Turbolite
