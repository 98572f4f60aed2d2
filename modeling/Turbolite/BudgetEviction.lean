import Mathlib.Data.Rat.Defs
import Mathlib.Algebra.Order.Field.Rat
import Mathlib.Tactic.Linarith
import Turbolite.CacheClears
import Turbolite.GroupPresence

/-!
# Turbolite.BudgetEviction

`evict_to_budget` as a whole: the snapshot of scored sub-chunks, the sort, the loop with its two checks,
and the compaction at its end. `GroupCache.evictToBudget` leaves the victims to its caller; here they
are what the code picks, and `evictLoop_spec` says that the loop evicts a prefix of the sorted snapshot
without the groups being fetched. Scores are exact rationals and times are nanoseconds.
-/

namespace Turbolite

/-- `RECENCY_WINDOW_SECS`, in nanoseconds. -/
def recencyWindow : Nat := 3600 * 10 ^ 9

/-- `ACCESS_COUNT_CAP`. -/
def accessCountCap : Nat := 64

/-- How long ago a sub-chunk was used, and how often. -/
structure Usage where
  ages : SubChunkId → Option Nat := fun _ => none
  counts : SubChunkId → Option Nat := fun _ => none

namespace Usage

/-- The sub-chunk leaves the tracker. -/
def remove (u : Usage) (id : SubChunkId) : Usage where
  ages := Function.update u.ages id none
  counts := Function.update u.counts id none

/-- What the score adds for the tier. -/
def tierBonus : SubChunkTier → Rat
  | .index => 10
  | _ => 0

/-- The score of `score_evictable`: lower is more evictable. -/
def score (u : Usage) (tier : SubChunkTier) (id : SubChunkId) : Rat :=
  let age := (u.ages id).getD recencyWindow
  let recency := 1 - min ((age : Rat) / recencyWindow) 1
  let frequency := min (((u.counts id).getD 0 : Rat) / accessCountCap) 1
  tierBonus tier + recency + frequency

end Usage

/-- The cache with the bytes its tracker counts: a fixed number for every tracked sub-chunk. -/
structure SizedCache extends GroupCache where
  usage : Usage := {}
  subChunkByteSize : Nat
  currentCacheBytes : Nat
  accounted : currentCacheBytes = tracker.keys.length * subChunkByteSize

namespace SizedCache

/-! ### The bytes of the tracker -/

theorem length_keys_erase (t : HMap SubChunkId SubChunkTier) (id : SubChunkId) :
    (t.erase id).keys.length = t.keys.length - if (t.lookup id).isSome then 1 else 0 := by
  rw [AList.keys_erase, List.length_erase]
  by_cases hid : id ∈ t.keys
  · rw [if_pos hid, if_pos (AList.lookup_isSome.mpr (AList.mem_keys.mpr hid))]
  · rw [if_neg hid, AList.lookup_eq_none.mpr (fun h => hid (AList.mem_keys.mp h))]
    rfl

theorem length_keys_insert (t : HMap SubChunkId SubChunkTier) (id : SubChunkId) (tier : SubChunkTier) :
    (t.insert id tier).keys.length = t.keys.length + if (t.lookup id).isSome then 0 else 1 := by
  rw [AList.keys_insert, List.length_cons, List.length_erase]
  by_cases hid : id ∈ t.keys
  · rw [if_pos hid, if_pos (AList.lookup_isSome.mpr (AList.mem_keys.mpr hid))]
    have := List.length_pos_of_mem hid
    omega
  · rw [if_neg hid, AList.lookup_eq_none.mpr (fun h => hid (AList.mem_keys.mp h))]
    rfl

/-- `set_sub_chunk_byte_size`, once the page size is known. -/
def setSubChunkByteSize (c : SizedCache) (byteSize : Nat) : SizedCache :=
  { c with
    subChunkByteSize := byteSize
    currentCacheBytes := c.tracker.keys.length * byteSize
    accounted := rfl }

/-- `present.insert` and the bytes of it, with the tier and the access times that the caller sets. -/
def record (c : SizedCache) (id : SubChunkId) (tier : SubChunkTier) (ages : SubChunkId → Option Nat) :
    SizedCache :=
  { c with
    tracker := c.tracker.insert id tier
    usage := { c.usage with ages := ages }
    currentCacheBytes := c.currentCacheBytes +
      if (c.tracker.lookup id).isSome then 0 else c.subChunkByteSize
    accounted := by
      rw [length_keys_insert, Nat.add_mul, c.accounted]
      split <;> simp }

/-- `SubChunkTracker::mark_present`: a higher tier stays. -/
def markPresent (c : SizedCache) (id : SubChunkId) (tier : SubChunkTier) : SizedCache :=
  let tier' :=
    match c.tracker.lookup id, tier with
    | none, t => t
    | some .pinned, _ | some .index, .pinned => .pinned
    | some .index, _ | some .data, .index => .index
    | some .data, t => t
  c.record id tier' (Function.update c.usage.ages id (some 0))

/-- `or_insert_with(Instant::now)`. -/
def firstSeen (c : SizedCache) (id : SubChunkId) : SubChunkId → Option Nat :=
  Function.update c.usage.ages id (some ((c.usage.ages id).getD 0))

/-- `SubChunkTracker::mark_pinned`. -/
def markPinned (c : SizedCache) (id : SubChunkId) : SizedCache := c.record id .pinned (c.firstSeen id)

/-- `SubChunkTracker::mark_index`: what is pinned stays so. -/
def markIndex (c : SizedCache) (id : SubChunkId) : SizedCache :=
  c.record id (if c.tracker.lookup id = some .pinned then .pinned else .index) (c.firstSeen id)

variable (k : CacheConfig)

/-- One turn of the loop: the pages go from the disk first, then the sub-chunk from the tracker. -/
def evictOne (c : SizedCache) (id : SubChunkId) : SizedCache where
  toGroupCache := c.toGroupCache.evictSubChunk k id
  usage := c.usage.remove id
  subChunkByteSize := c.subChunkByteSize
  currentCacheBytes :=
    if (c.tracker.lookup id).isSome then c.currentCacheBytes - c.subChunkByteSize else c.currentCacheBytes
  accounted := by
    show _ = (c.tracker.erase id).keys.length * _
    rw [length_keys_erase, Nat.sub_mul, c.accounted]
    split <;> simp

/-! ### Eviction to a budget -/

/-- `pinned_bytes`. -/
def pinnedBytes (c : SizedCache) : Nat :=
  (c.tracker.keys.filter fun id => c.tracker.lookup id = some .pinned).length * c.subChunkByteSize

/-- One turn of `score_evictable`. -/
def scored? (c : SizedCache) (skip : List Nat) (id : SubChunkId) : Option (SubChunkId × Rat) :=
  match c.tracker.lookup id with
  | none | some .pinned => none
  | some tier => if id.groupId ∈ skip then none else some (id, c.usage.score tier id)

/-- `score_evictable`. -/
def scoreEvictable (c : SizedCache) (skip : List Nat) : List (SubChunkId × Rat) :=
  c.tracker.keys.filterMap (c.scored? skip)

/-- The snapshot, by score. -/
def victims (c : SizedCache) (skip : List Nat) : List SubChunkId :=
  ((c.scoreEvictable skip).mergeSort fun a b => decide (a.2 ≤ b.2)).map (·.1)

/-- The loop of `evict_to_budget`, with what it has evicted. -/
def evictLoop (budget : Nat) : List SubChunkId → SizedCache → List SubChunkId × SizedCache
  | [], c => ([], c)
  | id :: ids, c =>
    if c.currentCacheBytes ≤ budget then ([], c)
    else if c.groupState id.groupId = .fetching then evictLoop budget ids c
    else
      let out := evictLoop budget ids (c.evictOne k id)
      (id :: out.1, out.2)

/-- `live_bytes`. -/
def liveBytes (c : SizedCache) : Nat := (c.index.entries.map fun e => e.2.compressedLen).sum

/-- The compaction after an eviction of a compressed cache, when dead space dominates. -/
def compactIfSparse (c : SizedCache) : SizedCache :=
  if k.compressed ∧ 0 < c.liveBytes ∧ c.liveBytes * 2 < c.nextOffset ∧ 2 ^ 20 < c.nextOffset then
    { c with toCacheFile := c.toCacheFile.compactCompressedCache k }
  else c

/-- `evict_to_budget`. -/
def evictToBudget (c : SizedCache) (budget : Nat) (skip : List Nat) : List SubChunkId × SizedCache :=
  if c.currentCacheBytes ≤ budget then ([], c)
  else if c.currentCacheBytes ≤ c.pinnedBytes then ([], c)
  else
    let out := evictLoop k budget (c.victims skip) c
    if out.1 = [] then out else (out.1, out.2.compactIfSparse k)

/-! ### Scores -/

section Scores

variable {u : Usage} {id id' : SubChunkId}

/-- Recency and frequency together are at most two, and not negative. -/
theorem score_bounds (u : Usage) (tier : SubChunkTier) (id : SubChunkId) :
    Usage.tierBonus tier ≤ u.score tier id ∧ u.score tier id ≤ Usage.tierBonus tier + 2 := by
  have hage : (0 : Rat) ≤ min ((((u.ages id).getD recencyWindow : Nat) : Rat) / recencyWindow) 1 :=
    le_min (div_nonneg (Nat.cast_nonneg _) (Nat.cast_nonneg _)) zero_le_one
  have hage' : min ((((u.ages id).getD recencyWindow : Nat) : Rat) / recencyWindow) 1 ≤ 1 := min_le_right ..
  have hcount : (0 : Rat) ≤ min ((((u.counts id).getD 0 : Nat) : Rat) / accessCountCap) 1 :=
    le_min (div_nonneg (Nat.cast_nonneg _) (Nat.cast_nonneg _)) zero_le_one
  have hcount' : min ((((u.counts id).getD 0 : Nat) : Rat) / accessCountCap) 1 ≤ 1 := min_le_right ..
  unfold Usage.score
  dsimp only
  constructor <;> linarith

/-- The hottest Data sub-chunk goes before the coldest Index one. -/
theorem score_data_lt_index : u.score .data id < u.score .index id' := by
  have hdata := (score_bounds u .data id).2
  have hindex := (score_bounds u .index id').1
  simp only [Usage.tierBonus] at hdata hindex
  linarith

end Scores

/-! ### The snapshot -/

section Snapshot

variable {c : SizedCache} {skip : List Nat} {id : SubChunkId}

theorem scored?_eq_some {x : SubChunkId × Rat} (h : c.scored? skip id = some x) :
    ∃ tier, c.tracker.lookup id = some tier ∧ tier ≠ .pinned ∧ id.groupId ∉ skip ∧
      x = (id, c.usage.score tier id) := by
  unfold scored? at h
  split at h
  · cases h
  · cases h
  · rename_i tier hpinned htier
    split at h
    · cases h
    · rename_i hskip
      cases h
      exact ⟨tier, htier, hpinned, hskip, rfl⟩

theorem scored?_of_evictable (h : c.Evictable Residency.unpinned skip id) :
    ∃ x, c.scored? skip id = some x ∧ x.1 = id := by
  obtain ⟨tier, htier, hmem, hskip⟩ := h
  have htier' : c.tracker.lookup id = some tier := htier
  refine ⟨(id, c.usage.score tier id), ?_, rfl⟩
  cases tier with
  | pinned => simp [Residency.unpinned] at hmem
  | index | data => simp only [scored?, htier', if_neg hskip]

theorem mem_victims : id ∈ c.victims skip ↔ c.Evictable Residency.unpinned skip id := by
  unfold victims scoreEvictable
  simp only [List.mem_map, List.mem_mergeSort, List.mem_filterMap]
  constructor
  · rintro ⟨x, ⟨id', -, hx⟩, rfl⟩
    obtain ⟨tier, htier, hpinned, hskip, rfl⟩ := scored?_eq_some hx
    refine ⟨tier, htier, ?_, hskip⟩
    cases tier with
    | pinned => exact absurd rfl hpinned
    | index | data => simp [Residency.unpinned]
  · intro h
    obtain ⟨x, hx, rfl⟩ := scored?_of_evictable h
    obtain ⟨tier, htier, -⟩ := h
    refine ⟨x, ⟨x.1, ?_, hx⟩, rfl⟩
    rw [← AList.mem_keys, ← AList.lookup_isSome]
    exact Option.isSome_of_mem htier

/-- No Index sub-chunk stands before a Data one. -/
theorem pairwise_victims (c : SizedCache) (skip : List Nat) : (c.victims skip).Pairwise fun a b =>
    c.tracker.lookup a = some .index → c.tracker.lookup b ≠ some .data := by
  have hsorted : ((c.scoreEvictable skip).mergeSort fun a b => decide (a.2 ≤ b.2)).Pairwise
      fun a b => decide (a.2 ≤ b.2) := by
    refine List.pairwise_mergeSort (fun a b d hab hbd => ?_) (fun a b => ?_) _
    · exact decide_eq_true ((of_decide_eq_true hab).trans (of_decide_eq_true hbd))
    · simpa using le_total a.2 b.2
  refine List.pairwise_map.mpr (hsorted.imp_of_mem fun {a b} ha hb hab hindex hdata => ?_)
  obtain ⟨ida, -, hsa⟩ := List.mem_filterMap.mp (List.mem_mergeSort.mp ha)
  obtain ⟨idb, -, hsb⟩ := List.mem_filterMap.mp (List.mem_mergeSort.mp hb)
  obtain ⟨ta, hta, -, -, rfl⟩ := scored?_eq_some hsa
  obtain ⟨tb, htb, -, -, rfl⟩ := scored?_eq_some hsb
  obtain rfl : ta = .index := Option.some.inj (hta.symm.trans hindex)
  obtain rfl : tb = .data := Option.some.inj (htb.symm.trans hdata)
  exact absurd (of_decide_eq_true hab) (not_le.mpr score_data_lt_index)

end Snapshot

/-! ### The loop -/

variable {k}

section Loop

variable {c : SizedCache} (budget : Nat)

/-- The loop evicts the groups that are not being fetched, from the front, until the budget is met. -/
theorem evictLoop_spec (ids : List SubChunkId) :
    ∃ pre post, ids = pre ++ post ∧
      (evictLoop k budget ids c).1 = pre.filter (fun id => c.groupState id.groupId ≠ .fetching) ∧
      ((evictLoop k budget ids c).2.currentCacheBytes ≤ budget ∨ post = []) := by
  induction ids generalizing c with
  | nil => exact ⟨[], [], rfl, rfl, .inr rfl⟩
  | cons id ids ih =>
    rw [evictLoop]
    split
    · rename_i hmet
      exact ⟨[], id :: ids, rfl, rfl, .inl hmet⟩
    · split
      · rename_i hfetching
        obtain ⟨pre, post, rfl, hout, hend⟩ := ih (c := c)
        refine ⟨id :: pre, post, rfl, ?_, hend⟩
        rw [hout, List.filter_cons_of_neg (by simp [hfetching])]
      · rename_i hidle
        obtain ⟨pre, post, rfl, hout, hend⟩ := ih (c := c.evictOne k id)
        refine ⟨id :: pre, post, rfl, ?_, hend⟩
        -- an eviction leaves the states of groups alone
        rw [List.filter_cons_of_pos (by simpa using hidle)]
        exact congrArg (id :: ·) hout

theorem toGroupCache_evictLoop (ids : List SubChunkId) :
    (evictLoop k budget ids c).2.toGroupCache =
      c.toGroupCache.evictSubChunks k (evictLoop k budget ids c).1 := by
  induction ids generalizing c with
  | nil => rfl
  | cons id ids ih =>
    rw [evictLoop]
    split
    · rfl
    · split
      · exact ih
      · exact ih (c := c.evictOne k id)

end Loop

/-! ### What is left alone -/

section Frame

variable {c : SizedCache} {stored : PageMap} {p : Nat}

theorem isPresent_compact (h : GroupPresence.FileInv k c.toCacheFile stored) :
    (c.compactCompressedCache k).isPresent k p = true ↔ c.isPresent k p = true := by
  refine ⟨fun hp => ?_, CacheRestart.Inv.isPresent_compact h⟩
  cases hk : k.compressed with
  | false =>
    have hsame : c.toCacheFile.compactCompressedCache k = c.toCacheFile := by
      simp [CacheFile.compactCompressedCache, hk]
    rwa [hsame] at hp
  | true =>
    obtain ⟨hbit, e, he⟩ := (CacheFile.isPresent_compressed hk).mp hp
    simp only [CacheFile.compactCompressedCache, hk, if_true] at hbit he
    obtain ⟨-, e', -, -, -, hl⟩ := CacheRestart.Inv.lookup_packed h hk he
    exact (CacheFile.isPresent_compressed hk).mpr ⟨hbit, e', hl⟩

/-- What a compaction leaves alone. -/
theorem compactIfSparse_cases (c : SizedCache) : c.compactIfSparse k = c ∨
    c.compactIfSparse k = { c with toCacheFile := c.toCacheFile.compactCompressedCache k } := by
  unfold compactIfSparse
  split
  · exact .inr rfl
  · exact .inl rfl

theorem bitmap_compactIfSparse (c : SizedCache) : (c.compactIfSparse k).bitmap = c.bitmap := by
  rcases compactIfSparse_cases (k := k) c with h | h
  · rw [h]
  · rw [h]
    show (c.toCacheFile.compactCompressedCache k).bitmap = c.bitmap
    unfold CacheFile.compactCompressedCache
    split <;> rfl

end Frame

/-! ### What an eviction to a budget does -/

/-- A sub-chunk that the eviction may take, as things stand. -/
def Removable (c : SizedCache) (skip : List Nat) (id : SubChunkId) : Prop :=
  c.Evictable Residency.unpinned skip id ∧ c.groupState id.groupId ≠ .fetching

/-- The cache `c'` is `c` without the sub-chunks of `evicted`, and meets the budget as far as it can. -/
structure BudgetMet (k : CacheConfig) (c c' : SizedCache) (budget : Nat) (skip : List Nat)
    (evicted : List SubChunkId) : Prop where
  /-- nothing pinned, skipped or being fetched goes -/
  allowed : ∀ id ∈ evicted, c.Removable skip id
  /-- an Index sub-chunk goes after every Data one -/
  dataFirst : ∀ pre id post, evicted = pre ++ id :: post → c.tracker.lookup id = some .index →
    ∀ id', c.Removable skip id' → c.tracker.lookup id' = some .data → id' ∈ pre
  /-- the budget is met, or there is nothing left to take -/
  enough : c'.currentCacheBytes ≤ budget ∨ ∀ id, ¬ c'.Removable skip id
  tracked : ∀ id, c'.tracker.lookup id = if id ∈ evicted then none else c.tracker.lookup id
  states : ∀ gid, c'.groupState gid = c.groupState gid
  bits : ∀ p, c'.bitmap p = true ↔ c.bitmap p = true ∧ ∀ id ∈ evicted, p ∉ c.subChunkPageNums id
  /-- also for the reads of a cache whose present pages can be read -/
  present : ∀ stored, GroupPresence.FileInv k c.toCacheFile stored → ∀ p,
    c'.isPresent k p = true ↔ c.isPresent k p = true ∧ ∀ id ∈ evicted, p ∉ c.subChunkPageNums id

section Budget

variable {c : SizedCache} {budget : Nat} {skip : List Nat}

/-- More bytes than the pinned ones take: some sub-chunk is not pinned. -/
theorem not_evictable_of_pinned (hpinned : c.currentCacheBytes ≤ c.pinnedBytes)
    (hpos : 0 < c.currentCacheBytes) (id : SubChunkId) :
    ¬ c.Evictable Residency.unpinned skip id := by
  rintro ⟨tier, htier, hmem, -⟩
  have htier' : c.tracker.lookup id = some tier := htier
  rw [c.accounted] at hpinned hpos
  have hlen := Nat.le_of_mul_le_mul_right hpinned (Nat.pos_of_mul_pos_left hpos)
  have hall := List.length_filter_eq_length_iff.mp (Nat.le_antisymm (List.length_filter_le ..) hlen)
  have hkey : id ∈ c.tracker.keys := by
    rw [← AList.mem_keys, ← AList.lookup_isSome, htier']
    rfl
  have hpin := of_decide_eq_true (hall id hkey)
  rw [htier'] at hpin
  cases hpin
  simp [Residency.unpinned] at hmem

/-- The loop over the sorted snapshot. -/
theorem budgetMet_evictLoop (k : CacheConfig) (c : SizedCache) (budget : Nat) (skip : List Nat) :
    BudgetMet k c (evictLoop k budget (c.victims skip) c).2 budget skip
      (evictLoop k budget (c.victims skip) c).1 := by
  obtain ⟨front, rest, hsplit, hout, hend⟩ := evictLoop_spec (k := k) (c := c) budget (c.victims skip)
  have hcache := toGroupCache_evictLoop (k := k) (c := c) budget (c.victims skip)
  generalize evictLoop k budget (c.victims skip) c = out at hout hend hcache ⊢
  have hmem : ∀ id, id ∈ out.1 ↔ id ∈ front ∧ c.groupState id.groupId ≠ .fetching := by
    intro id
    rw [hout, List.mem_filter, decide_eq_true_eq]
  have htracked : ∀ id, out.2.tracker.lookup id = if id ∈ out.1 then none else c.tracker.lookup id := by
    intro id
    rw [hcache]
    exact CacheClears.lookup_tracker_evictSubChunks out.1 id
  have hstates : ∀ gid, out.2.groupState gid = c.groupState gid := by
    intro gid
    rw [hcache]
    exact GroupCache.groupState_evictSubChunks out.1
  refine ⟨fun id hid => ?_, fun pre id post hpre hindex id' hid' hdata => ?_, ?_, htracked, hstates,
    fun p => ?_, fun stored _ p => ?_⟩
  · obtain ⟨hfront, hidle⟩ := (hmem id).mp hid
    exact ⟨mem_victims.mp (hsplit ▸ List.mem_append_left _ hfront), hidle⟩
  · -- the Data sub-chunk is in the snapshot, and cannot stand after the Index one
    obtain ⟨l₁, l₂, rfl, rfl, htail⟩ := List.filter_eq_append_iff.mp (hout.symm.trans hpre)
    obtain ⟨m₁, m₂, rfl, hbusy, -, -⟩ := List.filter_eq_cons_iff.mp htail
    have hin : id' ∈ (l₁ ++ (m₁ ++ id :: m₂)) ++ rest := hsplit ▸ mem_victims.mpr hid'.1
    have hsorted := pairwise_victims c skip
    rw [hsplit, List.append_assoc, List.append_assoc, ← List.append_assoc l₁, List.cons_append] at hsorted
    have hafter := (List.pairwise_cons.mp (List.pairwise_append.mp hsorted).2.1).1
    simp only [List.mem_append, List.mem_cons] at hin hafter
    rcases hin with (hl₁ | hm₁ | rfl | hm₂) | hrest
    · exact List.mem_filter.mpr ⟨hl₁, decide_eq_true hid'.2⟩
    · exact absurd (decide_eq_true hid'.2) (hbusy id' hm₁)
    · rw [hindex] at hdata
      cases hdata
    · exact absurd hdata (hafter id' (.inl hm₂) hindex)
    · exact absurd hdata (hafter id' (.inr hrest) hindex)
  · rcases hend with hmet | rfl
    · exact .inl hmet
    · right
      rintro id ⟨⟨tier, htier, hunpinned, hskip⟩, hidle⟩
      have htier' : out.2.tracker.lookup id = some tier := htier
      rw [htracked] at htier'
      split at htier'
      · cases htier'
      · rename_i hkept
        have hin : id ∈ front ++ [] := hsplit ▸ mem_victims.mpr ⟨tier, htier', hunpinned, hskip⟩
        rw [List.append_nil] at hin
        exact hkept ((hmem id).mpr ⟨hin, hstates _ ▸ hidle⟩)
  · have hcleared := CacheClears.cleared_evictSubChunks (k := k) (c := c.toGroupCache) out.1
    rw [hcache, hcleared.bits]
    simp only [not_exists, not_and]
  · rw [hcache]
    exact GroupCache.isPresent_evictSubChunks out.1

/-- A compaction afterwards changes nothing of it. -/
theorem BudgetMet.compactIfSparse {c' : SizedCache} {evicted : List SubChunkId}
    (h : BudgetMet k c c' budget skip evicted)
    (hcache : c'.toGroupCache = c.toGroupCache.evictSubChunks k evicted) :
    BudgetMet k c (c'.compactIfSparse k) budget skip evicted := by
  rcases compactIfSparse_cases (k := k) c' with hsame | hcompact
  · rw [hsame]
    exact h
  · refine ⟨h.allowed, h.dataFirst, ?_, ?_, ?_, ?_, fun stored hfile p => ?_⟩
    · rw [hcompact]
      exact h.enough
    · rw [hcompact]
      exact h.tracked
    · rw [hcompact]
      exact h.states
    · rw [bitmap_compactIfSparse]
      exact h.bits
    · have hfile' : GroupPresence.FileInv k c'.toCacheFile stored := by
        rw [hcache]
        exact hfile.evictSubChunks evicted
      rw [hcompact]
      exact (isPresent_compact hfile').trans (h.present stored hfile p)

/-- Nothing is done, and that is enough. -/
theorem budgetMet_self (h : c.currentCacheBytes ≤ budget ∨ ∀ id, ¬ c.Removable skip id) :
    BudgetMet k c c budget skip [] := by
  refine ⟨by simp, by simp, h, by simp, fun _ => rfl, by simp, by simp⟩

/-- The eviction in two parts: what it takes, and then perhaps a compaction. -/
theorem evictToBudget_cases (k : CacheConfig) (c : SizedCache) (budget : Nat) (skip : List Nat) :
    ∃ c' : SizedCache, BudgetMet k c c' budget skip (c.evictToBudget k budget skip).1 ∧
      c'.toGroupCache = c.toGroupCache.evictSubChunks k (c.evictToBudget k budget skip).1 ∧
      ((c.evictToBudget k budget skip).2 = c' ∨
        (c.evictToBudget k budget skip).2 = c'.compactIfSparse k) := by
  unfold evictToBudget
  split
  · rename_i hmet
    exact ⟨c, budgetMet_self (.inl hmet), rfl, .inl rfl⟩
  · rename_i hover
    split
    · rename_i hpinned
      have hpos : 0 < c.currentCacheBytes := by omega
      have hnone : ∀ id, ¬ c.Removable skip id := fun id hid =>
        not_evictable_of_pinned hpinned hpos id hid.1
      exact ⟨c, budgetMet_self (.inr hnone), rfl, .inl rfl⟩
    · have hloop := budgetMet_evictLoop k c budget skip
      have hcache := toGroupCache_evictLoop (k := k) (c := c) budget (c.victims skip)
      dsimp only
      split
      · exact ⟨_, hloop, hcache, .inl rfl⟩
      · exact ⟨_, hloop, hcache, .inr rfl⟩

theorem evictToBudget_eq_evictSubChunks {c : GroupCache} {ids : List SubChunkId}
    (h : ∀ id ∈ ids, c.groupState id.groupId ≠ .fetching) :
    c.evictToBudget k ids = c.evictSubChunks k ids := by
  induction ids generalizing c with
  | nil => rfl
  | cons id ids ih =>
    obtain ⟨hid, hids⟩ := List.forall_mem_cons.mp h
    rw [GroupCache.evictToBudget, List.foldl_cons, if_neg hid]
    exact ih (c := c.evictSubChunk k id) hids

/-- On the shared cache the eviction is a trim by what it evicts, and then perhaps a compaction. -/
theorem evictToBudget_steps (k : CacheConfig) (s : Residency.State) (c : SizedCache) (budget : Nat)
    (h : s.cache = c.toGroupCache) :
    ∃ s', Residency.step k s (.trim (c.evictToBudget k budget c.fetchingGroupIds).1) = some s' ∧
      ((c.evictToBudget k budget c.fetchingGroupIds).2.toGroupCache = s'.cache ∨
        Residency.step k s' .compact =
          some { s' with cache := (c.evictToBudget k budget c.fetchingGroupIds).2.toGroupCache }) := by
  obtain ⟨c', hmet, hcache, hend⟩ := evictToBudget_cases k c budget c.fetchingGroupIds
  have hallowed := hmet.allowed
  generalize c.evictToBudget k budget c.fetchingGroupIds = out at hmet hallowed hcache hend ⊢
  have htrim : s.cache.evictToBudget k out.1 = c'.toGroupCache := by
    rw [h, hcache]
    exact evictToBudget_eq_evictSubChunks fun id hid => (hallowed id hid).2
  refine ⟨{ s with cache := c'.toGroupCache }, ?_, ?_⟩
  · simp only [Residency.step]
    rw [if_pos, htrim]
    intro id hid
    rw [h]
    exact (hallowed id hid).1
  · rcases hend with hend | hend
    · exact .inl (congrArg SizedCache.toGroupCache hend)
    · rw [hend]
      rcases compactIfSparse_cases (k := k) c' with hsame | hcompact
      · exact .inl (congrArg SizedCache.toGroupCache hsame)
      · right
        rw [hcompact]
        rfl

end Budget

end SizedCache

end Turbolite
