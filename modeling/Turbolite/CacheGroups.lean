import Turbolite.CacheFile
import Turbolite.Manifest

/-!
# Turbolite.CacheGroups

The disk cache with what it records about groups (`disk_cache.rs`, `cache_tracking.rs`): a state per
group, the tracker of sub-chunks with their tiers, the access times, and the cache's own copy of the
group lists. Presence of a page is recorded in the bitmap (and the index of the compressed mode); the
group states and the tracker are kept next to it by each operation on its own. Scores and clocks are
left out: which sub-chunks or groups an eviction picks is an argument.
-/

namespace Turbolite

open Blocks

/-- `GroupState`. -/
inductive GroupState where
  | none
  | fetching
  | present
  deriving DecidableEq, Repr

/-- `SubChunkTier`, by priority. -/
inductive SubChunkTier where
  | pinned
  | index
  | data
  deriving DecidableEq, Repr

/-- `SubChunkId`. -/
structure SubChunkId where
  groupId : Nat
  frameIndex : Nat
  deriving DecidableEq, Repr

/-- The cache file with the group states and the sub-chunk tracker. -/
structure GroupCache extends CacheFile where
  pagesPerGroup : Nat
  subPagesPerFrame : Nat
  /-- `group_pages`, set by `set_group_pages` -/
  groupPages : List (List Nat) := []
  states : List GroupState := []
  tracker : HMap SubChunkId SubChunkTier := ∅
  /-- the groups that have an access time -/
  groupAccess : List Nat := []
  interiorGroups : List Nat := []
  interiorPages : List Nat := []
  indexPages : List Nat := []

namespace GroupCache

variable (k : CacheConfig)

/-- `group_state`. -/
def groupState (c : GroupCache) (gid : Nat) : GroupState := c.states.getD gid .none

/-! ### Fetches -/

/-- `try_claim_group`; `none` when somebody else has the group. -/
def tryClaimGroup (c : GroupCache) (gid : Nat) : Option GroupCache :=
  if c.groupState gid = .none then
    some { c with states := growSet .none c.states gid .fetching }
  else none

/-- `mark_group_present`, without the lazy trim. -/
def markGroupPresent (c : GroupCache) (gid : Nat) : GroupCache :=
  { c with states := growSet .none c.states gid .present }

/-- `unclaim_if_fetching`. -/
def unclaimIfFetching (c : GroupCache) (gid : Nat) : GroupCache :=
  if c.groupState gid = .fetching then { c with states := c.states.set gid .none } else c

/-- `SubChunkTracker::mark_present` with the tier `Data`: a higher tier stays. -/
def trackData (t : HMap SubChunkId SubChunkTier) (id : SubChunkId) : HMap SubChunkId SubChunkTier :=
  if (t.lookup id).isSome then t else t.insert id .data

/-- `sub_chunk_id_for`. -/
def subChunkIdFor (c : GroupCache) (gid idx : Nat) : SubChunkId := ⟨gid, idx / c.subPagesPerFrame⟩

/-- `sub_chunk_for_page`: by position, whatever the groups are. -/
def subChunkForPage (c : GroupCache) (p : Nat) : SubChunkId :=
  if c.pagesPerGroup = 0 ∨ c.subPagesPerFrame = 0 then ⟨0, 0⟩
  else ⟨p / c.pagesPerGroup, p % c.pagesPerGroup / c.subPagesPerFrame⟩

/-- `write_page`. Only the compressed mode tells the tracker. -/
def writePage (c : GroupCache) (p : Nat) (data : Bytes) : GroupCache :=
  { c with
    toCacheFile := c.toCacheFile.writePage k p data
    tracker := if k.compressed then trackData c.tracker (c.subChunkForPage p) else c.tracker }

/-- `write_pages_scattered`. -/
def writePagesScattered (c : GroupCache) (pageNums : List Nat) (data : Bytes) (gid start : Nat) :
    GroupCache :=
  { c with
    toCacheFile := c.toCacheFile.writePagesScattered k pageNums data
    tracker := (List.range (pageNums.take (data.length / k.pageSize)).length).foldl
      (fun t i => trackData t (c.subChunkIdFor gid (start + i))) c.tracker }

/-- `mark_interior_group`. -/
def markInteriorGroup (c : GroupCache) (gid p idx : Nat) : GroupCache :=
  let id := c.subChunkIdFor gid idx
  { c with
    interiorGroups := gid :: c.interiorGroups
    interiorPages := p :: c.interiorPages
    tracker := if (c.tracker.lookup id).isSome then c.tracker.insert id .pinned else c.tracker }

/-- `mark_index_page`. -/
def markIndexPage (c : GroupCache) (p gid idx : Nat) : GroupCache :=
  let id := c.subChunkIdFor gid idx
  { c with
    indexPages := p :: c.indexPages
    tracker :=
      match c.tracker.lookup id with
      | none | some .pinned => c.tracker
      | some _ => c.tracker.insert id .index }

/-- `touch_group`, the access time. -/
def touchGroup (c : GroupCache) (gid : Nat) : GroupCache :=
  { c with groupAccess := gid :: c.groupAccess }

/-! ### Evictions -/

/-- `group_page_nums` of the cache: a group it has no list for is taken by position. -/
def groupPageNums (c : GroupCache) (gid : Nat) : List Nat :=
  match c.groupPages[gid]? with
  | some explicit => explicit
  | none => List.range' (gid * c.pagesPerGroup) c.pagesPerGroup

/-- `sub_chunk_page_nums`. -/
def subChunkPageNums (c : GroupCache) (id : SubChunkId) : List Nat :=
  match c.groupPages[id.groupId]? with
  | some explicit => block c.subPagesPerFrame id.frameIndex explicit
  | none => List.range' (id.groupId * c.pagesPerGroup + id.frameIndex * c.subPagesPerFrame)
      c.subPagesPerFrame

/-- `clear_pages_from_disk`. -/
def clearPages (c : GroupCache) (pageNums : List Nat) : GroupCache :=
  { c with toCacheFile := c.toCacheFile.clearPagesFromDisk k pageNums }

/-- `evict_sub_chunk`. The group keeps its state. -/
def evictSubChunk (c : GroupCache) (id : SubChunkId) : GroupCache :=
  { c.clearPages k (c.subChunkPageNums id) with tracker := c.tracker.erase id }

/-- `evict_sub_chunks`. -/
def evictSubChunks (c : GroupCache) (ids : List SubChunkId) : GroupCache :=
  ids.foldl (fun c id => c.evictSubChunk k id) c

/-- Which sub-chunks an eviction may take: tracked, of one of the tiers, in no skipped group. -/
def Evictable (c : GroupCache) (tiers : List SubChunkTier) (skip : List Nat) (id : SubChunkId) : Prop :=
  ∃ tier ∈ c.tracker.lookup id, tier ∈ tiers ∧ id.groupId ∉ skip

instance (c : GroupCache) (tiers : List SubChunkTier) (skip : List Nat) (id : SubChunkId) :
    Decidable (c.Evictable tiers skip id) :=
  match h : c.tracker.lookup id with
  | none => isFalse (fun ⟨_, ht, _⟩ => by rw [h] at ht; cases ht)
  | some tier =>
    decidable_of_iff (tier ∈ tiers ∧ id.groupId ∉ skip) <| by
      constructor
      · exact fun hq => ⟨tier, h, hq⟩
      · rintro ⟨t, ht, hq⟩
        rw [h] at ht
        cases ht
        exact hq

/-- `fetching_group_ids`. -/
def fetchingGroupIds (c : GroupCache) : List Nat :=
  (List.range c.states.length).filter fun gid => c.groupState gid = .fetching

/-- `evict_to_budget`: the victims in the order of their scores, until the budget is met. Every group
is looked at again before its sub-chunk goes. -/
def evictToBudget (c : GroupCache) (victims : List SubChunkId) : GroupCache :=
  victims.foldl (fun c id => if c.groupState id.groupId = .fetching then c else c.evictSubChunk k id) c

/-- `SubChunkTracker::remove_group`. -/
def untrackGroup (t : HMap SubChunkId SubChunkTier) (gid : Nat) : HMap SubChunkId SubChunkTier :=
  (t.keys.filter (·.groupId = gid)).foldl (fun t id => t.erase id) t

/-- `evict_group`. -/
def evictGroup (c : GroupCache) (gid : Nat) : GroupCache :=
  { c.clearPages k (c.groupPageNums gid) with
    tracker := untrackGroup c.tracker gid
    states := c.states.set gid .none }

/-- `evict_groups`. -/
def evictGroups (c : GroupCache) (gids : List Nat) : GroupCache :=
  gids.foldl (fun c gid => c.evictGroup k gid) c

/-- `evict_expired`: the groups whose time is up lose it. -/
def evictExpired (c : GroupCache) (expired : List Nat) : GroupCache :=
  { c.evictGroups k expired with groupAccess := c.groupAccess.filter (· ∉ expired) }

/-! ### Whole-cache operations -/

/-- The body of the `clear_cache` functions: the groups of `live` are Present and no other, the pages
of `keep` have their bit and no other. The cache file is left alone. -/
def clearTo (c : GroupCache) (live keep : List Nat) (drop : List SubChunkTier) : GroupCache :=
  { c with
    states := c.states.mapIdx fun gid _ => if gid ∈ live then .present else .none
    groupAccess := []
    bitmap := fun p => decide (p ∈ keep ∧ p < c.capacity)
    index := if k.compressed then
        (c.index.keys.filter (· ∉ keep)).foldl (fun idx p => idx.erase p) c.index
      else c.index
    tracker := (c.tracker.keys.filter fun id => ∃ tier ∈ c.tracker.lookup id, tier ∈ drop).foldl
      (fun t id => t.erase id) c.tracker }

/-- The pages of group 0, by the cache's lists. -/
def groupZeroPages (c : GroupCache) : List Nat :=
  match c.groupPages.head? with
  | some pages => pages
  | none => List.range c.pagesPerGroup

/-- `clear_cache_data_only`; `pending` are the groups to upload with their pages. -/
def clearCacheDataOnly (c : GroupCache) (pending : List (Nat × List Nat)) : GroupCache :=
  c.clearTo k (0 :: pending.map (·.1))
    (c.interiorPages ++ c.indexPages ++ pending.flatMap (·.2) ++ c.groupZeroPages) [.data]

/-- `clear_cache_interior_only`. -/
def clearCacheInteriorOnly (c : GroupCache) (pending : List (Nat × List Nat)) : GroupCache :=
  { c.clearTo k (0 :: pending.map (·.1))
      (c.interiorPages ++ pending.flatMap (·.2) ++ c.groupZeroPages) [.index, .data] with
    indexPages := [] }

/-- `clear_cache_all`. The index starts over. -/
def clearCacheAll (c : GroupCache) : GroupCache :=
  { c.clearTo k [] [] [.pinned, .index, .data] with
    nextOffset := if k.compressed then 0 else c.nextOffset
    interiorGroups := []
    interiorPages := []
    indexPages := [] }

/-- `truncate_to_page_count`. -/
def truncateTo (c : GroupCache) (pageCount : Nat) : GroupCache :=
  { c with
    toCacheFile := c.toCacheFile.truncateToPageCount k pageCount
    tracker := (c.tracker.keys.filter fun id => (c.subChunkPageNums id).all (pageCount ≤ ·)).foldl
      (fun t id => t.erase id) c.tracker
    states := if c.pagesPerGroup = 0 then c.states
      else c.states.mapIdx fun gid st => if divCeil pageCount c.pagesPerGroup ≤ gid then .none else st }

/-- `mark_pages_present` of pages whose bytes are written: their groups by position are Present. -/
def markPagesPresent (c : GroupCache) (pageNums : List Nat) : GroupCache :=
  { c with
    toPresence := pageNums.foldl Presence.mark c.toPresence
    states := if c.pagesPerGroup = 0 then c.states
      else pageNums.foldl (fun st p => growSet .none st (p / c.pagesPerGroup) .present) c.states }

/-! ### What evictions do to presence -/

section Present

variable {k} {c : GroupCache} {q : Nat}

theorem isPresent_evictSubChunk (id : SubChunkId) : (c.evictSubChunk k id).isPresent k q = true ↔
    c.isPresent k q = true ∧ q ∉ c.subChunkPageNums id :=
  CacheFile.isPresent_clearPagesFromDisk

theorem isPresent_evictToBudget (ids : List SubChunkId) :
    (c.evictToBudget k ids).isPresent k q = true ↔ c.isPresent k q = true ∧
      ∀ id ∈ ids, c.groupState id.groupId ≠ .fetching → q ∉ c.subChunkPageNums id := by
  induction ids generalizing c with
  | nil => simp [evictToBudget]
  | cons id ids ih =>
    rw [evictToBudget, List.foldl_cons]
    refine ih.trans ?_
    rw [List.forall_mem_cons]
    split
    · rename_i hf
      simp [hf]
    · rename_i hf
      -- the lists and the states are those of the cache before
      rw [isPresent_evictSubChunk, and_assoc]
      exact and_congr_right fun _ => and_congr_left fun _ => ⟨fun h _ => h, fun h => h hf⟩

theorem isPresent_evictSubChunks (ids : List SubChunkId) :
    (c.evictSubChunks k ids).isPresent k q = true ↔ c.isPresent k q = true ∧
      ∀ id ∈ ids, q ∉ c.subChunkPageNums id := by
  induction ids generalizing c with
  | nil => simp [evictSubChunks]
  | cons id ids ih =>
    rw [evictSubChunks, List.foldl_cons]
    refine ih.trans ?_
    rw [List.forall_mem_cons, isPresent_evictSubChunk, and_assoc]
    rfl

theorem isPresent_evictGroups (gids : List Nat) :
    (c.evictGroups k gids).isPresent k q = true ↔ c.isPresent k q = true ∧
      ∀ gid ∈ gids, q ∉ c.groupPageNums gid := by
  induction gids generalizing c with
  | nil => simp [evictGroups]
  | cons gid gids ih =>
    have hone : (c.evictGroup k gid).isPresent k q = true ↔
        c.isPresent k q = true ∧ q ∉ c.groupPageNums gid :=
      CacheFile.isPresent_clearPagesFromDisk
    rw [evictGroups, List.foldl_cons]
    refine ih.trans ?_
    rw [List.forall_mem_cons, hone, and_assoc]
    rfl

theorem isPresent_clearTo (live keep : List Nat) (drop : List SubChunkTier) :
    (c.clearTo k live keep drop).isPresent k q = true ↔ q ∈ keep ∧ q < c.capacity ∧
      (k.compressed = true → ∃ e, c.index.lookup q = some e) := by
  have hbit : (c.clearTo k live keep drop).bitmap q = true ↔ q ∈ keep ∧ q < c.capacity := by
    simp [clearTo]
  cases hk : k.compressed with
  | false =>
    rw [CacheFile.isPresent_uncompressed hk, hbit]
    simp
  | true =>
    have hidx : (c.clearTo k live keep drop).index.lookup q =
        if q ∈ c.index.keys.filter (· ∉ keep) then none else c.index.lookup q := by
      simp only [clearTo, hk, if_true]
      exact CacheFile.lookup_foldl_erase ..
    rw [CacheFile.isPresent_compressed hk, hbit, hidx]
    by_cases hq : q ∈ keep
    · simp [hq]
    · simp [hq]

theorem sized_evictSubChunks (h : CacheFile.Sized c.toPresence) (ids : List SubChunkId) :
    CacheFile.Sized (c.evictSubChunks k ids).toPresence := by
  induction ids generalizing c with
  | nil => exact h
  | cons id ids ih => exact ih (c := c.evictSubChunk k id) (h.clearPagesFromDisk _)

theorem sized_evictToBudget (h : CacheFile.Sized c.toPresence) (ids : List SubChunkId) :
    CacheFile.Sized (c.evictToBudget k ids).toPresence := by
  induction ids generalizing c with
  | nil => exact h
  | cons id ids ih =>
    rw [evictToBudget, List.foldl_cons]
    refine ih ?_
    split
    · exact h
    · exact h.clearPagesFromDisk _

theorem sized_evictGroups (h : CacheFile.Sized c.toPresence) (gids : List Nat) :
    CacheFile.Sized (c.evictGroups k gids).toPresence := by
  induction gids generalizing c with
  | nil => exact h
  | cons gid gids ih => exact ih (c := c.evictGroup k gid) (h.clearPagesFromDisk _)

theorem sized_truncateTo (h : CacheFile.Sized c.toPresence) (n : Nat) :
    CacheFile.Sized (c.truncateTo k n).toPresence := by
  refine h.restrict rfl fun p hp => ?_
  have hp' : (c.bitmap p && decide (p < n)) = true := hp
  exact (Bool.and_eq_true_iff.mp hp').1

theorem sized_markPagesPresent (h : CacheFile.Sized c.toPresence) (ps : List Nat) :
    CacheFile.Sized (c.markPagesPresent ps).toPresence := by
  show CacheFile.Sized (ps.foldl Presence.mark c.toPresence)
  generalize c.toPresence = t at h ⊢
  induction ps generalizing t with
  | nil => exact h
  | cons p ps ih => exact ih _ (h.mark p)

end Present

/-! ### What the operations do to the states of groups -/

section States

variable {k} {c : GroupCache} {gid : Nat}

theorem getD_states_set (g : Nat) :
    (c.states.set g .none).getD gid .none = if g = gid then .none else c.groupState gid := by
  unfold groupState
  simp only [List.getD_eq_getElem?_getD, List.getElem?_set]
  split
  · split <;> rfl
  · rfl

theorem groupState_evictSubChunks (ids : List SubChunkId) :
    (c.evictSubChunks k ids).groupState gid = c.groupState gid := by
  induction ids generalizing c with
  | nil => rfl
  | cons id ids ih => exact ih.trans rfl

theorem groupState_evictToBudget (ids : List SubChunkId) :
    (c.evictToBudget k ids).groupState gid = c.groupState gid := by
  induction ids generalizing c with
  | nil => rfl
  | cons id ids ih =>
    rw [evictToBudget, List.foldl_cons]
    refine ih.trans ?_
    split <;> rfl

theorem groupState_evictGroups (gids : List Nat) :
    (c.evictGroups k gids).groupState gid = if gid ∈ gids then .none else c.groupState gid := by
  induction gids generalizing c with
  | nil => rfl
  | cons g gids ih =>
    have hone : (c.evictGroup k g).groupState gid = if g = gid then .none else c.groupState gid :=
      getD_states_set g
    rw [evictGroups, List.foldl_cons]
    refine ih.trans ?_
    rw [hone]
    by_cases hg : gid ∈ gids
    · simp [hg]
    · by_cases heq : g = gid
      · simp [heq]
      · simp [hg, heq, Ne.symm heq]

/-- The groups that a `clear_cache` leaves Present. -/
theorem mem_live_of_present (live : List Nat)
    (h : (c.states.mapIdx fun g _ => if g ∈ live then GroupState.present else .none).getD gid .none =
      .present) : gid ∈ live := by
  simp only [List.getD_eq_getElem?_getD, List.getElem?_mapIdx] at h
  cases hs : c.states[gid]? with
  | none => simp [hs] at h
  | some st => simpa [hs] using h

/-- `truncate_to_page_count` only takes states away. -/
theorem groupState_of_truncateTo {n : Nat} (hsome : (c.truncateTo k n).groupState gid ≠ .none) :
    c.groupState gid = (c.truncateTo k n).groupState gid := by
  unfold groupState truncateTo at hsome ⊢
  dsimp only at hsome ⊢
  split at hsome
  · rename_i hzero
    rw [if_pos hzero]
  · rename_i hzero
    rw [if_neg hzero]
    simp only [List.getD_eq_getElem?_getD, List.getElem?_mapIdx] at hsome ⊢
    cases hs : c.states[gid]? with
    | none => rfl
    | some st =>
      simp only [hs, Option.map_some, Option.getD_some] at hsome ⊢
      split at hsome
      · cases hsome rfl
      · rename_i hlive
        rw [if_neg hlive]

theorem present_truncateTo {n : Nat} (h : (c.truncateTo k n).groupState gid = .present) :
    c.groupState gid = .present := by
  refine (groupState_of_truncateTo ?_).trans h
  rw [h]
  rintro ⟨⟩

theorem present_markPagesPresent {ps : List Nat}
    (h : (c.markPagesPresent ps).groupState gid = .present) :
    c.groupState gid = .present ∨ ∃ p ∈ ps, p / c.pagesPerGroup = gid := by
  unfold groupState markPagesPresent at h
  dsimp only at h
  split at h
  · exact .inl h
  · unfold groupState
    -- each page sets the state of one group
    generalize hst : c.states = st at h ⊢
    clear hst
    induction ps generalizing st with
    | nil => exact .inl h
    | cons p ps ih =>
      rcases ih _ h with hone | ⟨x, hx, heq⟩
      · rw [getD_growSet] at hone
        split at hone
        · exact .inr ⟨p, List.mem_cons_self, ‹_›⟩
        · exact .inl hone
      · exact .inr ⟨x, List.mem_cons_of_mem _ hx, heq⟩

end States

end GroupCache

end Turbolite
