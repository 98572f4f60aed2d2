import Turbolite.CacheGroups
import Turbolite.Checkpoint
import Turbolite.Lib.Runs

/-!
# Turbolite.Residency

The disk cache under everything that fills and empties it: page writes of several handles, local
checkpoints, flushes and syncs, fetches in their steps, the fallback read, replays, and every eviction.
A fetch claims its group, writes the pages it decoded, and marks the group; other threads run between
these steps. Manifests are stored by operations of their own (a flush, a sync, `set_len`), so the ones
a run stores are arguments of its events.
-/

namespace Turbolite.Residency

open Blocks

/-- The cache, the manifest and the pages that are not uploaded. -/
structure State where
  cache : GroupCache
  manifest : Manifest
  /-- dirty pages of each handle -/
  dirty : Nat → List Nat := fun _ => []
  /-- `shared_dirty_groups` -/
  pendingGroups : List Nat := []
  /-- pages of the checkpoints that wait for a flush -/
  logs : List (List Nat) := []
  /-- pages of the checkpoints that a flush is uploading -/
  flushing : List (List Nat) := []
  /-- groups whose pages a fetch has written and not yet marked -/
  installing : List Nat := []
  /-- the bytes last stored for each page -/
  stored : PageMap := PageMap.empty

/-- The calls that add pages to the cache or take them away. -/
inductive Event where
  /-- `write_all_at` of one page -/
  | write (h p : Nat) (data : Bytes)
  /-- local checkpoint of a handle -/
  | checkpoint (h : Nat)
  /-- a flush takes the pending logs and groups -/
  | takeFlush
  /-- the flush has stored its manifest -/
  | finishFlush (m : Manifest)
  /-- the flush puts back what it took -/
  | failFlush (groups : List Nat)
  /-- durable sync of a handle, up to its truncation -/
  | sync (h : Nat) (m : Manifest)
  /-- another store to the shared manifest -/
  | store (m : Manifest)
  | claim (gid : Nat)
  /-- pages of one frame, or of the overrides of a group -/
  | installFrame (gid start : Nat) (pageNums : List Nat) (data : Bytes)
  /-- the pages of a whole group, as the fetch's manifest lists them -/
  | installGroup (gid : Nat) (pageNums : List Nat) (data : Bytes)
  /-- the fetch marks its group -/
  | finish (gid : Nat)
  /-- the fetch gives its claim back -/
  | abandon (gid : Nat)
  /-- fallback read of a page that is absent but has bytes in the cache file -/
  | fallback (p : Nat) (data : Bytes)
  /-- pages of a replay, made visible at its end -/
  | replay (writes : List (Nat × Bytes))
  | markInterior (gid p idx : Nat)
  | markIndex (gid p idx : Nat)
  | touch (gid : Nat)
  /-- `evict_to_budget` between two queries of a handle -/
  | evictBetweenQueries (h : Nat) (victims : List SubChunkId)
  /-- `evict_to_budget` in `mark_group_present` -/
  | trim (victims : List SubChunkId)
  /-- `evict_expired` -/
  | expire (gids : List Nat)
  /-- `evict_on_checkpoint` -/
  | evictOnCheckpoint
  | evictTier (tiers : List SubChunkTier)
  | evictTree (gids : List Nat)
  | clearDataOnly
  | clearInteriorOnly
  | clearAll
  /-- a handle cuts the cache to a page count -/
  | truncate (h pageCount : Nat)
  | compact

variable (k : CacheConfig)

namespace State

/-- The page is in the cache. -/
def present (s : State) (p : Nat) : Bool := s.cache.isPresent k p

/-- `pending_group_pages`. -/
def pendingGroupPages (s : State) : List (Nat × List Nat) :=
  s.pendingGroups.map fun gid => (gid, s.manifest.groupPageNums gid)

/-- The groups of pages, by the manifest. -/
def groupsOf (s : State) (ps : List Nat) : List Nat :=
  ps.filterMap fun p => (s.manifest.pageLocation p).map (·.groupId)

/-- The groups a between-query eviction of handle `h` leaves alone. -/
def skipGroups (s : State) (h : Nat) : List Nat :=
  s.groupsOf (s.dirty h) ++ s.pendingGroups ++ s.cache.fetchingGroupIds

/-- The tracked sub-chunks an eviction by tier takes. -/
def subChunksOf (s : State) (tiers : List SubChunkTier) (skip : List Nat) : List SubChunkId :=
  s.cache.tracker.keys.filter fun id => s.cache.Evictable tiers skip id

/-- The groups of a tree that `evict_tree` takes. -/
def treeGroups (s : State) (gids : List Nat) : List Nat :=
  gids.filter fun gid => gid ∉ s.pendingGroups ∧ gid ∉ s.cache.interiorGroups

/-- Pages that go through the cache file one after the other. -/
def writePages (s : State) (writes : List (Nat × Bytes)) : State :=
  { s with
    cache := { s.cache with
      toCacheFile := writes.foldl (fun c w => c.writePage k w.1 w.2) s.cache.toCacheFile }
    stored := s.stored.install writes }

end State

/-- The tiers a budget eviction takes from. -/
def unpinned : List SubChunkTier := [.index, .data]

/-- One event; `none` when it is refused. -/
def step (s : State) : Event → Option State
  | .write h p data =>
    if data.length = k.pageSize then
      some { s with
        cache := s.cache.writePage k p data
        dirty := Function.update s.dirty h ((s.dirty h).insert p)
        stored := Function.update s.stored p (some data) }
    else none
  | .checkpoint h =>
    let m := s.manifest.localCheckpoint (s.dirty h) s.cache.pagesPerGroup
    let s' := { s with manifest := m }
    some { s' with
      dirty := Function.update s.dirty h []
      pendingGroups := s.pendingGroups ++ s'.groupsOf (s.dirty h)
      logs := s.logs ++ [s.dirty h] }
  | .takeFlush =>
    if s.flushing = [] then some { s with flushing := s.logs, logs := [], pendingGroups := [] } else none
  | .finishFlush m => some { s with
      manifest := m, flushing := [], cache := { s.cache with groupPages := m.groupPages } }
  | .failFlush groups => some { s with
      logs := s.flushing ++ s.logs, flushing := [], pendingGroups := s.pendingGroups ++ groups }
  | .sync h m => some { s with
      manifest := m
      cache := { s.cache with groupPages := m.groupPages }
      dirty := Function.update s.dirty h []
      pendingGroups := [] }
  | .store m => some { s with manifest := m }
  | .claim gid => (s.cache.tryClaimGroup gid).map fun c => { s with cache := c }
  | .installFrame gid start ps data => some { s with
      cache := s.cache.writePagesScattered k ps data gid start
      stored := s.stored.install (PageMap.scatter k.pageSize ps data) }
  | .installGroup gid ps data => some { s with
      cache := s.cache.writePagesScattered k ps data gid 0
      installing := gid :: s.installing
      stored := s.stored.install (PageMap.scatter k.pageSize ps data) }
  | .finish gid =>
    if gid ∈ s.installing then
      some { s with cache := s.cache.markGroupPresent gid, installing := s.installing.filter (· ≠ gid) }
    else none
  | .abandon gid => some { s with
      cache := s.cache.unclaimIfFetching gid, installing := s.installing.filter (· ≠ gid) }
  | .fallback p data =>
    match s.manifest.pageLocation p with
    | none => none
    | some loc =>
      if s.present k p = false ∧ s.cache.readPage k p = .ok data ∧ data.length = k.pageSize then
        some { s with
          cache := (s.cache.writePage k p data).markGroupPresent loc.groupId
          stored := Function.update s.stored p (some data) }
      else none
  | .replay ws =>
    if ws.all (·.2.length = k.pageSize) then
      let s' := s.writePages k ws
      some { s' with cache := s'.cache.markPagesPresent (ws.map (·.1)) }
    else none
  | .markInterior gid p idx => some { s with cache := s.cache.markInteriorGroup gid p idx }
  | .markIndex gid p idx => some { s with cache := s.cache.markIndexPage p gid idx }
  | .touch gid => some { s with cache := s.cache.touchGroup gid }
  | .evictBetweenQueries h victims =>
    if ∀ id ∈ victims, s.cache.Evictable unpinned (s.skipGroups h) id then
      some { s with cache := s.cache.evictToBudget k victims }
    else none
  | .trim victims =>
    if ∀ id ∈ victims, s.cache.Evictable unpinned s.cache.fetchingGroupIds id then
      some { s with cache := s.cache.evictToBudget k victims }
    else none
  | .expire gids =>
    if ∀ gid ∈ gids, gid ∈ s.cache.groupAccess ∧ gid ∉ s.cache.interiorGroups then
      some { s with cache := s.cache.evictExpired k gids }
    else none
  | .evictOnCheckpoint => some { s with
      cache := s.cache.evictSubChunks k (s.subChunksOf [.data] []) }
  | .evictTier tiers =>
    if tiers ⊆ unpinned then
      some { s with cache := s.cache.evictSubChunks k (s.subChunksOf tiers s.pendingGroups) }
    else none
  | .evictTree gids => some { s with cache := s.cache.evictGroups k (s.treeGroups gids) }
  | .clearDataOnly => some { s with cache := s.cache.clearCacheDataOnly k s.pendingGroupPages }
  | .clearInteriorOnly => some { s with cache := s.cache.clearCacheInteriorOnly k s.pendingGroupPages }
  | .clearAll => some { s with cache := s.cache.clearCacheAll k }
  | .truncate h n => some { s with
      cache := s.cache.truncateTo k n
      dirty := Function.update s.dirty h ((s.dirty h).filter (· < n))
      -- the pages cut off are no pages of the database any more
      logs := s.logs.map (·.filter (· < n))
      flushing := s.flushing.map (·.filter (· < n)) }
  | .compact => some { s with
      cache := { s.cache with toCacheFile := s.cache.toCacheFile.compactCompressedCache k } }

variable {k}

/-! ### The events that can be refused -/

section Guarded

variable {s s' : State} {x p gid : Nat} {data : Bytes}

theorem write_inv (h : step k s (.write x p data) = some s') :
    data.length = k.pageSize ∧ s' = { s with
      cache := s.cache.writePage k p data
      dirty := Function.update s.dirty x ((s.dirty x).insert p)
      stored := Function.update s.stored p (some data) } := by
  simp only [step, Option.ite_none_right_eq_some, Option.some.injEq] at h
  exact ⟨h.1, h.2.symm⟩

theorem takeFlush_inv (h : step k s .takeFlush = some s') :
    s.flushing = [] ∧ s' = { s with flushing := s.logs, logs := [], pendingGroups := [] } := by
  simp only [step, Option.ite_none_right_eq_some, Option.some.injEq] at h
  exact ⟨h.1, h.2.symm⟩

theorem claim_inv (h : step k s (.claim gid) = some s') :
    ∃ c, s.cache.tryClaimGroup gid = some c ∧ s' = { s with cache := c } := by
  obtain ⟨c, hc, rfl⟩ := Option.map_eq_some_iff.mp h
  exact ⟨c, hc, rfl⟩

theorem finish_inv (h : step k s (.finish gid) = some s') :
    gid ∈ s.installing ∧ s' = { s with
      cache := s.cache.markGroupPresent gid, installing := s.installing.filter (· ≠ gid) } := by
  simp only [step, Option.ite_none_right_eq_some, Option.some.injEq] at h
  exact ⟨h.1, h.2.symm⟩

theorem fallback_inv (h : step k s (.fallback p data) = some s') :
    ∃ loc, s.manifest.pageLocation p = some loc ∧ s.present k p = false ∧
      s.cache.readPage k p = .ok data ∧ data.length = k.pageSize ∧ s' = { s with
        cache := (s.cache.writePage k p data).markGroupPresent loc.groupId
        stored := Function.update s.stored p (some data) } := by
  simp only [step] at h
  split at h
  · cases h
  · rename_i loc hloc
    simp only [Option.ite_none_right_eq_some, Option.some.injEq] at h
    obtain ⟨⟨habsent, hread, hlen⟩, rfl⟩ := h
    exact ⟨loc, hloc, habsent, hread, hlen, rfl⟩

theorem replay_inv {ws : List (Nat × Bytes)} (h : step k s (.replay ws) = some s') :
    (∀ w ∈ ws, w.2.length = k.pageSize) ∧ s' = { s.writePages k ws with
      cache := (s.writePages k ws).cache.markPagesPresent (ws.map (·.1)) } := by
  simp only [step, Option.ite_none_right_eq_some, Option.some.injEq] at h
  exact ⟨fun w hw => of_decide_eq_true (List.all_eq_true.mp h.1 w hw), h.2.symm⟩

theorem evictBetweenQueries_inv {victims : List SubChunkId}
    (h : step k s (.evictBetweenQueries x victims) = some s') :
    (∀ id ∈ victims, s.cache.Evictable unpinned (s.skipGroups x) id) ∧
      s' = { s with cache := s.cache.evictToBudget k victims } := by
  simp only [step, Option.ite_none_right_eq_some, Option.some.injEq] at h
  exact ⟨h.1, h.2.symm⟩

theorem trim_inv {victims : List SubChunkId} (h : step k s (.trim victims) = some s') :
    (∀ id ∈ victims, s.cache.Evictable unpinned s.cache.fetchingGroupIds id) ∧
      s' = { s with cache := s.cache.evictToBudget k victims } := by
  simp only [step, Option.ite_none_right_eq_some, Option.some.injEq] at h
  exact ⟨h.1, h.2.symm⟩

theorem expire_inv {gids : List Nat} (h : step k s (.expire gids) = some s') :
    (∀ gid ∈ gids, gid ∈ s.cache.groupAccess ∧ gid ∉ s.cache.interiorGroups) ∧
      s' = { s with cache := s.cache.evictExpired k gids } := by
  simp only [step, Option.ite_none_right_eq_some, Option.some.injEq] at h
  exact ⟨h.1, h.2.symm⟩

theorem evictTier_inv {tiers : List SubChunkTier} (h : step k s (.evictTier tiers) = some s') :
    tiers ⊆ unpinned ∧ s' = { s with
      cache := s.cache.evictSubChunks k (s.subChunksOf tiers s.pendingGroups) } := by
  simp only [step, Option.ite_none_right_eq_some, Option.some.injEq] at h
  exact ⟨h.1, h.2.symm⟩

end Guarded

/-- What a handle has dirty once the pages of another, or its own, are taken. -/
theorem mem_dirty_of_cleared {dirty : Nat → List Nat} {x y p : Nat}
    (hp : p ∈ Function.update dirty x [] y) : p ∈ dirty y := by
  rw [Function.update_apply] at hp
  split at hp
  · cases hp
  · exact hp

/-- The bitmap always reaches as far as its bits. -/
theorem sized_step {s s' : State} {e : Event} (h : CacheFile.Sized s.cache.toPresence)
    (hstep : step k s e = some s') : CacheFile.Sized s'.cache.toPresence := by
  cases e with
  | write hd p data =>
    obtain ⟨-, rfl⟩ := write_inv hstep
    exact h.writePage data
  | installFrame gid start ps data =>
    cases hstep
    exact h.foldl_writePage _
  | installGroup gid ps data =>
    cases hstep
    exact h.foldl_writePage _
  | fallback p data =>
    obtain ⟨loc, -, -, -, -, rfl⟩ := fallback_inv hstep
    exact h.writePage data
  | replay ws =>
    obtain ⟨-, rfl⟩ := replay_inv hstep
    exact GroupCache.sized_markPagesPresent (c := (s.writePages k ws).cache) (h.foldl_writePage ws) _
  | claim gid =>
    obtain ⟨c, hc, rfl⟩ := claim_inv hstep
    unfold GroupCache.tryClaimGroup at hc
    split at hc
    · cases hc
      exact h
    · cases hc
  | abandon gid =>
    cases hstep
    show CacheFile.Sized (s.cache.unclaimIfFetching gid).toPresence
    unfold GroupCache.unclaimIfFetching
    split
    · exact h
    · exact h
  | evictBetweenQueries hd victims =>
    obtain ⟨-, rfl⟩ := evictBetweenQueries_inv hstep
    exact GroupCache.sized_evictToBudget h _
  | trim victims =>
    obtain ⟨-, rfl⟩ := trim_inv hstep
    exact GroupCache.sized_evictToBudget h _
  | expire gids =>
    obtain ⟨-, rfl⟩ := expire_inv hstep
    exact GroupCache.sized_evictGroups h gids
  | evictOnCheckpoint =>
    cases hstep
    exact GroupCache.sized_evictSubChunks h _
  | evictTier tiers =>
    obtain ⟨-, rfl⟩ := evictTier_inv hstep
    exact GroupCache.sized_evictSubChunks h _
  | evictTree gids =>
    cases hstep
    exact GroupCache.sized_evictGroups h _
  | clearDataOnly | clearInteriorOnly =>
    cases hstep
    exact fun p hp => (of_decide_eq_true hp).2
  | clearAll =>
    cases hstep
    intro p hp
    cases hp
  | truncate hd n =>
    cases hstep
    exact GroupCache.sized_truncateTo h n
  | compact =>
    cases hstep
    show CacheFile.Sized (s.cache.toCacheFile.compactCompressedCache k).toPresence
    unfold CacheFile.compactCompressedCache
    split
    · exact h
    · exact h
  | takeFlush =>
    obtain ⟨-, rfl⟩ := takeFlush_inv hstep
    exact h
  | finish gid =>
    obtain ⟨-, rfl⟩ := finish_inv hstep
    exact h
  | checkpoint | finishFlush | failFlush | sync | store | markInterior | markIndex | touch =>
    cases hstep
    exact h

end Turbolite.Residency
