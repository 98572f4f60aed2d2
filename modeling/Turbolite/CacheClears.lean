import Turbolite.EvictionSafety

/-!
# Turbolite.CacheClears

The cache operations of an embedder: `clear_cache`, `clear_cache_data_only`, `clear_cache_interior_only`,
`evict_tier` and `evict_tree`. The clears set the bitmap to zero and mark whole sets of pages again, by
number; the evictions take what the tracker or the group lists name. `effect_run` says what each
operation does in the same terms, and `onlyRemoves_iff` when it only removes presence.
-/

namespace Turbolite.CacheClears

open Blocks Residency EvictionSafety

variable {k : CacheConfig}

/-! ### Pages cleared from a cache file -/

/-- `c'` is `c` without the pages of `taken`. -/
structure Cleared (k : CacheConfig) (c c' : CacheFile) (taken : Nat → Prop) : Prop where
  bits : ∀ p, c'.bitmap p = true ↔ c.bitmap p = true ∧ ¬ taken p
  gone : k.compressed = true → ∀ p, taken p → c'.index.lookup p = none
  stays : ∀ p, ¬ taken p → c'.index.lookup p = c.index.lookup p
  bytes : ∀ p data, ¬ taken p → c.readPage k p = .ok data → c'.readPage k p = .ok data

section Files

variable {c c' c'' : CacheFile} {t t' : Nat → Prop}

theorem Cleared.refl (c : CacheFile) : Cleared k c c fun _ => False where
  bits p := by simp
  gone _ p h := h.elim
  stays _ _ := rfl
  bytes _ _ _ h := h

theorem Cleared.trans (h : Cleared k c c' t) (h' : Cleared k c' c'' t') :
    Cleared k c c'' fun p => t p ∨ t' p where
  bits p := by rw [h'.bits, h.bits, and_assoc, not_or]
  gone hk p hp := by
    by_cases ht : t' p
    · exact h'.gone hk p ht
    · rw [h'.stays p ht]
      exact h.gone hk p (hp.resolve_right ht)
  stays p hp := (h'.stays p (mt Or.inr hp)).trans (h.stays p (mt Or.inl hp))
  bytes p data hp hr := h'.bytes p data (mt Or.inr hp) (h.bytes p data (mt Or.inl hp) hr)

theorem Cleared.congr (h : Cleared k c c' t) (ht : ∀ p, t p ↔ t' p) : Cleared k c c' t' := by
  obtain rfl : t = t' := funext fun p => propext (ht p)
  exact h

theorem cleared_clearPagesFromDisk (c : CacheFile) (ps : List Nat) :
    Cleared k c (c.clearPagesFromDisk k ps) (· ∈ ps) := by
  have hstays : ∀ p, p ∉ ps → (c.clearPagesFromDisk k ps).index.lookup p = c.index.lookup p := by
    intro p hp
    cases hk : k.compressed with
    | true => rw [CacheFile.lookup_clearPagesFromDisk hk, if_neg hp]
    | false => simp [CacheFile.clearPagesFromDisk, hk]
  refine ⟨fun p => by simp [CacheFile.clearPagesFromDisk], fun hk p hp => ?_, hstays,
    fun p data hp hr => ?_⟩
  · rw [CacheFile.lookup_clearPagesFromDisk hk, if_pos hp]
  · unfold CacheFile.readPage at hr ⊢
    cases hk : k.compressed with
    | true =>
      -- the blobs stay where they are
      have hfile : (c.clearPagesFromDisk k ps).file = c.file := by
        simp [CacheFile.clearPagesFromDisk, hk]
      rw [hstays p hp, hfile]
      simpa only [hk, if_true] using hr
    | false =>
      simp only [hk, Bool.false_eq_true, if_false] at hr ⊢
      cases hslot : c.file.readAt (p * k.slotStride) k.slotStride with
      | none => simp [hslot] at hr
      | some frame =>
        have hslot' : (c.clearPagesFromDisk k ps).file.readAt (p * k.slotStride) k.slotStride =
            some frame := by
          simp only [CacheFile.clearPagesFromDisk, hk, Bool.false_eq_true, if_false]
          exact CacheFile.readAt_foldl_punch hp hslot
        rw [hslot']
        rwa [hslot] at hr

end Files

section Groups

variable {c : GroupCache}

theorem cleared_evictSubChunks (ids : List SubChunkId) :
    Cleared k c.toCacheFile (c.evictSubChunks k ids).toCacheFile
      fun p => ∃ id ∈ ids, p ∈ c.subChunkPageNums id := by
  induction ids generalizing c with
  | nil => exact (Cleared.refl _).congr (by simp)
  | cons id ids ih =>
    have hone : Cleared k c.toCacheFile (c.evictSubChunk k id).toCacheFile (· ∈ c.subChunkPageNums id) :=
      cleared_clearPagesFromDisk _ _
    refine (hone.trans (ih (c := c.evictSubChunk k id))).congr fun p => ?_
    rw [List.exists_mem_cons_iff]
    rfl

theorem cleared_evictToBudget (ids : List SubChunkId) :
    Cleared k c.toCacheFile (c.evictToBudget k ids).toCacheFile
      fun p => ∃ id ∈ ids, c.groupState id.groupId ≠ .fetching ∧ p ∈ c.subChunkPageNums id := by
  induction ids generalizing c with
  | nil => exact (Cleared.refl _).congr (by simp)
  | cons id ids ih =>
    rw [GroupCache.evictToBudget, List.foldl_cons]
    split
    · rename_i hf
      refine ih.congr fun p => ?_
      rw [List.exists_mem_cons_iff, or_iff_right]
      exact fun h => h.1 hf
    · rename_i hf
      have hone : Cleared k c.toCacheFile (c.evictSubChunk k id).toCacheFile (· ∈ c.subChunkPageNums id) :=
        cleared_clearPagesFromDisk _ _
      refine (hone.trans (ih (c := c.evictSubChunk k id))).congr fun p => ?_
      rw [List.exists_mem_cons_iff]
      -- the lists and the states are those of the cache before
      exact or_congr_left (and_iff_right hf).symm

theorem cleared_evictGroups (gids : List Nat) :
    Cleared k c.toCacheFile (c.evictGroups k gids).toCacheFile
      fun p => ∃ gid ∈ gids, p ∈ c.groupPageNums gid := by
  induction gids generalizing c with
  | nil => exact (Cleared.refl _).congr (by simp)
  | cons gid gids ih =>
    have hone : Cleared k c.toCacheFile (c.evictGroup k gid).toCacheFile (· ∈ c.groupPageNums gid) :=
      cleared_clearPagesFromDisk _ _
    refine (hone.trans (ih (c := c.evictGroup k gid))).congr fun p => ?_
    rw [List.exists_mem_cons_iff]
    rfl

end Groups

/-! ### The calls -/

/-- The tiers that the argument of `evict_tier` names. -/
def targetTiers : String → Option (List SubChunkTier)
  | "data" => some [.data]
  | "index" | "all" => some [.index, .data]
  | _ => none

/-- The calls that remove pages from the cache. -/
inductive Call where
  /-- `clear_cache` of the VFS, which does what `clear_cache_data_only` does -/
  | clearCache
  | clearCacheDataOnly
  | clearCacheInteriorOnly
  | evictTier (tier : String)
  /-- the names of the list, with the manifest's `tree_name_to_groups` -/
  | evictTree (trees : HMap String (List Nat)) (names : List String)

/-- The groups of the named trees. -/
def namedGroups (trees : HMap String (List Nat)) (names : List String) : List Nat :=
  (names.filter (· ≠ "")).flatMap fun name => (trees.lookup name).getD []

namespace Call

variable (k)

/-- What a call does to the cache. -/
def apply (s : State) : Call → State
  | .clearCache | .clearCacheDataOnly =>
    { s with cache := s.cache.clearCacheDataOnly k s.pendingGroupPages }
  | .clearCacheInteriorOnly => { s with cache := s.cache.clearCacheInteriorOnly k s.pendingGroupPages }
  | .evictTier tier =>
    match targetTiers tier with
    | none => s
    | some tiers => { s with cache := s.cache.evictSubChunks k (s.subChunksOf tiers s.pendingGroups) }
  | .evictTree trees names =>
    { s with cache := s.cache.evictGroups k (s.treeGroups (namedGroups trees names)) }

/-- The call as an event of the shared cache. -/
def event : Call → Event
  | .clearCache | .clearCacheDataOnly => .clearDataOnly
  | .clearCacheInteriorOnly => .clearInteriorOnly
  | .evictTier tier => .evictTier ((targetTiers tier).getD [])
  | .evictTree trees names => .evictTree (namedGroups trees names)

theorem targetTiers_subset {tier : String} {tiers : List SubChunkTier}
    (h : targetTiers tier = some tiers) : tiers ⊆ unpinned := by
  unfold targetTiers at h
  split at h
  · cases h
    simp [unpinned]
  · cases h
    simp [unpinned]
  · cases h
    simp [unpinned]
  · cases h

theorem subChunksOf_nil (s : State) (skip : List Nat) : s.subChunksOf [] skip = [] := by
  refine List.filter_eq_nil_iff.mpr fun id _ h => ?_
  obtain ⟨tier, -, ht, -⟩ := of_decide_eq_true h
  cases ht

/-- Each call is one step. -/
theorem step_event (s : State) (call : Call) : step k s call.event = some (call.apply k s) := by
  cases call with
  | clearCache | clearCacheDataOnly | clearCacheInteriorOnly | evictTree => rfl
  | evictTier tier =>
    simp only [event, apply, step]
    cases h : targetTiers tier with
    | none => simp [subChunksOf_nil, GroupCache.evictSubChunks]
    | some tiers => simp [targetTiers_subset h]

end Call

/-- What the calls share, with a bitmap that reaches as far as its bits. -/
structure Shared extends State where
  sized : CacheFile.Sized cache.toPresence

/-- A call on a cache whose tracker is of one size with its bitmap. -/
def Shared.run (k : CacheConfig) (v : Shared) (call : Call) : Shared where
  toState := call.apply k v.toState
  sized := sized_step v.sized (call.step_event k v.toState)

/-! ### What the calls take -/

/-- What a call means to remove. -/
structure Plan where
  /-- the pages that lose their bit -/
  taken : Nat → Prop
  /-- the sub-chunks that the tracker loses -/
  dropped : SubChunkId → Prop
  /-- the pages that are marked again, by number -/
  remarked : List Nat := []
  /-- the groups that are set Present -/
  live : List Nat := []

/-- A clear: the pages of `keep` are marked again. -/
def Plan.clear (s : State) (keep : List Nat) (drop : List SubChunkTier) : Plan where
  taken p := p ∉ keep
  dropped id := ∃ tier ∈ s.cache.tracker.lookup id, tier ∈ drop
  remarked := keep
  live := 0 :: s.pendingGroups

/-- The plan of each call. -/
def Call.plan (s : State) : Call → Plan
  | .clearCache | .clearCacheDataOnly =>
    .clear s (s.cache.interiorPages ++ s.cache.indexPages ++ s.pendingGroupPages.flatMap (·.2) ++
      s.cache.groupZeroPages) [.data]
  | .clearCacheInteriorOnly =>
    .clear s (s.cache.interiorPages ++ s.pendingGroupPages.flatMap (·.2) ++ s.cache.groupZeroPages)
      [.index, .data]
  | .evictTier tier =>
    let ids := s.subChunksOf ((targetTiers tier).getD []) s.pendingGroups
    { taken := fun p => ∃ id ∈ ids, p ∈ s.cache.subChunkPageNums id
      dropped := (· ∈ ids) }
  | .evictTree trees names =>
    let gids := s.treeGroups (namedGroups trees names)
    { taken := fun p => ∃ gid ∈ gids, p ∈ s.cache.groupPageNums gid
      dropped := fun id => id.groupId ∈ gids }

/-- The state after a call, by its plan. -/
structure Effect (k : CacheConfig) (s s' : State) (plan : Plan) : Prop where
  bits : ∀ p, s'.cache.bitmap p = true ↔
    ¬ plan.taken p ∧ (s.cache.bitmap p = true ∨ p ∈ plan.remarked ∧ p < s.cache.capacity)
  gone : k.compressed = true → ∀ p, plan.taken p → s'.cache.index.lookup p = none
  stays : ∀ p, ¬ plan.taken p → s'.cache.index.lookup p = s.cache.index.lookup p
  bytes : ∀ p data, ¬ plan.taken p → s.cache.readPage k p = .ok data → s'.cache.readPage k p = .ok data
  tracker : ∀ id, (s'.cache.tracker.lookup id).isSome ↔
    (s.cache.tracker.lookup id).isSome ∧ ¬ plan.dropped id
  lists : ∀ id, s'.cache.subChunkPageNums id = s.cache.subChunkPageNums id
  groups : ∀ gid, s'.cache.groupState gid = .present →
    s.cache.groupState gid = .present ∨ gid ∈ plan.live ∧ gid < s.cache.states.length
  live : ∀ gid ∈ plan.live, gid < s.cache.states.length → s'.cache.groupState gid = .present

section Effects

variable {s : State}

/-- An eviction that leaves group states alone or resets them. -/
theorem Effect.of_cleared {c' : GroupCache} {taken : Nat → Prop} {dropped : SubChunkId → Prop}
    (h : Cleared k s.cache.toCacheFile c'.toCacheFile taken)
    (htracker : ∀ id, (c'.tracker.lookup id).isSome ↔
      (s.cache.tracker.lookup id).isSome ∧ ¬ dropped id)
    (hlists : ∀ id, c'.subChunkPageNums id = s.cache.subChunkPageNums id)
    (hgroups : ∀ gid, c'.groupState gid = .present → s.cache.groupState gid = .present) :
    Effect k s { s with cache := c' } { taken, dropped } where
  bits p := by
    rw [h.bits p, and_comm]
    simp
  gone := h.gone
  stays := h.stays
  bytes := h.bytes
  tracker := htracker
  lists := hlists
  groups gid hgid := .inl (hgroups gid hgid)
  live gid hgid := by cases hgid

theorem lookup_tracker_evictSubChunks {c : GroupCache} (ids : List SubChunkId) (id : SubChunkId) :
    (c.evictSubChunks k ids).tracker.lookup id =
      if id ∈ ids then none else c.tracker.lookup id := by
  have hfold : (c.evictSubChunks k ids).tracker = ids.foldl (fun t id => t.erase id) c.tracker := by
    induction ids generalizing c with
    | nil => rfl
    | cons x ids ih => exact ih (c := c.evictSubChunk k x)
  rw [hfold]
  exact CacheFile.lookup_foldl_erase ids c.tracker id

theorem lookup_untrackGroup (t : HMap SubChunkId SubChunkTier) (gid : Nat) (id : SubChunkId) :
    (GroupCache.untrackGroup t gid).lookup id = if id.groupId = gid then none else t.lookup id := by
  unfold GroupCache.untrackGroup
  rw [CacheFile.lookup_foldl_erase]
  simp only [List.mem_filter, decide_eq_true_eq, ← AList.mem_keys]
  by_cases hgid : id.groupId = gid
  · rw [if_pos hgid]
    split
    · rfl
    · rename_i hnot
      exact AList.lookup_eq_none.mpr fun hmem => hnot ⟨hmem, hgid⟩
  · rw [if_neg hgid, if_neg fun h => hgid h.2]

theorem lookup_tracker_evictGroups {c : GroupCache} (gids : List Nat) (id : SubChunkId) :
    (c.evictGroups k gids).tracker.lookup id =
      if id.groupId ∈ gids then none else c.tracker.lookup id := by
  induction gids generalizing c with
  | nil => simp [GroupCache.evictGroups]
  | cons gid gids ih =>
    rw [GroupCache.evictGroups, List.foldl_cons]
    refine (ih (c := c.evictGroup k gid)).trans ?_
    show (if id.groupId ∈ gids then none else (GroupCache.untrackGroup c.tracker gid).lookup id) = _
    rw [lookup_untrackGroup]
    by_cases hmem : id.groupId ∈ gids
    · simp [hmem]
    · by_cases heq : id.groupId = gid
      · simp [heq]
      · simp [hmem, heq]

theorem groupState_clearTo {c : GroupCache} {live keep : List Nat} {drop : List SubChunkTier} {gid : Nat} :
    (c.clearTo k live keep drop).groupState gid = .present ↔ gid ∈ live ∧ gid < c.states.length := by
  unfold GroupCache.groupState GroupCache.clearTo
  simp only [List.getD_eq_getElem?_getD, List.getElem?_mapIdx]
  cases hst : c.states[gid]? with
  | none =>
    have hlen := List.getElem?_eq_none_iff.mp hst
    simp only [Option.map_none, Option.getD_none]
    refine iff_of_false (fun h => ?_) fun h => ?_
    · cases h
    · omega
  | some st =>
    have hlen := (List.getElem?_eq_some_iff.mp hst).1
    simp only [Option.map_some, Option.getD_some]
    by_cases hgid : gid ∈ live
    · simp [hgid, hlen]
    · simp [hgid]

theorem index_clearTo {c : GroupCache} (live keep : List Nat) (drop : List SubChunkTier) (p : Nat) :
    (c.clearTo k live keep drop).index.lookup p =
      if k.compressed = true ∧ p ∉ keep then none else c.index.lookup p := by
  simp only [GroupCache.clearTo]
  cases hk : k.compressed with
  | false => simp
  | true =>
    rw [if_pos rfl, CacheFile.lookup_foldl_erase]
    by_cases hp : p ∈ keep
    · simp [hp]
    · simp only [List.mem_filter, hp, not_false_eq_true, decide_true, and_true, if_true, ← AList.mem_keys]
      split
      · rfl
      · rename_i hnot
        exact AList.lookup_eq_none.mpr hnot

/-- The bitmap is zeroed, and marked again where the clear wants it. -/
theorem effect_clearTo (hsized : CacheFile.Sized s.cache.toPresence) {live : List Nat}
    (hlive : live = 0 :: s.pendingGroups) (keep : List Nat) (drop : List SubChunkTier) :
    Effect k s { s with cache := s.cache.clearTo k live keep drop } (.clear s keep drop) where
  bits p := by
    simp only [GroupCache.clearTo, Plan.clear, decide_eq_true_eq, not_not]
    refine and_congr_right fun hkeep => ⟨fun hp => .inr ⟨hkeep, hp⟩, ?_⟩
    rintro (hbit | ⟨-, hp⟩)
    · exact hsized p hbit
    · exact hp
  gone hk p hp := by
    refine (index_clearTo ..).trans (if_pos ⟨hk, hp⟩)
  stays p hp := by
    refine (index_clearTo ..).trans (if_neg fun h => hp h.2)
  bytes p data hp hr := by
    have hidx : (s.cache.clearTo k live keep drop).index.lookup p =
        s.cache.index.lookup p :=
      (index_clearTo ..).trans (if_neg fun h => hp h.2)
    unfold CacheFile.readPage at hr ⊢
    rw [hidx]
    exact hr
  tracker id := by
    show ((_ : HMap SubChunkId SubChunkTier).lookup id).isSome ↔ _
    simp only [GroupCache.clearTo]
    rw [CacheFile.lookup_foldl_erase]
    simp only [List.mem_filter, decide_eq_true_eq, Plan.clear, ← AList.mem_keys]
    split
    · rename_i hdrop
      refine iff_of_false (fun h => ?_) fun h => h.2 hdrop.2
      cases h
    · rename_i hstay
      refine ⟨fun h => ⟨h, fun hd => hstay ⟨AList.lookup_isSome.mp h, hd⟩⟩, And.left⟩
  lists _ := rfl
  groups gid hgid := by
    obtain ⟨hmem, hlen⟩ := groupState_clearTo.mp hgid
    rw [hlive] at hmem
    exact .inr ⟨hmem, hlen⟩
  live gid hgid hlen := by
    refine groupState_clearTo.mpr ⟨?_, hlen⟩
    rw [hlive]
    exact hgid

theorem subChunkPageNums_evictSubChunks {c : GroupCache} (ids : List SubChunkId) :
    (c.evictSubChunks k ids).subChunkPageNums = c.subChunkPageNums := by
  induction ids generalizing c with
  | nil => rfl
  | cons id ids ih => exact ih (c := c.evictSubChunk k id)

theorem subChunkPageNums_evictGroups {c : GroupCache} (gids : List Nat) :
    (c.evictGroups k gids).subChunkPageNums = c.subChunkPageNums := by
  induction gids generalizing c with
  | nil => rfl
  | cons gid gids ih => exact ih (c := c.evictGroup k gid)

theorem effect_evictSubChunks (ids : List SubChunkId) :
    Effect k s { s with cache := s.cache.evictSubChunks k ids }
      { taken := fun p => ∃ id ∈ ids, p ∈ s.cache.subChunkPageNums id
        dropped := (· ∈ ids) } := by
  refine .of_cleared (cleared_evictSubChunks ids) (fun id => ?_) (fun id => ?_) fun gid hgid => ?_
  · rw [lookup_tracker_evictSubChunks]
    split <;> simp [*]
  · exact congrFun (subChunkPageNums_evictSubChunks ids) id
  · rwa [GroupCache.groupState_evictSubChunks] at hgid

theorem effect_evictGroups (gids : List Nat) :
    Effect k s { s with cache := s.cache.evictGroups k gids }
      { taken := fun p => ∃ gid ∈ gids, p ∈ s.cache.groupPageNums gid
        dropped := fun id => id.groupId ∈ gids } := by
  refine .of_cleared (cleared_evictGroups gids) (fun id => ?_) (fun id => ?_) fun gid hgid => ?_
  · rw [lookup_tracker_evictGroups]
    split <;> simp [*]
  · exact congrFun (subChunkPageNums_evictGroups gids) id
  · rw [GroupCache.groupState_evictGroups] at hgid
    split at hgid
    · cases hgid
    · exact hgid

/-- What each call does. -/
theorem effect_run (v : Shared) (call : Call) :
    Effect k v.toState (v.run k call).toState (call.plan v.toState) := by
  have hlive : 0 :: v.pendingGroupPages.map (·.1) = 0 :: v.pendingGroups := by
    simp [State.pendingGroupPages, Function.comp_def]
  cases call with
  | clearCache | clearCacheDataOnly => exact effect_clearTo v.sized hlive _ _
  | clearCacheInteriorOnly =>
    have h := effect_clearTo (k := k) v.sized hlive
      (v.cache.interiorPages ++ v.pendingGroupPages.flatMap (·.2) ++ v.cache.groupZeroPages)
      [.index, .data]
    exact ⟨h.bits, h.gone, h.stays, h.bytes, h.tracker, h.lists, h.groups, h.live⟩
  | evictTier tier =>
    have hstep : (v.run k (.evictTier tier)).toState = { v.toState with
        cache := v.cache.evictSubChunks k
          (v.subChunksOf ((targetTiers tier).getD []) v.pendingGroups) } := by
      show (Call.evictTier tier).apply k v.toState = _
      simp only [Call.apply]
      cases targetTiers tier with
      | none => simp [Call.subChunksOf_nil, GroupCache.evictSubChunks]
      | some tiers => rfl
    rw [hstep]
    exact effect_evictSubChunks _
  | evictTree trees names => exact effect_evictGroups _

end Effects

/-! ### The property -/

/-- The three records agree on which pages are present. -/
structure Agree (k : CacheConfig) (c : GroupCache) : Prop where
  index : k.compressed = true → ∀ p, c.bitmap p = true ↔ (c.index.lookup p).isSome
  tracker : ∀ p, c.bitmap p = true ↔ ∃ id, (c.tracker.lookup id).isSome ∧ p ∈ c.subChunkPageNums id

/-- From `s` to `s'` presence is only removed. -/
structure OnlyRemoves (k : CacheConfig) (s s' : State) : Prop where
  bits : ∀ p, s'.cache.bitmap p = true → s.cache.bitmap p = true
  groups : ∀ gid, s'.cache.groupState gid = .present → s.cache.groupState gid = .present
  /-- pages that are dirty or not uploaded stay, with their bytes -/
  bytes : ∀ p, Protected s p → s.present k p = true → s'.present k p = true ∧
    ∀ data, s.cache.readPage k p = .ok data → s'.cache.readPage k p = .ok data
  agree : Agree k s'.cache

/-- The plan suits the state it is made for. -/
structure Spares (k : CacheConfig) (s : State) (plan : Plan) : Prop where
  /-- no page is marked that was absent -/
  cached : ∀ p ∈ plan.remarked, p < s.cache.capacity → s.cache.bitmap p = true
  /-- no group is set Present that was not -/
  live : ∀ gid ∈ plan.live, gid < s.cache.states.length → s.cache.groupState gid = .present
  /-- no page is taken that is dirty or not uploaded -/
  unuploaded : ∀ p, Protected s p → s.present k p = true → ¬ plan.taken p
  /-- a sub-chunk that the tracker keeps has none of the pages taken -/
  apart : ∀ id, (s.cache.tracker.lookup id).isSome → ¬ plan.dropped id →
    ∀ p ∈ s.cache.subChunkPageNums id, ¬ plan.taken p
  /-- on the other pages the index agrees with the bitmap -/
  indexed : k.compressed = true → ∀ p, ¬ plan.taken p →
    (s.cache.bitmap p = true ↔ (s.cache.index.lookup p).isSome)
  /-- and so do the sub-chunks that the tracker keeps -/
  tracked : ∀ p, ¬ plan.taken p → (s.cache.bitmap p = true ↔
    ∃ id, (s.cache.tracker.lookup id).isSome ∧ ¬ plan.dropped id ∧ p ∈ s.cache.subChunkPageNums id)

section Property

variable {s s' : State} {plan : Plan}

theorem not_taken_of_remarked (call : Call) {p : Nat} (hp : p ∈ (call.plan s).remarked) :
    ¬ (call.plan s).taken p := by
  cases call with
  | clearCache | clearCacheDataOnly | clearCacheInteriorOnly => exact fun h => h hp
  | evictTier | evictTree => cases hp

theorem Effect.isSome_index (h : Effect k s s' plan) (hk : k.compressed = true) (p : Nat) :
    (s'.cache.index.lookup p).isSome ↔ (s.cache.index.lookup p).isSome ∧ ¬ plan.taken p := by
  by_cases hp : plan.taken p
  · rw [h.gone hk p hp]
    simp [hp]
  · rw [h.stays p hp]
    simp [hp]

theorem Effect.tracked (h : Effect k s s' plan) (p : Nat) :
    (∃ id, (s'.cache.tracker.lookup id).isSome ∧ p ∈ s'.cache.subChunkPageNums id) ↔
      ∃ id, (s.cache.tracker.lookup id).isSome ∧ ¬ plan.dropped id ∧ p ∈ s.cache.subChunkPageNums id := by
  refine exists_congr fun id => ?_
  rw [h.tracker, h.lists, and_assoc]

/-- Where no absent page is marked, the bits are those of the pages that are not taken. -/
theorem Effect.bits_of_cached (h : Effect k s s' plan)
    (hcached : ∀ p ∈ plan.remarked, p < s.cache.capacity → s.cache.bitmap p = true) (p : Nat) :
    s'.cache.bitmap p = true ↔ s.cache.bitmap p = true ∧ ¬ plan.taken p := by
  rw [h.bits, and_comm]
  refine and_congr_left fun _ => ⟨?_, .inl⟩
  rintro (hbit | ⟨hmem, hlt⟩)
  · exact hbit
  · exact hcached p hmem hlt

theorem bitmap_of_present {c : GroupCache} {p : Nat} (h : c.isPresent k p = true) : c.bitmap p = true :=
  (Bool.and_eq_true_iff.mp h).1

theorem Effect.agree_iff (h : Effect k s s' plan)
    (hcached : ∀ p ∈ plan.remarked, p < s.cache.capacity → s.cache.bitmap p = true) :
    Agree k s'.cache ↔
      (∀ id, (s.cache.tracker.lookup id).isSome → ¬ plan.dropped id →
        ∀ p ∈ s.cache.subChunkPageNums id, ¬ plan.taken p) ∧
      (k.compressed = true → ∀ p, ¬ plan.taken p →
        (s.cache.bitmap p = true ↔ (s.cache.index.lookup p).isSome)) ∧
      ∀ p, ¬ plan.taken p → (s.cache.bitmap p = true ↔
        ∃ id, (s.cache.tracker.lookup id).isSome ∧ ¬ plan.dropped id ∧
          p ∈ s.cache.subChunkPageNums id) := by
  have hbits := h.bits_of_cached hcached
  constructor
  · intro hagree
    refine ⟨fun id hid hkept p hp htaken => ?_, fun hk p hp => ?_, fun p hp => ?_⟩
    · have hbit := (hagree.tracker p).mpr ((h.tracked p).mpr ⟨id, hid, hkept, hp⟩)
      exact ((hbits p).mp hbit).2 htaken
    · have hindex := hagree.index hk p
      rw [hbits, h.isSome_index hk] at hindex
      simpa [hp] using hindex
    · have htracker := hagree.tracker p
      rw [hbits, h.tracked] at htracker
      simpa [hp] using htracker
  · rintro ⟨hapart, hindexed, htracked⟩
    refine ⟨fun hk p => ?_, fun p => ?_⟩
    · rw [hbits, h.isSome_index hk]
      exact and_congr_left fun hp => hindexed hk p hp
    · rw [hbits, h.tracked]
      by_cases hp : plan.taken p
      · refine iff_of_false (fun hbit => hbit.2 hp) ?_
        rintro ⟨id, hid, hkept, hmem⟩
        exact hapart id hid hkept p hmem hp
      · rw [and_iff_left hp]
        exact htracked p hp

/-- Clearing only removes presence exactly when the plan suits the state. -/
theorem onlyRemoves_iff (v : Shared) (call : Call) :
    OnlyRemoves k v.toState (v.run k call).toState ↔ Spares k v.toState (call.plan v.toState) := by
  have heff := effect_run (k := k) v call
  constructor
  · intro h
    have hcached : ∀ p ∈ (call.plan v.toState).remarked, p < v.cache.capacity →
        v.cache.bitmap p = true := by
      intro p hp hlt
      exact h.bits p ((heff.bits p).mpr ⟨not_taken_of_remarked call hp, .inr ⟨hp, hlt⟩⟩)
    obtain ⟨hapart, hindexed, htracked⟩ := (heff.agree_iff hcached).mp h.agree
    refine ⟨hcached, fun gid hgid hlen => h.groups gid (heff.live gid hgid hlen),
      fun p hprot hp => ?_, hapart, hindexed, htracked⟩
    have hbit := bitmap_of_present (h.bytes p hprot hp).1
    exact ((heff.bits p).mp hbit).1
  · intro h
    have hbits := heff.bits_of_cached h.cached
    refine ⟨fun p hp => ((hbits p).mp hp).1, fun gid hgid => ?_, fun p hprot hp => ?_,
      (heff.agree_iff h.cached).mpr ⟨h.apart, h.indexed, h.tracked⟩⟩
    · rcases heff.groups gid hgid with hpresent | ⟨hmem, hlen⟩
      · exact hpresent
      · exact h.live gid hmem hlen
    · have hstays := h.unuploaded p hprot hp
      refine ⟨?_, fun data => heff.bytes p data hstays⟩
      show (v.run k call).cache.isPresent k p = true
      have hpresent : v.cache.isPresent k p = true := hp
      unfold Presence.isPresent at hpresent ⊢
      rw [heff.stays p hstays]
      obtain ⟨hbit, hindex⟩ := Bool.and_eq_true_iff.mp hpresent
      exact Bool.and_eq_true_iff.mpr ⟨(hbits p).mpr ⟨hbit, hstays⟩, hindex⟩

end Property

namespace Example

/-- Two pages in one group; nothing is cached yet, and no record says otherwise. -/
def cold : Shared where
  cache := { capacity := 8, pagesPerGroup := 2, subPagesPerFrame := 2, groupPages := [[0, 1]], states := [.none] }
  manifest := { pageCount := 2, pageSize := 512, pagesPerGroup := 2, subPagesPerFrame := 2, groupPages := [[0, 1]] }
  sized p hp := by cases hp

end Example

open CacheRestart.Example (config)

/-- A clear marks pages that were never fetched. -/
theorem cold_clear_marks : Agree config Example.cold.cache ∧
    ¬ OnlyRemoves config Example.cold.toState (Example.cold.run config .clearCache).toState := by
  refine ⟨⟨fun h => ?_, fun p => ?_⟩, fun h => ?_⟩
  · cases h
  · refine iff_of_false (fun h => by cases h) ?_
    rintro ⟨id, hid, -⟩
    cases hid
  · have hmarked : (Example.cold.run config .clearCache).cache.bitmap 0 = true := by decide
    have hcold := h.bits 0 hmarked
    cases hcold

end Turbolite.CacheClears
