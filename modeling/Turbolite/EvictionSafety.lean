import Turbolite.CacheRestart
import Turbolite.Residency

/-!
# Turbolite.EvictionSafety

A page that is dirty, or that belongs to a checkpoint no flush has uploaded yet, has its newest bytes in
the cache only. Each eviction has a skip set of its own: the between-query eviction knows the dirty pages
of its handle and the pending groups, the lazy trim only the groups being fetched, `evict_on_checkpoint`
none. `eviction_keeps_unuploaded` says along which runs no such page is evicted.
-/

namespace Turbolite.EvictionSafety

open Blocks Runs Residency

/-- Dirty in a handle, or in a checkpoint that is not uploaded. -/
def Protected (s : State) (p : Nat) : Prop :=
  (∃ h, p ∈ s.dirty h) ∨ ∃ log ∈ s.logs ++ s.flushing, p ∈ log

/-- The protected pages are in the cache. -/
def Kept (k : CacheConfig) (s : State) : Prop := ∀ p, Protected s p → s.present k p = true

/-! ### When an event is safe -/

/-- Every protected page that the cache's lists put into a tracked sub-chunk of these tiers is in a
group that is skipped. -/
def Covered (s : State) (tiers : List SubChunkTier) (skip : List Nat) : Prop :=
  ∀ p, Protected s p → ∀ id tier, s.cache.tracker.lookup id = some tier → tier ∈ tiers →
    p ∈ s.cache.subChunkPageNums id → id.groupId ∈ skip

/-- What the skip set of a handle's between-query eviction relies on. -/
structure Skips (s : State) (h : Nat) : Prop where
  /-- no other handle has dirty pages -/
  alone : ∀ h', h' ≠ h → s.dirty h' = []
  /-- the groups of all pending pages are recorded -/
  recorded : ∀ log ∈ s.logs ++ s.flushing, ∀ p ∈ log, ∀ loc, s.manifest.pageLocation p = some loc →
    loc.groupId ∈ s.pendingGroups
  /-- the cache's lists put a protected page into no sub-chunk of another group than the manifest's -/
  located : ∀ p, Protected s p → ∀ id, (s.cache.tracker.lookup id).isSome →
    p ∈ s.cache.subChunkPageNums id →
      ∃ loc, s.manifest.pageLocation p = some loc ∧ loc.groupId = id.groupId

/-- The step spares the protected pages. -/
def Safe (s : State) : Event → Prop
  | .evictBetweenQueries h _ => Skips s h
  | .trim _ => Covered s unpinned s.cache.fetchingGroupIds
  | .evictOnCheckpoint => Covered s [.data] []
  | .evictTier tiers => Covered s tiers s.pendingGroups
  | .expire gids => ∀ gid ∈ gids, ∀ p ∈ s.cache.groupPageNums gid, ¬ Protected s p
  | .evictTree gids => ∀ gid ∈ s.treeGroups gids, ∀ p ∈ s.cache.groupPageNums gid, ¬ Protected s p
  | .clearDataOnly => ∀ p, Protected s p → p ∈ s.cache.interiorPages ++ s.cache.indexPages ++
      s.pendingGroupPages.flatMap (·.2) ++ s.cache.groupZeroPages
  | .clearInteriorOnly => ∀ p, Protected s p → p ∈ s.cache.interiorPages ++
      s.pendingGroupPages.flatMap (·.2) ++ s.cache.groupZeroPages
  | .clearAll => ∀ p, ¬ Protected s p
  | .truncate h n => ∀ h', h' ≠ h → ∀ p ∈ s.dirty h', p < n
  | .compact => ∃ blob, CacheFile.Packable { file := s.cache.file }
      (CacheFile.liveEntries s.cache.index) blob
  | _ => True

/-! ### Evictions -/

variable {k : CacheConfig} {s : State}

theorem Skips.covered {h : Nat} (hs : Skips s h) : Covered s unpinned (s.skipGroups h) := by
  intro p hp id tier hid _ hmem
  obtain ⟨loc, hloc, hgid⟩ := hs.located p hp id (by rw [hid]; rfl) hmem
  rw [← hgid, State.skipGroups, List.append_assoc, List.mem_append, List.mem_append]
  rcases hp with ⟨x, hx⟩ | ⟨log, hlog, hx⟩
  · -- a dirty page of this handle
    obtain rfl : x = h := by
      by_contra hne
      rw [hs.alone x hne] at hx
      cases hx
    exact .inl (List.mem_filterMap.mpr ⟨p, hx, by rw [hloc]; rfl⟩)
  · exact .inr (.inl (hs.recorded log hlog p hx loc hloc))

/-- No evictable sub-chunk has a protected page. -/
theorem Covered.notMem {tiers : List SubChunkTier} {skip : List Nat} (h : Covered s tiers skip) {p : Nat}
    (hp : Protected s p) {id : SubChunkId} (hid : s.cache.Evictable tiers skip id) :
    p ∉ s.cache.subChunkPageNums id := by
  obtain ⟨tier, hl, ht, hnot⟩ := hid
  exact fun hmem => hnot (h p hp id tier hl ht hmem)

theorem kept_evictToBudget (h : Kept k s) {tiers : List SubChunkTier} {skip : List Nat}
    (hc : Covered s tiers skip) {victims : List SubChunkId}
    (hv : ∀ id ∈ victims, s.cache.Evictable tiers skip id) :
    Kept k { s with cache := s.cache.evictToBudget k victims } := by
  intro p hp
  refine (GroupCache.isPresent_evictToBudget victims).mpr ⟨h p hp, fun id hid _ => ?_⟩
  exact hc.notMem hp (hv id hid)

theorem kept_evictSubChunks (h : Kept k s) {tiers : List SubChunkTier} {skip : List Nat}
    (hc : Covered s tiers skip) :
    Kept k { s with cache := s.cache.evictSubChunks k (s.subChunksOf tiers skip) } := by
  intro p hp
  refine (GroupCache.isPresent_evictSubChunks _).mpr ⟨h p hp, fun id hid => ?_⟩
  exact hc.notMem hp (of_decide_eq_true (List.mem_filter.mp hid).2)

theorem kept_evictGroups (h : Kept k s) {gids access : List Nat}
    (hsafe : ∀ gid ∈ gids, ∀ p ∈ s.cache.groupPageNums gid, ¬ Protected s p) :
    Kept k { s with cache := { s.cache.evictGroups k gids with groupAccess := access } } := by
  intro p hp
  refine (GroupCache.isPresent_evictGroups gids).mpr ⟨h p hp, fun gid hgid hmem => ?_⟩
  exact hsafe gid hgid p hmem hp

/-- A page that is kept by a `clear_cache`. -/
theorem kept_clearTo (h : Kept k s) (hsized : CacheFile.Sized s.cache.toPresence) {p : Nat}
    (hp : Protected s p) {keep : List Nat} (hkeep : p ∈ keep) :
    p ∈ keep ∧ p < s.cache.capacity ∧ (k.compressed = true → ∃ e, s.cache.index.lookup p = some e) := by
  have hpresent : s.cache.isPresent k p = true := h p hp
  refine ⟨hkeep, hsized p ?_, fun hk => ((CacheFile.isPresent_compressed hk).mp hpresent).2⟩
  unfold Presence.isPresent at hpresent
  exact (Bool.and_eq_true_iff.mp hpresent).1

theorem kept_truncate (h : Kept k s) {x n : Nat} (hsafe : Safe s (.truncate x n)) :
    Kept k { s with
      cache := s.cache.truncateTo k n
      dirty := Function.update s.dirty x ((s.dirty x).filter (· < n))
      logs := s.logs.map (·.filter (· < n))
      flushing := s.flushing.map (·.filter (· < n)) } := by
  intro p hp
  refine (CacheFile.isPresent_truncateToPageCount n).mpr ?_
  rcases hp with ⟨y, hy⟩ | ⟨log, hlog, hmem⟩
  · have hy' : p ∈ Function.update s.dirty x ((s.dirty x).filter (· < n)) y := hy
    rw [Function.update_apply] at hy'
    split at hy'
    · obtain ⟨hd, hlt⟩ := List.mem_filter.mp hy'
      exact ⟨h p (.inl ⟨x, hd⟩), of_decide_eq_true hlt⟩
    · exact ⟨h p (.inl ⟨y, hy'⟩), hsafe y ‹_› p hy'⟩
  · have hlog' : log ∈ s.logs.map (·.filter (· < n)) ++ s.flushing.map (·.filter (· < n)) := hlog
    rw [← List.map_append] at hlog'
    obtain ⟨l, hl, rfl⟩ := List.mem_map.mp hlog'
    obtain ⟨hm, hlt⟩ := List.mem_filter.mp hmem
    exact ⟨h p (.inr ⟨l, hl, hm⟩), of_decide_eq_true hlt⟩

/-! ### Steps -/

/-- Nothing becomes protected that was not, and no page goes. -/
theorem Kept.mono (h : Kept k s) {s' : State} (hprot : ∀ p, Protected s' p → Protected s p)
    (hpresent : ∀ p, s.present k p = true → s'.present k p = true) : Kept k s' :=
  fun p hp => hpresent p (h p (hprot p hp))

/-- A step of the flush moves logs, and no page goes. -/
theorem Kept.moveLogs (h : Kept k s) {m : Manifest} {c : GroupCache} {groups : List Nat}
    {logs flushing : List (List Nat)} (hfile : c.toCacheFile = s.cache.toCacheFile)
    (hlogs : ∀ log ∈ logs ++ flushing, log ∈ s.logs ++ s.flushing) :
    Kept k { s with manifest := m, cache := c, pendingGroups := groups, logs := logs, flushing := flushing } := by
  refine h.mono (fun p hp => hp.imp id ?_) fun p hp => ?_
  · rintro ⟨log, hlog, hmem⟩
    exact ⟨log, hlogs log hlog, hmem⟩
  · show c.toCacheFile.isPresent k p = true
    rw [hfile]
    exact hp

theorem kept_write (h : Kept k s) (x p : Nat) (data : Bytes) :
    Kept k { s with
      cache := s.cache.writePage k p data
      dirty := Function.update s.dirty x ((s.dirty x).insert p)
      stored := Function.update s.stored p (some data) } := by
  intro q hq
  refine (CacheFile.isPresent_writePage data).mpr ?_
  rcases hq with ⟨y, hy⟩ | hlog
  · have hy' : q ∈ Function.update s.dirty x ((s.dirty x).insert p) y := hy
    rw [Function.update_apply] at hy'
    split at hy'
    · rcases List.mem_insert_iff.mp hy' with rfl | hd
      · exact .inl rfl
      · exact .inr (h q (.inl ⟨x, hd⟩))
    · exact .inr (h q (.inl ⟨y, hy'⟩))
  · exact .inr (h q (.inr hlog))

/-- A checkpoint moves the dirty pages into its log. -/
theorem protected_checkpoint {x : Nat} {m : Manifest} {groups : List Nat} {p : Nat}
    (hp : Protected { s with
      manifest := m
      dirty := Function.update s.dirty x []
      pendingGroups := groups
      logs := s.logs ++ [s.dirty x] } p) : Protected s p := by
  rcases hp with ⟨y, hy⟩ | ⟨log, hlog, hmem⟩
  · exact .inl ⟨y, mem_dirty_of_cleared hy⟩
  · have hlog' : log ∈ (s.logs ++ [s.dirty x]) ++ s.flushing := hlog
    rcases List.mem_append.mp hlog' with hl | hl
    · rcases List.mem_append.mp hl with hl | hl
      · exact .inr ⟨log, List.mem_append_left _ hl, hmem⟩
      · rw [List.mem_singleton.mp hl] at hmem
        exact .inl ⟨x, hmem⟩
    · exact .inr ⟨log, List.mem_append_right _ hl, hmem⟩

theorem isPresent_compact (hsafe : Safe s .compact) {p : Nat} (hp : s.cache.isPresent k p = true) :
    (s.cache.toCacheFile.compactCompressedCache k).isPresent k p = true := by
  obtain ⟨blob, hpack⟩ := hsafe
  unfold CacheFile.compactCompressedCache
  split
  · rename_i hk
    obtain ⟨hb, e, he⟩ := (CacheFile.isPresent_compressed hk).mp hp
    obtain ⟨pre, post, hsplit⟩ := List.append_of_mem (CacheRestart.mem_liveEntries.mpr he)
    refine (CacheFile.isPresent_compressed hk).mpr ⟨hb, ?_⟩
    dsimp only
    rw [CacheRestart.packed_length, hsplit]
    rw [hsplit] at hpack
    exact ⟨_, hpack.foldl_split.1⟩
  · exact hp

theorem isPresent_foldl_mark {t : Presence} {p : Nat} {ps : List Nat} (h : t.isPresent k p = true) :
    (ps.foldl Presence.mark t).isPresent k p = true := by
  induction ps generalizing t with
  | nil => exact h
  | cons q ps ih =>
    refine ih ?_
    unfold Presence.isPresent Presence.mark at *
    by_cases hpq : p = q
    · subst hpq
      simp only [Function.update_self, Bool.true_and]
      exact (Bool.and_eq_true_iff.mp h).2
    · simp only [Function.update_of_ne hpq]
      exact h

/-- The protected pages are in the cache, and the bitmap has no page past its end. -/
structure Inv (k : CacheConfig) (s : State) : Prop where
  kept : Kept k s
  sized : CacheFile.Sized s.cache.toPresence

theorem step_kept {e : Event} {s' : State} (h : Inv k s) (hsafe : Safe s e)
    (hstep : step k s e = some s') : Kept k s' := by
  have hk := h.kept
  cases e with
  | write x p data =>
    obtain ⟨-, rfl⟩ := write_inv hstep
    exact kept_write hk x p data
  | checkpoint x =>
    cases hstep
    exact hk.mono (fun p hp => protected_checkpoint hp) fun p hp => hp
  | takeFlush =>
    obtain ⟨-, rfl⟩ := takeFlush_inv hstep
    exact hk.moveLogs rfl (fun log hlog => List.mem_append_left _ hlog)
  | finishFlush m =>
    cases hstep
    refine hk.moveLogs rfl fun log hlog => ?_
    rw [List.append_nil] at hlog
    exact List.mem_append_left _ hlog
  | failFlush groups =>
    cases hstep
    refine hk.moveLogs rfl fun log hlog => ?_
    rw [List.append_nil, List.mem_append] at hlog
    exact List.mem_append.mpr hlog.symm
  | sync x m =>
    cases hstep
    refine hk.mono (fun p hp => hp.imp ?_ id) fun p hp => hp
    rintro ⟨y, hy⟩
    exact ⟨y, mem_dirty_of_cleared hy⟩
  | claim gid =>
    obtain ⟨c, hcl, rfl⟩ := claim_inv hstep
    refine hk.mono (fun p hp => hp) fun p hp => ?_
    unfold GroupCache.tryClaimGroup at hcl
    split at hcl
    · cases hcl
      exact hp
    · cases hcl
  | installFrame gid start ps data | installGroup gid ps data =>
    cases hstep
    exact hk.mono (fun p hp => hp) fun p hp =>
      (CacheFile.isPresent_writePagesScattered data).mpr (.inr hp)
  | finish gid =>
    obtain ⟨-, rfl⟩ := finish_inv hstep
    exact hk.mono (fun p hp => hp) fun p hp => hp
  | abandon gid =>
    cases hstep
    refine hk.mono (fun p hp => hp) fun p hp => ?_
    show (s.cache.unclaimIfFetching gid).isPresent k p = true
    unfold GroupCache.unclaimIfFetching
    split
    · exact hp
    · exact hp
  | fallback p data =>
    obtain ⟨loc, -, -, -, -, rfl⟩ := fallback_inv hstep
    exact hk.mono (fun q hq => hq) fun q hq => (CacheFile.isPresent_writePage data).mpr (.inr hq)
  | replay ws =>
    obtain ⟨-, rfl⟩ := replay_inv hstep
    refine hk.mono (fun p hp => hp) fun p hp => ?_
    exact isPresent_foldl_mark ((CacheFile.isPresent_foldl_writePage ws).mpr (.inr hp))
  | evictBetweenQueries x victims =>
    obtain ⟨hvictims, rfl⟩ := evictBetweenQueries_inv hstep
    exact kept_evictToBudget hk hsafe.covered hvictims
  | trim victims =>
    obtain ⟨hvictims, rfl⟩ := trim_inv hstep
    exact kept_evictToBudget hk hsafe hvictims
  | expire gids =>
    obtain ⟨-, rfl⟩ := expire_inv hstep
    exact kept_evictGroups hk hsafe
  | evictOnCheckpoint =>
    cases hstep
    exact kept_evictSubChunks hk hsafe
  | evictTier tiers =>
    obtain ⟨-, rfl⟩ := evictTier_inv hstep
    exact kept_evictSubChunks hk hsafe
  | evictTree gids =>
    cases hstep
    exact kept_evictGroups hk hsafe
  | clearDataOnly =>
    cases hstep
    intro p hp
    exact (GroupCache.isPresent_clearTo _ _ [.data]).mpr (kept_clearTo hk h.sized hp (hsafe p hp))
  | clearInteriorOnly =>
    cases hstep
    intro p hp
    let live := 0 :: s.pendingGroupPages.map (·.1)
    exact (GroupCache.isPresent_clearTo live _ [.index, .data]).mpr
      (kept_clearTo hk h.sized hp (hsafe p hp))
  | clearAll =>
    cases hstep
    exact fun p hp => absurd hp (hsafe p)
  | truncate x n =>
    cases hstep
    exact kept_truncate hk hsafe
  | compact =>
    cases hstep
    exact hk.mono (fun p hp => hp) fun p hp => isPresent_compact hsafe hp
  | store | markInterior | markIndex | touch =>
    cases hstep
    exact hk.mono (fun p hp => hp) fun p hp => hp

theorem step_inv {e : Event} {s' : State} (h : Inv k s) (hsafe : Safe s e)
    (hstep : step k s e = some s') : Inv k s' :=
  ⟨step_kept h hsafe hstep, sized_step h.sized hstep⟩

/-- From handles without dirty pages and no pending checkpoint, in every run whose events are all safe:
the pages that are dirty or not uploaded are in the cache. -/
theorem eviction_keeps_unuploaded {es : List Event} {s' : State}
    (hclean : ∀ p, ¬ Protected s p) (hsized : CacheFile.Sized s.cache.toPresence)
    (hsafe : Meets (step k) Safe s es) (hrun : run (step k) s es = some s') : Kept k s' := by
  have hinv : Inv k s := ⟨fun p hp => absurd hp (hclean p), hsized⟩
  exact (run_invariant (fun _ _ _ hi hcond hstep => step_inv hi hcond hstep) hinv hsafe hrun).kept

/-! ### Two groups of two pages -/

namespace Example

open CacheRestart.Example (config page)

/-- Four pages by position, one page a sub-chunk; nothing is cached. -/
def opened : State where
  cache := { pagesPerGroup := 2, subPagesPerFrame := 1 }
  manifest := { pageCount := 4, pageSize := 512, pagesPerGroup := 2, subPagesPerFrame := 1 }

/-- Group `g` is fetched. -/
def fetched (g : Nat) : State :=
  { opened with
    cache := opened.cache.writePagesScattered config [2 * g, 2 * g + 1] (page 1 ++ page 2) g 0
    stored := opened.stored.install (PageMap.scatter config.pageSize [2 * g, 2 * g + 1] (page 1 ++ page 2)) }

/-- Page 0 is dirty in handle 0. -/
def wrote (g : Nat) : State :=
  { fetched g with
    cache := (fetched g).cache.writePage config 0 (page 7)
    dirty := Function.update (fetched g).dirty 0 [0]
    stored := Function.update (fetched g).stored 0 (some (page 7)) }

theorem step_write (g : Nat) : step config (fetched g) (.write 0 0 (page 7)) = some (wrote g) := by
  have hlen : (page 7).length = config.pageSize := List.length_replicate
  simp only [step, hlen, if_true]
  rfl

/-- Group 1 is fetched, page 0 is written, page 2 is evicted. -/
def evicted : State := { wrote 1 with cache := (wrote 1).cache.evictToBudget config [⟨1, 0⟩] }

theorem step_evict : step config (wrote 1) (.evictBetweenQueries 0 [⟨1, 0⟩]) = some evicted := by
  have hguard : ∀ id ∈ [(⟨1, 0⟩ : SubChunkId)],
      (wrote 1).cache.Evictable unpinned ((wrote 1).skipGroups 0) id := by
    decide +kernel
  simp only [step, if_pos hguard]
  rfl

/-- Group 0 is fetched, page 0 is written and evicted. -/
def trimmed : State := { wrote 0 with cache := (wrote 0).cache.evictToBudget config [⟨0, 0⟩] }

theorem step_trim : step config (wrote 0) (.trim [⟨0, 0⟩]) = some trimmed := by
  have hguard : ∀ id ∈ [(⟨0, 0⟩ : SubChunkId)],
      (wrote 0).cache.Evictable unpinned (wrote 0).cache.fetchingGroupIds id := by
    decide +kernel
  simp only [step, if_pos hguard]
  rfl

theorem opened_clean (p : Nat) : ¬ Protected opened p := by
  rintro (⟨h, hp⟩ | ⟨log, hlog, hp⟩)
  · cases hp
  · cases hlog

/-- Only page 0 is protected. -/
theorem eq_zero_of_protected {p : Nat} (h : Protected (wrote 1) p) : p = 0 := by
  rcases h with ⟨x, hx⟩ | ⟨log, hlog, -⟩
  · have hx' : p ∈ Function.update (fetched 1).dirty 0 [0] x := hx
    rw [Function.update_apply] at hx'
    split at hx'
    · exact List.mem_singleton.mp hx'
    · cases hx'
  · cases hlog

/-- Page 0 is in no tracked sub-chunk of another group. -/
theorem skips : Skips (wrote 1) 0 where
  alone x hx := Function.update_of_ne hx ..
  recorded log hlog := by cases hlog
  located p hp id hid hmem := by
    obtain rfl := eq_zero_of_protected hp
    have hmem' : 0 ∈ List.range' (id.groupId * 2 + id.frameIndex * 1) 1 := hmem
    refine ⟨⟨0, 0⟩, rfl, ?_⟩
    rw [List.mem_range'_1] at hmem'
    show 0 = id.groupId
    omega

end Example

open CacheRestart.Example (config page)

/-- The between-query eviction takes a clean page and keeps the dirty one. -/
theorem between_queries_keeps_dirty :
    run (step config) Example.opened [.installFrame 1 0 [2, 3] (page 1 ++ page 2), .write 0 0 (page 7),
      .evictBetweenQueries 0 [⟨1, 0⟩]] = some Example.evicted ∧
    Example.evicted.present config 2 = false ∧ 0 ∈ Example.evicted.dirty 0 ∧
    Kept config Example.evicted := by
  have hrun : run (step config) Example.opened [.installFrame 1 0 [2, 3] (page 1 ++ page 2),
      .write 0 0 (page 7), .evictBetweenQueries 0 [⟨1, 0⟩]] = some Example.evicted :=
    run_cons.mpr ⟨Example.fetched 1, rfl, run_cons.mpr ⟨_, Example.step_write 1,
      run_cons.mpr ⟨_, Example.step_evict, rfl⟩⟩⟩
  refine ⟨hrun, by decide +kernel, List.mem_cons_self,
    eviction_keeps_unuploaded Example.opened_clean (fun p hp => by cases hp) ?_ hrun⟩
  exact .cons trivial (m := Example.fetched 1) rfl (.cons trivial (Example.step_write 1)
    (.cons Example.skips Example.step_evict trivial))

/-- The lazy trim takes a dirty page. -/
theorem trim_takes_dirty :
    run (step config) Example.opened [.installFrame 0 0 [0, 1] (page 1 ++ page 2), .write 0 0 (page 7),
      .trim [⟨0, 0⟩]] = some Example.trimmed ∧
    Protected Example.trimmed 0 ∧ (Example.wrote 0).present config 0 = true ∧
    Example.trimmed.present config 0 = false ∧ ¬ Kept config Example.trimmed := by
  have hprot : Protected Example.trimmed 0 := .inl ⟨0, List.mem_cons_self⟩
  have hgone : Example.trimmed.present config 0 = false := by decide +kernel
  refine ⟨run_cons.mpr ⟨Example.fetched 0, rfl, run_cons.mpr ⟨_, Example.step_write 0,
    run_cons.mpr ⟨_, Example.step_trim, rfl⟩⟩⟩, hprot, by decide +kernel, hgone, fun hkept => ?_⟩
  have hp := hkept 0 hprot
  rw [hgone] at hp
  cases hp

end Turbolite.EvictionSafety
