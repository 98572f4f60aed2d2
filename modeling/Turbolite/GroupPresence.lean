import Turbolite.CacheRestart
import Turbolite.ColdRead
import Turbolite.Residency

/-!
# Turbolite.GroupPresence

What a group in state Present promises: `read_exact_at` does not fetch it any more. The state is set by
fetches, by the fallback read and by replays, and is not looked at by the evictions of sub-chunks.
`group_presence_truthful` says along which runs a Present group has all of its pages, and that every
page that can be read from an empty cache can then be read.
-/

namespace Turbolite.GroupPresence

open Blocks Results Runs Residency

/-! ### Reads -/

/-- How a handle fetches: by frames, inside a planned scan, or from local page groups. -/
inductive Mode where
  | frames
  | scan
  | localGroups
  deriving DecidableEq, Repr

variable (cfg : CodecConfig) (k : CacheConfig)

/-- The read on an empty cache. -/
def cold : Mode → Manifest → Backend → Nat → IoResult Bytes
  | .frames => ReadPaths.coldRead cfg
  | .scan => ReadPaths.scanRead cfg
  | .localGroups => ReadPaths.localRead cfg

/-- A call of `write_pages_scattered`. -/
structure Install where
  start : Nat
  pageNums : List Nat
  data : Bytes

/-- What the whole-group path writes; `none` when there is no object. -/
def groupInstall (m : Manifest) (b : Backend) (gid : Nat) : IoResult (Option Install) :=
  match (m.groupKey gid).bind b.getPageGroup with
  | none => .ok none
  | some data => do
    let (_, _, pageData) ← ReadPaths.decodeBase cfg m gid data
    let gp := m.groupPageNums gid
    let dataLen := gp.length * m.pageSize
    if gp.length = 0 then .ok (some ⟨0, [], []⟩)
    else if dataLen ≤ pageData.length then .ok (some ⟨0, gp, pageData.take dataLen⟩)
    else .error (.io .invalidData
      s!"decoded page group gid={gid} too short: need {dataLen} bytes, got {pageData.length}")

/-- What one override of the local path writes: nothing when its object is missing, does not open or is
too short. -/
def overrideInstall (m : Manifest) (b : Backend) (gid frameIdx : Nat) (ovr : SubframeOverride) :
    IoResult (List Install) :=
  match b.getPageGroup ovr.key with
  | none => .ok []
  | some data =>
    match cfg.decodeSeekableSubchunk (aadOverrideFrame gid frameIdx) data with
    | .error _ => .ok []
    | .ok decompressed =>
      let gp := m.groupPageNums gid
      let frameStart := frameIdx * m.subPagesPerFrame
      if gp.length < frameStart then .error .panic
      else
        let framePageNums := block m.subPagesPerFrame frameIdx gp
        let dataLen := framePageNums.length * m.pageSize
        if dataLen ≤ decompressed.length then
          .ok [⟨frameStart, framePageNums, decompressed.take dataLen⟩]
        else .ok []

/-- What the local path writes, one call after the other; `none` when there is no object that decodes. -/
def localInstalls (m : Manifest) (b : Backend) (gid : Nat) : IoResult (Option (List Install)) :=
  match (m.groupKey gid).bind b.getPageGroup with
  | none => .ok none
  | some data =>
    match ReadPaths.decodeBase cfg m gid data with
    | .error _ => .ok none
    | .ok (_, _, bulkData) => do
      let overrides ← if 0 < m.subPagesPerFrame then
          (m.overrides gid).entries.mapM fun ov => overrideInstall cfg m b gid ov.1 ov.2
        else .ok []
      .ok (some (⟨0, m.groupPageNums gid, bulkData⟩ :: overrides.flatten))

/-- The lazy check of `mark_group_present`. On most calls it does nothing; on every 64th the groups whose
time is up go, then the sub-chunks that the budget trim picks, and the trim may compact the cache file. -/
structure LazyCheck where
  expired : List Nat := []
  victims : List SubChunkId := []
  compacts : Bool := false

/-- The lazy trim: expired sub-chunks, then the budget. -/
def LazyCheck.apply (l : LazyCheck) (c : GroupCache) : GroupCache :=
  let c := (c.evictExpired k l.expired).evictToBudget k l.victims
  if l.compacts then { c with toCacheFile := c.toCacheFile.compactCompressedCache k } else c

/-- The check does not take the page. -/
def LazyCheck.Spares (l : LazyCheck) (c : GroupCache) (p : Nat) : Prop :=
  (∀ gid ∈ l.expired, p ∉ c.groupPageNums gid) ∧ ∀ id ∈ l.victims, p ∉ c.subChunkPageNums id

/-- The cache after a fetch has written its pages. -/
def written (c : GroupCache) (gid : Nat) (is : List Install) : GroupCache :=
  is.foldl (fun c i => c.writePagesScattered k i.pageNums i.data gid i.start) c

/-- The cache after a fetch has marked its group. -/
def fetched (c : GroupCache) (gid : Nat) (is : List Install) (l : LazyCheck) : GroupCache :=
  l.apply k ((written k c gid is).markGroupPresent gid)

/-- The whole-group path. A Present group is not fetched. The page is read from the cache; where it is
absent it may still have bytes in the cache file. -/
def legacyRead (s : State) (b : Backend) (gid p : Nat) (l : LazyCheck) : IoResult Bytes := do
  let message := s!"page {p} in group {gid} missing from remote storage"
  let c ← if s.cache.groupState gid = .present then .ok s.cache
    else do
      match ← groupInstall cfg s.manifest b gid with
      | none => .ok s.cache
      | some i => .ok (fetched k s.cache gid [i] l)
  if c.isPresent k p then c.readPage k p
  else
    match c.readPage k p with
    | .ok data => if data.any (· ≠ 0) then .ok data else .error (.io .notFound message)
    | .error _ => .error (.io .notFound message)

/-- The local path. -/
def localRead (s : State) (b : Backend) (gid p : Nat) (l : LazyCheck) : IoResult Bytes := do
  let message := s!"page {p} not recoverable from local page groups"
  match ← localInstalls cfg s.manifest b gid with
  | none => .error (.io .notFound message)
  | some is =>
    let c := fetched k s.cache gid is l
    if c.isPresent k p then c.readPage k p else .error (.io .notFound message)

/-- `read_exact_at` of one page by handle `h` while no other thread runs; `l` is the lazy check of the
group it marks, if it marks one before it reads the page. -/
def read (mode : Mode) (s : State) (b : Backend) (h p : Nat) (l : LazyCheck) : IoResult Bytes :=
  if p ∈ s.dirty h then
    if s.present k p then s.cache.readPage k p
    else .error (.io .notFound s!"dirty page {p} was evicted before read; restart the VFS to recover")
  else if s.manifest.pageCount ≤ p then .ok (ReadPaths.zeroPage s.manifest)
  else
    match s.manifest.pageLocation p with
    | none => .ok (ReadPaths.zeroPage s.manifest)
    | some loc =>
      if s.present k p then s.cache.readPage k p
      else
        match mode with
        | .localGroups => localRead cfg k s b loc.groupId p l
        | .scan => legacyRead cfg k s b loc.groupId p l
        | .frames =>
          if s.manifest.hasFrames loc.groupId then do
            match ← ReadPaths.rangeRead cfg s.manifest b loc.groupId loc.index with
            | some data => .ok data
            | none => legacyRead cfg k s b loc.groupId p l
          else legacyRead cfg k s b loc.groupId p l

/-! ### The property -/

/-- The pages a group has to have. -/
def Listed (m : Manifest) (gid p : Nat) : Prop := p ∈ m.groupPageNums gid ∧ p < m.pageCount

/-- A Present group has its pages. -/
def Truthful (s : State) : Prop :=
  ∀ gid, s.cache.groupState gid = .present → ∀ p, Listed s.manifest gid p → s.present k p = true

/-- A page that can be read from an empty cache can be read, unless the read's own lazy check takes it. -/
def Readable (s : State) : Prop :=
  ∀ cfg mode b h p (l : LazyCheck), p < s.manifest.pageCount →
    (∃ data, cold cfg mode s.manifest b p = .ok data) → l.Spares s.cache p →
    ∃ data, read cfg k mode s b h p l = .ok data

/-! ### When an event is safe -/

/-- The page may not go while the groups of `gids` lose their state: it is dirty, or belongs to another
group that is Present or about to be marked. -/
def Needed (s : State) (gids : List Nat) (p : Nat) : Prop :=
  (∃ h, p ∈ s.dirty h) ∨ ∃ gid, Listed s.manifest gid p ∧
    (gid ∈ s.installing ∨ s.cache.groupState gid = .present ∧ gid ∉ gids)

/-- The groups that `clear_cache` leaves Present. -/
def liveGroups (s : State) : List Nat := 0 :: s.pendingGroups

/-- What `clear_cache` may assume of the pages it keeps. -/
structure Keeps (s : State) (live keep : List Nat) : Prop where
  /-- no bit is set over missing bytes -/
  bits : ∀ p ∈ keep, p < s.cache.capacity → s.present k p = true
  dirty : ∀ h, ∀ p ∈ s.dirty h, p ∈ keep
  groups : ∀ gid, gid ∈ live ∨ gid ∈ s.installing → ∀ p, Listed s.manifest gid p →
    p ∈ keep ∧ s.present k p = true

/-- What a new manifest adds to a Present group is cached. -/
structure Adopts (s : State) (m : Manifest) : Prop where
  indexed : m.Indexed
  /-- the cache has one page size -/
  pageSize : m.pageSize = k.pageSize
  cached : ∀ gid, s.cache.groupState gid = .present ∨ gid ∈ s.installing → ∀ p, Listed m gid p →
    Listed s.manifest gid p ∨ s.present k p = true

/-- The step leaves no page out of a group that is taken for held. -/
def Safe (s : State) : Event → Prop
  | .checkpoint h => Adopts k s (s.manifest.localCheckpoint (s.dirty h) s.cache.pagesPerGroup)
  | .finishFlush m | .sync _ m | .store m => Adopts k s m
  | .installGroup gid ps data => ∀ p, Listed s.manifest gid p →
      p ∈ ps.take (data.length / k.pageSize) ∨ s.present k p = true
  | .fallback p _ => ∀ loc, s.manifest.pageLocation p = some loc →
      ∀ q, q ≠ p → Listed s.manifest loc.groupId q → s.present k q = true
  | .replay ws => ∀ w ∈ ws, ∀ q, Listed s.manifest (w.1 / s.cache.pagesPerGroup) q →
      q ∈ ws.map (·.1) ∨ s.present k q = true
  | .evictBetweenQueries _ victims | .trim victims =>
      ∀ id ∈ victims, ∀ p ∈ s.cache.subChunkPageNums id, ¬ Needed s [] p
  | .evictOnCheckpoint => ∀ id ∈ s.subChunksOf [.data] [],
      ∀ p ∈ s.cache.subChunkPageNums id, ¬ Needed s [] p
  | .evictTier tiers => ∀ id ∈ s.subChunksOf tiers s.pendingGroups,
      ∀ p ∈ s.cache.subChunkPageNums id, ¬ Needed s [] p
  | .expire gids => ∀ gid ∈ gids, ∀ p ∈ s.cache.groupPageNums gid, ¬ Needed s gids p
  | .evictTree gids => ∀ gid ∈ s.treeGroups gids, ∀ p ∈ s.cache.groupPageNums gid,
      ¬ Needed s (s.treeGroups gids) p
  | .clearDataOnly => Keeps k s (liveGroups s) (s.cache.interiorPages ++ s.cache.indexPages ++
      s.pendingGroupPages.flatMap (·.2) ++ s.cache.groupZeroPages)
  | .clearInteriorOnly => Keeps k s (liveGroups s) (s.cache.interiorPages ++
      s.pendingGroupPages.flatMap (·.2) ++ s.cache.groupZeroPages)
  | .clearAll => Keeps k s [] []
  | .truncate h n => s.manifest.pageCount ≤ n ∧ (∀ h', h' ≠ h → ∀ p ∈ s.dirty h', p < n) ∧
      (k.compressed = true → ∀ p e, s.cache.index.lookup p = some e → p < n →
        e.stop ≤ n * k.slotStride)
  | _ => True

/-! ### The cache file -/

variable {k}

/-- The present pages of the cache can be read; nothing is written down. -/
abbrev FileInv (k : CacheConfig) (c : CacheFile) (stored : PageMap) : Prop :=
  CacheRestart.Inv k ⟨c, {}, stored⟩

section Files

variable {c : CacheFile} {stored : PageMap}

theorem FileInv.readPage (hc : k.codec.codecs.Lawful) (h : FileInv k c stored) {p : Nat}
    (hp : c.isPresent k p = true) : ∃ data, c.readPage k p = .ok data := by
  obtain ⟨data, -, hlen, hdisk⟩ := h.cache p hp
  exact ⟨data, hdisk.readPage hc hlen⟩

theorem FileInv.writePage (hc : k.codec.codecs.Lawful) (hs : k.codec.FrameSized)
    (h : FileInv k c stored) {p : Nat} {data : Bytes} (hlen : data.length = k.pageSize) :
    FileInv k (c.writePage k p data) (Function.update stored p (some data)) :=
  CacheRestart.inv_writePage hc hs h hlen fun _ => rfl

theorem FileInv.writePages (hc : k.codec.codecs.Lawful) (hs : k.codec.FrameSized)
    (h : FileInv k c stored) {ws : List (Nat × Bytes)} (hlen : ∀ w ∈ ws, w.2.length = k.pageSize) :
    FileInv k (ws.foldl (fun c w => c.writePage k w.1 w.2) c) (stored.install ws) := by
  induction ws generalizing c stored with
  | nil => exact h
  | cons w ws ih =>
    exact ih (h.writePage hc hs (hlen w List.mem_cons_self)) fun x hx => hlen x (List.mem_cons_of_mem _ hx)

theorem FileInv.clear (h : FileInv k c stored) (ps : List Nat) :
    FileInv k (c.clearPagesFromDisk k ps) stored :=
  CacheRestart.inv_evict h fun _ _ _ => rfl

theorem FileInv.truncate (h : FileInv k c stored) {n : Nat} (hcut : k.compressed = true →
      ∀ p e, c.index.lookup p = some e → p < n → e.stop ≤ n * k.slotStride) :
    FileInv k (c.truncateToPageCount k n) stored := by
  refine CacheRestart.inv_truncate h ⟨fun _ _ _ => rfl, fun hk => ⟨hcut hk, fun p e hp => ?_⟩⟩
  cases hp

theorem FileInv.compact (h : FileInv k c stored) : FileInv k (c.compactCompressedCache k) stored := by
  refine CacheRestart.inv_compact h fun _ p e hp => ?_
  cases hp

/-- Pages are forgotten and the file stays. -/
theorem FileInv.restrict (h : FileInv k c stored) {c' : CacheFile} (hfile : c'.file = c.file)
    (hsub : ∀ p, c'.isPresent k p = true → c.isPresent k p = true)
    (hidx : ∀ p e, c'.index.lookup p = some e → c.index.lookup p = some e)
    (hlaid : k.compressed = true → CacheRestart.Laid c'.toPresence) : FileInv k c' stored := by
  refine ⟨fun p hp => ?_, fun p hp => ?_, hlaid, h.laidPersisted, fun _ p e he => ?_⟩
  · obtain ⟨data, hst, hlen, hdisk⟩ := h.cache p (hsub p hp)
    refine ⟨data, hst, hlen, ?_⟩
    show CacheFile.OnDisk k c'.file c'.toPresence p data
    rw [hfile]
    cases hk : k.compressed with
    | false => exact (CacheRestart.onDisk_uncompressed hk).mpr ((CacheRestart.onDisk_uncompressed hk).mp hdisk)
    | true =>
      obtain ⟨e, he, hr⟩ := (CacheRestart.onDisk_compressed hk).mp hdisk
      obtain ⟨-, e', he'⟩ := (CacheFile.isPresent_compressed hk).mp hp
      obtain rfl : e = e' := Option.some.inj (he.symm.trans (hidx p e' he'))
      exact (CacheRestart.onDisk_compressed hk).mpr ⟨e, he', hr⟩
  · cases hp
  · cases he

end Files

section Caches

variable {c : GroupCache} {stored : PageMap}

theorem FileInv.writePagesScattered (hc : k.codec.codecs.Lawful) (hs : k.codec.FrameSized)
    (h : FileInv k c.toCacheFile stored) (ps : List Nat) (data : Bytes) (gid start : Nat) :
    FileInv k (c.writePagesScattered k ps data gid start).toCacheFile
      (stored.install (PageMap.scatter k.pageSize ps data)) :=
  h.writePages hc hs fun _ hw => CacheRestart.length_of_mem_writes hw

theorem FileInv.evictSubChunks (h : FileInv k c.toCacheFile stored) (ids : List SubChunkId) :
    FileInv k (c.evictSubChunks k ids).toCacheFile stored := by
  induction ids generalizing c with
  | nil => exact h
  | cons id ids ih => exact ih (c := c.evictSubChunk k id) (h.clear _)

theorem FileInv.evictToBudget (h : FileInv k c.toCacheFile stored) (ids : List SubChunkId) :
    FileInv k (c.evictToBudget k ids).toCacheFile stored := by
  induction ids generalizing c with
  | nil => exact h
  | cons id ids ih =>
    rw [GroupCache.evictToBudget, List.foldl_cons]
    refine ih ?_
    split
    · exact h
    · exact h.clear _

theorem FileInv.evictGroups (h : FileInv k c.toCacheFile stored) (gids : List Nat) :
    FileInv k (c.evictGroups k gids).toCacheFile stored := by
  induction gids generalizing c with
  | nil => exact h
  | cons gid gids ih => exact ih (c := c.evictGroup k gid) (h.clear _)

theorem lookup_clearTo (hk : k.compressed = true) {live keep : List Nat} {drop : List SubChunkTier}
    {p : Nat} {e : CacheIndexEntry} (he : (c.clearTo k live keep drop).index.lookup p = some e) :
    c.index.lookup p = some e ∧ p ∈ keep := by
  simp only [GroupCache.clearTo, hk, if_true] at he
  rw [CacheFile.lookup_foldl_erase] at he
  split at he
  · cases he
  · rename_i hnot
    refine ⟨he, ?_⟩
    by_contra hp
    have hkey : p ∈ c.index.keys := by
      rw [← AList.mem_keys, ← AList.lookup_isSome, he]
      rfl
    exact hnot (List.mem_filter.mpr ⟨hkey, decide_eq_true hp⟩)

theorem FileInv.clearTo (h : FileInv k c.toCacheFile stored) (hsized : CacheFile.Sized c.toPresence)
    (live : List Nat) {keep : List Nat} (drop : List SubChunkTier)
    (hbits : ∀ p ∈ keep, p < c.capacity → c.isPresent k p = true) :
    FileInv k (c.clearTo k live keep drop).toCacheFile stored := by
  refine h.restrict rfl (fun p hp => ?_) (fun p e he => ?_) fun hk => ?_
  · obtain ⟨hkeep, hcap, -⟩ := (GroupCache.isPresent_clearTo live keep drop).mp hp
    exact hbits p hkeep hcap
  · cases hk : k.compressed with
    | true => exact (lookup_clearTo hk he).1
    | false => simpa [GroupCache.clearTo, hk] using he
  · refine (h.laid hk).restrict rfl fun p e he => ?_
    obtain ⟨he', hkeep⟩ := lookup_clearTo hk he
    refine ⟨he', decide_eq_true ⟨hkeep, hsized p ?_⟩⟩
    exact (h.laid hk).marked p e he'

theorem FileInv.clearCacheAll (h : FileInv k c.toCacheFile stored) :
    FileInv k (c.clearCacheAll k).toCacheFile stored := by
  have hnone : ∀ p e, k.compressed = true → (c.clearCacheAll k).index.lookup p ≠ some e := by
    intro p e hk he
    have he' : (c.clearTo k [] [] [.pinned, .index, .data]).index.lookup p = some e := he
    exact absurd (lookup_clearTo hk he').2 List.not_mem_nil
  refine h.restrict rfl (fun p hp => ?_) (fun p e he => ?_) fun hk => ?_
  · obtain ⟨hkeep, -⟩ := (GroupCache.isPresent_clearTo (c := c) [] [] [.pinned, .index, .data]).mp hp
    exact absurd hkeep List.not_mem_nil
  · cases hk : k.compressed with
    | true => exact absurd he (hnone p e hk)
    | false => simpa [GroupCache.clearCacheAll, GroupCache.clearTo, hk] using he
  · exact ⟨fun p e he => absurd he (hnone p e hk), fun p e he => absurd he (hnone p e hk),
      fun p e he => absurd he (hnone p e hk), fun p _ e _ _ he => absurd he (hnone p e hk)⟩

end Caches

/-! ### The invariant -/

/-- Present, or about to be marked. -/
def Held (s : State) (gid : Nat) : Prop := s.cache.groupState gid = .present ∨ gid ∈ s.installing

/-- A group that is taken for held is in the cache, and so is every dirty page. -/
structure Inv (k : CacheConfig) (s : State) : Prop where
  held : ∀ gid, Held s gid → ∀ p, Listed s.manifest gid p → s.present k p = true
  dirty : ∀ h, ∀ p ∈ s.dirty h, s.present k p = true
  file : FileInv k s.cache.toCacheFile s.stored
  sized : CacheFile.Sized s.cache.toPresence
  indexed : s.manifest.Indexed
  pageSize : s.manifest.pageSize = k.pageSize

variable {s : State}

/-- Nothing is in the cache. -/
structure Opened (k : CacheConfig) (s : State) : Prop where
  file : s.cache.toCacheFile = {}
  states : s.cache.states = []
  installing : s.installing = []
  dirty : ∀ h, s.dirty h = []
  stored : s.stored = PageMap.empty
  indexed : s.manifest.Indexed
  pageSize : s.manifest.pageSize = k.pageSize

theorem Opened.inv (h : Opened k s) : Inv k s where
  held gid hg := by
    unfold Held GroupCache.groupState at hg
    rw [h.states, h.installing] at hg
    rcases hg with hg | hg <;> cases hg
  dirty x p hp := by
    rw [h.dirty] at hp
    cases hp
  file := by
    rw [h.file, h.stored]
    exact CacheRestart.inv_fresh k
  sized p hp := by
    rw [h.file] at hp
    cases hp
  indexed := h.indexed
  pageSize := h.pageSize

/-- The invariant is what the readers need. -/
theorem Inv.truthful (h : Inv k s) : Truthful k s := fun gid hg => h.held gid (.inl hg)

/-! ### A fetch and the read after it -/

/-- The pages of a fetch into an empty cache. -/
def pagesOf (pageSize : Nat) (is : List Install) (c : PageMap) : PageMap :=
  is.foldl (fun c i => c.install (PageMap.scatter pageSize i.pageNums i.data)) c

theorem fullGroupInstall_eq (cfg : CodecConfig) (m : Manifest) (b : Backend) (gid : Nat) :
    ReadPaths.fullGroupInstall cfg m b gid = (groupInstall cfg m b gid).map fun r =>
      match r with
      | none => []
      | some i => PageMap.scatter m.pageSize i.pageNums i.data := by
  unfold ReadPaths.fullGroupInstall groupInstall
  cases (m.groupKey gid).bind b.getPageGroup with
  | none => rfl
  | some data =>
    dsimp only
    cases hdecoded : ReadPaths.decodeBase cfg m gid data with
    | error e => rfl
    | ok out =>
      simp only [ok_bind]
      split
      · simp [Except.map, PageMap.scatter]
      · split <;> rfl

/-- What a read of the whole group from an empty cache gets comes from the fetch. -/
theorem groupInstall_of_cold {cfg : CodecConfig} {m : Manifest} {b : Backend} {gid p : Nat}
    {data : Bytes} (hcold : ReadPaths.fullGroupRead cfg m b gid p = .ok data) :
    ∃ i, groupInstall cfg m b gid = .ok (some i) ∧
      pagesOf m.pageSize [i] PageMap.empty p = some data := by
  obtain ⟨ws, hws, hread⟩ := bind_eq_ok.mp hcold
  have hp : PageMap.empty.install ws p = some data := by
    unfold PageMap.readPresent at hread
    split at hread
    · cases hread
      assumption
    · cases hread
  rw [fullGroupInstall_eq] at hws
  cases hi : groupInstall cfg m b gid with
  | error e =>
    rw [hi] at hws
    cases hws
  | ok r =>
    rw [hi] at hws
    cases r with
    | none =>
      cases hws
      cases hp
    | some i =>
      cases hws
      exact ⟨i, rfl, hp⟩

theorem localOverride_eq (cfg : CodecConfig) (m : Manifest) (b : Backend) (gid frameIdx : Nat)
    (ovr : SubframeOverride) (c : PageMap) :
    ReadPaths.localOverride cfg m b gid c frameIdx ovr =
      (overrideInstall cfg m b gid frameIdx ovr).map fun is => pagesOf m.pageSize is c := by
  unfold ReadPaths.localOverride overrideInstall
  cases b.getPageGroup ovr.key with
  | none => rfl
  | some object =>
    dsimp only
    cases cfg.decodeSeekableSubchunk (aadOverrideFrame gid frameIdx) object with
    | error e => rfl
    | ok decompressed =>
      dsimp only [ReadPaths.frameInstall]
      split
      · rfl
      · split
        · rfl
        · rfl

/-- The overrides of the local path, written one after the other. -/
theorem foldlM_localOverride (cfg : CodecConfig) (m : Manifest) (b : Backend) (gid : Nat)
    (ovs : List (Sigma fun _ : Nat => SubframeOverride)) (c : PageMap) :
    ovs.foldlM (fun c ov => ReadPaths.localOverride cfg m b gid c ov.1 ov.2) c =
      (ovs.mapM fun ov => overrideInstall cfg m b gid ov.1 ov.2).map fun iss =>
        pagesOf m.pageSize iss.flatten c := by
  induction ovs generalizing c with
  | nil => rfl
  | cons ov ovs ih =>
    rw [List.foldlM_cons, List.mapM_cons, localOverride_eq]
    cases overrideInstall cfg m b gid ov.1 ov.2 with
    | error e => rfl
    | ok is =>
      show ovs.foldlM _ (pagesOf m.pageSize is c) = _
      rw [ih]
      cases ovs.mapM fun ov => overrideInstall cfg m b gid ov.1 ov.2 with
      | error e => rfl
      | ok iss =>
        show Except.ok (pagesOf m.pageSize iss.flatten (pagesOf m.pageSize is c)) =
          Except.ok (pagesOf m.pageSize (is ++ iss.flatten) c)
        rw [pagesOf, pagesOf, pagesOf, List.foldl_append]

/-- What a local read from an empty cache gets comes from the fetch. -/
theorem localInstalls_of_cold {cfg : CodecConfig} {m : Manifest} {b : Backend} {p : Nat} {data : Bytes}
    {loc : PageLocation} (hlt : p < m.pageCount) (hloc : m.pageLocation p = some loc)
    (hcold : ReadPaths.localRead cfg m b p = .ok data) :
    ∃ is, localInstalls cfg m b loc.groupId = .ok (some is) ∧
      pagesOf m.pageSize is PageMap.empty p = some data := by
  simp only [ReadPaths.localRead, if_neg (Nat.not_le.mpr hlt), hloc] at hcold
  cases hobject : (m.groupKey loc.groupId).bind b.getPageGroup with
  | none =>
    simp only [hobject] at hcold
    cases hcold
  | some object =>
    cases hbulk : ReadPaths.decodeBase cfg m loc.groupId object with
    | error e =>
      simp only [hobject, hbulk] at hcold
      cases hcold
    | ok decoded =>
      simp only [hobject, hbulk] at hcold
      simp only [localInstalls, hobject, hbulk]
      obtain ⟨c, hc, hread⟩ := bind_eq_ok.mp hcold
      have hp : c p = some data := by
        unfold PageMap.readPresent at hread
        split at hread
        · cases hread
          assumption
        · cases hread
      unfold ReadPaths.localOverrides at hc
      split at hc
      · rename_i hspf
        rw [foldlM_localOverride] at hc
        rw [if_pos hspf]
        cases hovs : (m.overrides loc.groupId).entries.mapM fun ov =>
            overrideInstall cfg m b loc.groupId ov.1 ov.2 with
        | error e =>
          rw [hovs] at hc
          cases hc
        | ok iss =>
          rw [hovs] at hc
          cases hc
          exact ⟨_, rfl, hp⟩
      · rename_i hspf
        cases hc
        rw [if_neg hspf]
        exact ⟨_, rfl, hp⟩

section Fetch

variable {c : GroupCache} {stored : PageMap} {gid p : Nat} {is : List Install} {l : LazyCheck}
  {data : Bytes}

theorem FileInv.written (hc : k.codec.codecs.Lawful) (hs : k.codec.FrameSized)
    (h : FileInv k c.toCacheFile stored) (gid : Nat) (is : List Install) :
    FileInv k (written k c gid is).toCacheFile (pagesOf k.pageSize is stored) := by
  induction is generalizing c stored with
  | nil => exact h
  | cons i is ih => exact ih (h.writePagesScattered hc hs i.pageNums i.data gid i.start)

/-- A fetched page is in the cache, and its bytes are the last ones stored. -/
theorem written_of_pagesOf {m : PageMap} (hsub : m p = some data → c.isPresent k p = true)
    (hp : pagesOf k.pageSize is m p = some data) : (written k c gid is).isPresent k p = true := by
  induction is generalizing c m with
  | nil => exact hsub hp
  | cons i is ih =>
    refine ih (c := c.writePagesScattered k i.pageNums i.data gid i.start)
      (m := m.install (PageMap.scatter k.pageSize i.pageNums i.data)) (fun hst => ?_) hp
    refine (CacheFile.isPresent_writePagesScattered i.data).mpr ?_
    by_cases hmem : p ∈ i.pageNums.take (i.data.length / k.pageSize)
    · exact .inl hmem
    · rw [PageMap.install_of_notMem (by rwa [PageMap.map_fst_scatter])] at hst
      exact .inr (hsub hst)

/-- A page has the bytes that are installed, or the ones it had. -/
theorem install_apply (ws : List (Nat × Bytes)) (st : PageMap) (p : Nat) :
    st.install ws p = (PageMap.empty.install ws p).or (st p) := by
  induction ws generalizing st with
  | nil => rfl
  | cons w ws ih =>
    have hupdate : Function.update st w.1 (some w.2) p =
        (Function.update PageMap.empty w.1 (some w.2) p).or (st p) := by
      by_cases hw : p = w.1
      · simp [hw]
      · simp [hw, PageMap.empty]
    calc st.install (w :: ws) p
        = (PageMap.empty.install ws p).or (Function.update st w.1 (some w.2) p) := ih _
      _ = ((PageMap.empty.install ws p).or (Function.update PageMap.empty w.1 (some w.2) p)).or
            (st p) := by rw [hupdate, Option.or_assoc]
      _ = (PageMap.empty.install (w :: ws) p).or (st p) := by rw [← ih]; rfl

theorem pagesOf_apply (pageSize : Nat) (is : List Install) (st : PageMap) (p : Nat) :
    pagesOf pageSize is st p = (pagesOf pageSize is PageMap.empty p).or (st p) := by
  induction is generalizing st with
  | nil => rfl
  | cons i is ih =>
    let ws := PageMap.scatter pageSize i.pageNums i.data
    calc pagesOf pageSize (i :: is) st p
        = (pagesOf pageSize is PageMap.empty p).or (st.install ws p) := ih _
      _ = ((pagesOf pageSize is PageMap.empty p).or (PageMap.empty.install ws p)).or (st p) := by
          rw [install_apply ws st, Option.or_assoc]
      _ = (pagesOf pageSize (i :: is) PageMap.empty p).or (st p) := by rw [← ih]; rfl

/-! The check leaves the layout alone. -/

theorem layout_written (c : GroupCache) (gid : Nat) (is : List Install) :
    (written k c gid is).groupPageNums = c.groupPageNums ∧
      (written k c gid is).subChunkPageNums = c.subChunkPageNums := by
  induction is generalizing c with
  | nil => exact ⟨rfl, rfl⟩
  | cons i is ih => exact ih (c.writePagesScattered k i.pageNums i.data gid i.start)

theorem subChunkPageNums_evictGroups (c : GroupCache) (gids : List Nat) :
    (c.evictGroups k gids).subChunkPageNums = c.subChunkPageNums := by
  induction gids generalizing c with
  | nil => rfl
  | cons g gids ih => exact ih (c.evictGroup k g)

theorem LazyCheck.Spares.isPresent (hspares : l.Spares c p) (h : FileInv k c.toCacheFile stored)
    (hp : c.isPresent k p = true) : (l.apply k c).isPresent k p = true := by
  have hexpired : (c.evictExpired k l.expired).isPresent k p = true :=
    (GroupCache.isPresent_evictGroups l.expired).mpr ⟨hp, hspares.1⟩
  have htrimmed : ((c.evictExpired k l.expired).evictToBudget k l.victims).isPresent k p = true := by
    refine (GroupCache.isPresent_evictToBudget l.victims).mpr ⟨hexpired, fun id hid _ => ?_⟩
    show p ∉ (c.evictGroups k l.expired).subChunkPageNums id
    rw [subChunkPageNums_evictGroups]
    exact hspares.2 id hid
  unfold LazyCheck.apply
  dsimp only
  split
  · exact (((h.evictGroups l.expired).evictToBudget (c := c.evictExpired k l.expired)
      l.victims)).isPresent_compact htrimmed
  · exact htrimmed

theorem FileInv.lazyCheck (h : FileInv k c.toCacheFile stored) (l : LazyCheck) :
    FileInv k (l.apply k c).toCacheFile stored := by
  have htrimmed : FileInv k ((c.evictExpired k l.expired).evictToBudget k l.victims).toCacheFile stored :=
    FileInv.evictToBudget (c := c.evictExpired k l.expired) (h.evictGroups l.expired) l.victims
  unfold LazyCheck.apply
  dsimp only
  split
  · exact htrimmed.compact
  · exact htrimmed

/-- A fetched page that the lazy check spares is read back. -/
theorem read_fetched (gid : Nat) (hc : k.codec.codecs.Lawful) (hs : k.codec.FrameSized)
    (h : FileInv k c.toCacheFile stored) (hp : pagesOf k.pageSize is PageMap.empty p = some data)
    (hspares : l.Spares c p) :
    (fetched k c gid is l).isPresent k p = true ∧ (fetched k c gid is l).readPage k p = .ok data := by
  have hwritten : FileInv k (written k c gid is).toCacheFile (pagesOf k.pageSize is stored) :=
    h.written hc hs gid is
  have hpresent : (written k c gid is).isPresent k p = true :=
    written_of_pagesOf (m := PageMap.empty) (by intro hst; cases hst) hp
  have hstored : pagesOf k.pageSize is stored p = some data := by
    rw [pagesOf_apply, hp]
    rfl
  have hspares' : l.Spares ((written k c gid is).markGroupPresent gid) p := by
    have hlayout := layout_written (k := k) c gid is
    refine ⟨fun g hg => ?_, fun id hid => ?_⟩
    · show p ∉ (written k c gid is).groupPageNums g
      rw [hlayout.1]
      exact hspares.1 g hg
    · show p ∉ (written k c gid is).subChunkPageNums id
      rw [hlayout.2]
      exact hspares.2 id hid
  have hafter : (fetched k c gid is l).isPresent k p = true :=
    hspares'.isPresent (c := (written k c gid is).markGroupPresent gid) hwritten hpresent
  have hinv : FileInv k (fetched k c gid is l).toCacheFile (pagesOf k.pageSize is stored) :=
    FileInv.lazyCheck (c := (written k c gid is).markGroupPresent gid) hwritten l
  obtain ⟨data', hstored', hlen, hdisk⟩ := hinv.cache p hafter
  obtain rfl : data = data' := Option.some.inj (hstored.symm.trans hstored')
  exact ⟨hafter, hdisk.readPage hc hlen⟩

end Fetch

/-- The whole-group path of a page whose group is not Present. -/
theorem legacyRead_of_cold (hc : k.codec.codecs.Lawful) (hs : k.codec.FrameSized) {cfg : CodecConfig}
    {b : Backend} {gid p : Nat} {l : LazyCheck} {stored : PageMap} {data : Bytes}
    (hfile : FileInv k s.cache.toCacheFile stored) (hps : s.manifest.pageSize = k.pageSize)
    (hspares : l.Spares s.cache p) (hstate : s.cache.groupState gid ≠ .present)
    (hcold : ReadPaths.fullGroupRead cfg s.manifest b gid p = .ok data) :
    legacyRead cfg k s b gid p l = .ok data := by
  obtain ⟨i, hi, hp⟩ := groupInstall_of_cold hcold
  rw [hps] at hp
  obtain ⟨hpresent, hread⟩ := read_fetched gid hc hs hfile hp hspares
  unfold GroupPresence.legacyRead
  simp only [if_neg hstate, hi, ok_bind, if_pos hpresent]
  exact hread

/-- A page that is absent, in a group that is not Present, is read as from an empty cache. -/
theorem read_of_cold (hc : k.codec.codecs.Lawful) (hs : k.codec.FrameSized) {cfg : CodecConfig}
    {mode : Mode} {b : Backend} {h p : Nat} {l : LazyCheck} {stored : PageMap} {data : Bytes}
    {loc : PageLocation} (hfile : FileInv k s.cache.toCacheFile stored)
    (hps : s.manifest.pageSize = k.pageSize) (hspares : l.Spares s.cache p)
    (hclean : p ∉ s.dirty h) (hlt : p < s.manifest.pageCount)
    (hloc : s.manifest.pageLocation p = some loc) (habsent : s.present k p ≠ true)
    (hstate : s.cache.groupState loc.groupId ≠ .present)
    (hcold : cold cfg mode s.manifest b p = .ok data) : read cfg k mode s b h p l = .ok data := by
  have hlegacy : ReadPaths.fullGroupRead cfg s.manifest b loc.groupId p = .ok data →
      legacyRead cfg k s b loc.groupId p l = .ok data :=
    legacyRead_of_cold hc hs hfile hps hspares hstate
  unfold read
  rw [if_neg hclean, if_neg (Nat.not_le.mpr hlt)]
  simp only [hloc, if_neg habsent]
  cases mode with
  | localGroups =>
    obtain ⟨is, his, hp⟩ := localInstalls_of_cold hlt hloc hcold
    rw [hps] at hp
    obtain ⟨hpresent, hread⟩ := read_fetched loc.groupId hc hs hfile hp hspares
    unfold localRead
    simp only [his, ok_bind, if_pos hpresent]
    exact hread
  | scan =>
    simp only [cold, ReadPaths.scanRead, if_neg (Nat.not_le.mpr hlt), hloc] at hcold
    exact hlegacy hcold
  | frames =>
    simp only [cold, ReadPaths.coldRead, if_neg (Nat.not_le.mpr hlt), hloc] at hcold
    dsimp only
    split at hcold
    · rename_i hfr
      rw [if_pos hfr]
      obtain ⟨r, hr, hdata⟩ := bind_eq_ok.mp hcold
      rw [hr, ok_bind]
      cases r with
      | some d => exact hdata
      | none => exact hlegacy hdata
    · rename_i hfr
      rw [if_neg hfr]
      exact hlegacy hcold

theorem Inv.readable (hc : k.codec.codecs.Lawful) (hs : k.codec.FrameSized) (h : Inv k s) :
    Readable k s := by
  intro cfg mode b hd p l hlt hcold hspares
  by_cases hdirty : p ∈ s.dirty hd
  · unfold read
    rw [if_pos hdirty, if_pos (h.dirty hd p hdirty)]
    exact h.file.readPage hc (h.dirty hd p hdirty)
  cases hloc : s.manifest.pageLocation p with
  | none =>
    unfold read
    rw [if_neg hdirty, if_neg (Nat.not_le.mpr hlt)]
    simp only [hloc]
    exact ⟨_, rfl⟩
  | some loc =>
    by_cases hp : s.present k p = true
    · unfold read
      rw [if_neg hdirty, if_neg (Nat.not_le.mpr hlt)]
      simp only [hloc, if_pos hp]
      exact h.file.readPage hc hp
    · obtain ⟨data, hdata⟩ := hcold
      -- a Present group would have the page
      have hstate : s.cache.groupState loc.groupId ≠ .present := fun hg =>
        hp (h.held _ (.inl hg) p ⟨List.mem_of_getElem? (h.indexed.located hloc), hlt⟩)
      exact ⟨data, read_of_cold hc hs h.file h.pageSize hspares hdirty hlt hloc hp hstate hdata⟩

/-! ### Steps -/

/-- Another manifest over the same cache. -/
theorem Inv.adopt (h : Inv k s) {s' : State} (ha : Adopts k s s'.manifest)
    (hfile : s'.cache.toCacheFile = s.cache.toCacheFile) (hstates : s'.cache.states = s.cache.states)
    (hinst : s'.installing = s.installing) (hstored : s'.stored = s.stored)
    (hdirty : ∀ x, ∀ p ∈ s'.dirty x, p ∈ s.dirty x) : Inv k s' := by
  have hpresent : ∀ p, s'.present k p = s.present k p := by
    intro p
    unfold State.present
    rw [hfile]
  refine ⟨fun gid hg p hp => ?_, fun x p hp => ?_, ?_, ?_, ha.indexed, ha.pageSize⟩
  · have hg' : Held s gid := by
      unfold Held GroupCache.groupState at hg ⊢
      rwa [hstates, hinst] at hg
    rw [hpresent]
    rcases ha.cached gid hg' p hp with hold | hp'
    · exact h.held gid hg' p hold
    · exact hp'
  · rw [hpresent]
    exact h.dirty x p (hdirty x p hp)
  · rw [hfile, hstored]
    exact h.file
  · rw [hfile]
    exact h.sized

theorem Inv.adopts_self (h : Inv k s) : Adopts k s s.manifest :=
  ⟨h.indexed, h.pageSize, fun _ _ _ hp => .inl hp⟩

/-- An eviction: the groups of `gids` lose their state, what is needed stays. -/
theorem Inv.evict (h : Inv k s) {c : GroupCache} (gids : List Nat)
    (hstate : ∀ gid, c.groupState gid = .present → s.cache.groupState gid = .present ∧ gid ∉ gids)
    (hkeep : ∀ p, Needed s gids p → s.present k p = true → c.isPresent k p = true)
    (hfile : FileInv k c.toCacheFile s.stored) (hsized : CacheFile.Sized c.toPresence) :
    Inv k { s with cache := c } := by
  refine ⟨fun gid hg p hp => ?_, fun x p hp => ?_, hfile, hsized, h.indexed, h.pageSize⟩
  · rcases hg with hg | hg
    · obtain ⟨hs, hnot⟩ := hstate gid hg
      exact hkeep p (.inr ⟨gid, hp, .inr ⟨hs, hnot⟩⟩) (h.held gid (.inl hs) p hp)
    · exact hkeep p (.inr ⟨gid, hp, .inl hg⟩) (h.held gid (.inr hg) p hp)
  · exact hkeep p (.inl ⟨x, hp⟩) (h.dirty x p hp)

theorem Inv.evictSubChunks (h : Inv k s) {ids : List SubChunkId}
    (hsafe : ∀ id ∈ ids, ∀ p ∈ s.cache.subChunkPageNums id, ¬ Needed s [] p)
    (hsized : CacheFile.Sized (s.cache.evictSubChunks k ids).toPresence) :
    Inv k { s with cache := s.cache.evictSubChunks k ids } := by
  refine h.evict [] (fun gid hg => ?_) (fun p hn hp => ?_) (h.file.evictSubChunks ids) hsized
  · rw [GroupCache.groupState_evictSubChunks] at hg
    exact ⟨hg, List.not_mem_nil⟩
  · exact (GroupCache.isPresent_evictSubChunks ids).mpr ⟨hp, fun id hid hmem => hsafe id hid p hmem hn⟩

theorem Inv.evictToBudget (h : Inv k s) {ids : List SubChunkId}
    (hsafe : ∀ id ∈ ids, ∀ p ∈ s.cache.subChunkPageNums id, ¬ Needed s [] p)
    (hsized : CacheFile.Sized (s.cache.evictToBudget k ids).toPresence) :
    Inv k { s with cache := s.cache.evictToBudget k ids } := by
  refine h.evict [] (fun gid hg => ?_) (fun p hn hp => ?_) (h.file.evictToBudget ids) hsized
  · rw [GroupCache.groupState_evictToBudget] at hg
    exact ⟨hg, List.not_mem_nil⟩
  · exact (GroupCache.isPresent_evictToBudget ids).mpr
      ⟨hp, fun id hid _ hmem => hsafe id hid p hmem hn⟩

theorem Inv.evictGroups (h : Inv k s) {gids : List Nat} {access : List Nat}
    (hsafe : ∀ gid ∈ gids, ∀ p ∈ s.cache.groupPageNums gid, ¬ Needed s gids p)
    (hsized : CacheFile.Sized (s.cache.evictGroups k gids).toPresence) :
    Inv k { s with cache := { s.cache.evictGroups k gids with groupAccess := access } } := by
  refine h.evict gids (fun gid hg => ?_) (fun p hn hp => ?_) (h.file.evictGroups gids) hsized
  · have hg' : (s.cache.evictGroups k gids).groupState gid = .present := hg
    rw [GroupCache.groupState_evictGroups] at hg'
    split at hg'
    · cases hg'
    · exact ⟨hg', ‹_›⟩
  · exact (GroupCache.isPresent_evictGroups gids).mpr ⟨hp, fun gid hgid hmem => hsafe gid hgid p hmem hn⟩

theorem bitmap_of_isPresent {t : Presence} {p : Nat} (h : t.isPresent k p = true) : t.bitmap p = true := by
  unfold Presence.isPresent at h
  exact (Bool.and_eq_true_iff.mp h).1

/-- A `clear_cache`: the pages it keeps, the groups it leaves Present. -/
theorem Inv.clear (h : Inv k s) {live keep : List Nat} (hk : Keeps k s live keep) {c : GroupCache}
    (hpresent : ∀ p, (p ∈ keep ∧ p < s.cache.capacity ∧
      (k.compressed = true → ∃ e, s.cache.index.lookup p = some e)) → c.isPresent k p = true)
    (hstate : ∀ gid, c.groupState gid = .present → gid ∈ live)
    (hfile : FileInv k c.toCacheFile s.stored) (hsized : CacheFile.Sized c.toPresence) :
    Inv k { s with cache := c } := by
  -- what is kept and was there is still there
  have hkept : ∀ p ∈ keep, s.present k p = true → c.isPresent k p = true := by
    intro p hkeep hp
    refine hpresent p ⟨hkeep, h.sized p (bitmap_of_isPresent hp), fun hcomp => ?_⟩
    exact ((CacheFile.isPresent_compressed hcomp).mp hp).2
  refine ⟨fun gid hg p hp => ?_, fun x p hp => ?_, hfile, hsized, h.indexed, h.pageSize⟩
  · obtain ⟨hkeep, hp'⟩ := hk.groups gid (hg.imp (hstate gid) id) p hp
    exact hkept p hkeep hp'
  · exact hkept p (hk.dirty x p hp) (h.dirty x p hp)

/-- Pages are added; a group that is Present afterwards was, or has its pages. -/
theorem Inv.fill (h : Inv k s) {c : GroupCache} {inst : List Nat} {st : PageMap}
    (hmono : ∀ p, s.present k p = true → c.isPresent k p = true)
    (hheld : ∀ gid, c.groupState gid = .present ∨ gid ∈ inst →
      Held s gid ∨ ∀ p, Listed s.manifest gid p → c.isPresent k p = true)
    (hfile : FileInv k c.toCacheFile st) (hsized : CacheFile.Sized c.toPresence) :
    Inv k { s with cache := c, installing := inst, stored := st } := by
  refine ⟨fun gid hg p hp => ?_, fun x p hp => hmono p (h.dirty x p hp), hfile, hsized, h.indexed, h.pageSize⟩
  rcases hheld gid hg with hold | hnew
  · exact hmono p (h.held gid hold p hp)
  · exact hnew p hp

theorem inv_write (hc : k.codec.codecs.Lawful) (hs : k.codec.FrameSized) (h : Inv k s) {x p : Nat}
    {data : Bytes} (hlen : data.length = k.pageSize)
    (hsized : CacheFile.Sized (s.cache.writePage k p data).toPresence) :
    Inv k { s with
      cache := s.cache.writePage k p data
      dirty := Function.update s.dirty x ((s.dirty x).insert p)
      stored := Function.update s.stored p (some data) } := by
  have hpresent : ∀ q, (s.cache.writePage k p data).isPresent k q = true ↔
      q = p ∨ s.cache.isPresent k q = true :=
    fun q => CacheFile.isPresent_writePage data
  refine ⟨fun gid hg q hq => ?_, fun y q hq => ?_, h.file.writePage hc hs hlen, hsized, h.indexed, h.pageSize⟩
  · exact (hpresent q).mpr (.inr (h.held gid hg q hq))
  · have hq' : q ∈ Function.update s.dirty x ((s.dirty x).insert p) y := hq
    rw [Function.update_apply] at hq'
    split at hq'
    · rcases List.mem_insert_iff.mp hq' with rfl | hold
      · exact (hpresent q).mpr (.inl rfl)
      · exact (hpresent q).mpr (.inr (h.dirty x q hold))
    · exact (hpresent q).mpr (.inr (h.dirty y q hq'))

/-- The pages of a fetch. -/
theorem inv_install (hc : k.codec.codecs.Lawful) (hs : k.codec.FrameSized) (h : Inv k s)
    {ps inst : List Nat} {data : Bytes} {gid start : Nat}
    (hinst : ∀ g ∈ inst, g ∈ s.installing ∨ ∀ p, Listed s.manifest g p →
      p ∈ ps.take (data.length / k.pageSize) ∨ s.present k p = true)
    (hsized : CacheFile.Sized (s.cache.writePagesScattered k ps data gid start).toPresence) :
    Inv k { s with
      cache := s.cache.writePagesScattered k ps data gid start
      installing := inst
      stored := s.stored.install (PageMap.scatter k.pageSize ps data) } := by
  have hpresent : ∀ q, (s.cache.writePagesScattered k ps data gid start).isPresent k q = true ↔
      q ∈ ps.take (data.length / k.pageSize) ∨ s.cache.isPresent k q = true :=
    fun q => CacheFile.isPresent_writePagesScattered data
  refine h.fill (fun q hq => (hpresent q).mpr (.inr hq)) (fun g hg => ?_) ?_ hsized
  · rcases hg with hg | hg
    · exact .inl (.inl hg)
    · exact (hinst g hg).imp .inr fun hall q hq => (hpresent q).mpr (hall q hq)
  · exact h.file.writePagesScattered hc hs ps data gid start

theorem inv_fallback (hc : k.codec.codecs.Lawful) (hs : k.codec.FrameSized) (h : Inv k s) {p gid : Nat}
    {data : Bytes} (hlen : data.length = k.pageSize)
    (hsafe : ∀ q, q ≠ p → Listed s.manifest gid q → s.present k q = true)
    (hsized : CacheFile.Sized ((s.cache.writePage k p data).markGroupPresent gid).toPresence) :
    Inv k { s with
      cache := (s.cache.writePage k p data).markGroupPresent gid
      stored := Function.update s.stored p (some data) } := by
  have hpresent : ∀ q, ((s.cache.writePage k p data).markGroupPresent gid).isPresent k q = true ↔
      q = p ∨ s.cache.isPresent k q = true :=
    fun q => CacheFile.isPresent_writePage data
  refine h.fill (fun q hq => (hpresent q).mpr (.inr hq)) (fun g hg => ?_)
    (h.file.writePage hc hs hlen) hsized
  rcases hg with hg | hg
  · have hg' : (growSet .none s.cache.states gid .present).getD g .none = .present := hg
    rw [getD_growSet] at hg'
    split at hg'
    · rename_i heq
      subst heq
      refine .inr fun q hq => (hpresent q).mpr ?_
      by_cases hqp : q = p
      · exact .inl hqp
      · exact .inr (hsafe q hqp hq)
    · exact .inl (.inl hg')
  · exact .inl (.inr hg)

theorem mark_foldl_of_marked {t : Presence} {ps : List Nat} (h : ∀ p ∈ ps, t.bitmap p = true) :
    (ps.foldl Presence.mark t).bitmap = t.bitmap ∧ (ps.foldl Presence.mark t).index = t.index ∧
      (ps.foldl Presence.mark t).nextOffset = t.nextOffset := by
  induction ps generalizing t with
  | nil => exact ⟨rfl, rfl, rfl⟩
  | cons p ps ih =>
    have hsame : (t.mark p).bitmap = t.bitmap := by
      have hp := h p List.mem_cons_self
      exact (congrArg (Function.update t.bitmap p) hp.symm).trans (Function.update_eq_self p t.bitmap)
    obtain ⟨h1, h2, h3⟩ := ih fun q hq => by
      rw [hsame]
      exact h q (List.mem_cons_of_mem _ hq)
    exact ⟨h1.trans hsame, h2, h3⟩

theorem inv_replay (hc : k.codec.codecs.Lawful) (hs : k.codec.FrameSized) (h : Inv k s)
    {ws : List (Nat × Bytes)} (hlen : ∀ w ∈ ws, w.2.length = k.pageSize)
    (hsafe : Safe k s (.replay ws))
    (hsized : CacheFile.Sized ((s.writePages k ws).cache.markPagesPresent (ws.map (·.1))).toPresence) :
    Inv k { s.writePages k ws with
      cache := (s.writePages k ws).cache.markPagesPresent (ws.map (·.1)) } := by
  have hwritten : ∀ q, (s.writePages k ws).cache.isPresent k q = true ↔
      q ∈ ws.map (·.1) ∨ s.cache.isPresent k q = true :=
    fun q => CacheFile.isPresent_foldl_writePage ws
  -- the bits are there already
  have hmarked : ∀ q ∈ ws.map (·.1), (s.writePages k ws).cache.bitmap q = true :=
    fun q hq => bitmap_of_isPresent ((hwritten q).mpr (.inl hq))
  obtain ⟨hbit, hidx, hoff⟩ := mark_foldl_of_marked hmarked
  have hpresent : ∀ q, ((s.writePages k ws).cache.markPagesPresent (ws.map (·.1))).isPresent k q = true ↔
      q ∈ ws.map (·.1) ∨ s.cache.isPresent k q = true := by
    intro q
    rw [← hwritten q]
    show ((ws.map (·.1)).foldl Presence.mark (s.writePages k ws).cache.toPresence).isPresent k q = true ↔ _
    unfold Presence.isPresent
    rw [hbit, hidx]
  have hfile : FileInv k (s.writePages k ws).cache.toCacheFile (s.stored.install ws) :=
    h.file.writePages hc hs hlen
  refine h.fill (fun q hq => (hpresent q).mpr (.inr hq)) (fun g hg => ?_) ?_ hsized
  · rcases hg with hg | hg
    · rcases GroupCache.present_markPagesPresent hg with hold | ⟨p, hp, rfl⟩
      · exact .inl (.inl hold)
      · obtain ⟨w, hw, rfl⟩ := List.mem_map.mp hp
        exact .inr fun q hq => (hpresent q).mpr (hsafe w hw q hq)
    · exact .inl (.inr hg)
  · refine hfile.restrict rfl (fun q hq => ?_) (fun q e he => ?_) fun hk => ?_
    · exact (hwritten q).mpr ((hpresent q).mp hq)
    · have he' : ((ws.map (·.1)).foldl Presence.mark (s.writePages k ws).cache.toPresence).index.lookup q =
          some e := he
      rwa [hidx] at he'
    · refine (hfile.laid hk).restrict hoff fun q e he => ?_
      have he' : ((ws.map (·.1)).foldl Presence.mark (s.writePages k ws).cache.toPresence).index.lookup q =
          some e := he
      rw [hidx] at he'
      refine ⟨he', ?_⟩
      show ((ws.map (·.1)).foldl Presence.mark (s.writePages k ws).cache.toPresence).bitmap q = true
      rw [hbit]
      exact (hfile.laid hk).marked q e he'

theorem inv_truncate (h : Inv k s) {x n : Nat} {logs flushing : List (List Nat)}
    (hsafe : Safe k s (.truncate x n))
    (hsized : CacheFile.Sized (s.cache.truncateTo k n).toPresence) :
    Inv k { s with
      cache := s.cache.truncateTo k n
      dirty := Function.update s.dirty x ((s.dirty x).filter (· < n))
      logs := logs, flushing := flushing } := by
  obtain ⟨hcount, hother, hcut⟩ := hsafe
  have hpresent : ∀ q, (s.cache.truncateTo k n).isPresent k q = true ↔
      s.cache.isPresent k q = true ∧ q < n :=
    fun q => CacheFile.isPresent_truncateToPageCount n
  refine ⟨fun gid hg q hq => ?_, fun y q hq => ?_, h.file.truncate hcut, hsized, h.indexed, h.pageSize⟩
  · have hg' : Held s gid := hg.imp GroupCache.present_truncateTo id
    exact (hpresent q).mpr ⟨h.held gid hg' q hq, hq.2.trans_le hcount⟩
  · have hq' : q ∈ Function.update s.dirty x ((s.dirty x).filter (· < n)) y := hq
    rw [Function.update_apply] at hq'
    split at hq'
    · obtain ⟨hmem, hlt⟩ := List.mem_filter.mp hq'
      exact (hpresent q).mpr ⟨h.dirty x q hmem, of_decide_eq_true hlt⟩
    · rename_i hyx
      exact (hpresent q).mpr ⟨h.dirty y q hq', hother y hyx q hq'⟩

/-- A claim that was not Present. -/
theorem present_of_claimed {c c' : GroupCache} {gid g : Nat} (hc : c.tryClaimGroup gid = some c')
    (hg : c'.groupState g = .present) : c.groupState g = .present := by
  unfold GroupCache.tryClaimGroup at hc
  split at hc
  · cases hc
    have hg' : (growSet .none c.states gid .fetching).getD g .none = .present := hg
    rw [getD_growSet] at hg'
    split at hg'
    · cases hg'
    · exact hg'
  · cases hc

theorem file_of_claimed {c c' : GroupCache} {gid : Nat} (hc : c.tryClaimGroup gid = some c') :
    c'.toCacheFile = c.toCacheFile := by
  unfold GroupCache.tryClaimGroup at hc
  split at hc
  · cases hc
    rfl
  · cases hc

theorem present_of_unclaimed {c : GroupCache} {gid g : Nat}
    (hg : (c.unclaimIfFetching gid).groupState g = .present) : c.groupState g = .present := by
  unfold GroupCache.unclaimIfFetching at hg
  split at hg
  · have hg' : (c.states.set gid .none).getD g .none = .present := hg
    rw [GroupCache.getD_states_set] at hg'
    split at hg'
    · cases hg'
    · exact hg'
  · exact hg

theorem file_unclaimed (c : GroupCache) (gid : Nat) :
    (c.unclaimIfFetching gid).toCacheFile = c.toCacheFile := by
  unfold GroupCache.unclaimIfFetching
  split <;> rfl

theorem liveGroups_eq (s : State) : liveGroups s = 0 :: s.pendingGroupPages.map (·.1) := by
  simp [liveGroups, State.pendingGroupPages, Function.comp_def]

/-- A group that is claimed is not present. -/
theorem inv_claim (h : Inv k s) {gid : Nat} {c : GroupCache} (hcl : s.cache.tryClaimGroup gid = some c)
    (hsized : CacheFile.Sized c.toPresence) : Inv k { s with cache := c } := by
  have hfile := file_of_claimed hcl
  refine h.evict [] (fun g hg => ⟨present_of_claimed hcl hg, List.not_mem_nil⟩) (fun p _ hp => ?_) ?_
    hsized
  · rw [hfile]
    exact hp
  · rw [hfile]
    exact h.file

/-- The group that is marked has all its pages: they were installed before. -/
theorem inv_finish (h : Inv k s) {gid : Nat} (hmem : gid ∈ s.installing)
    (hsized : CacheFile.Sized (s.cache.markGroupPresent gid).toPresence) :
    Inv k { s with cache := s.cache.markGroupPresent gid, installing := s.installing.filter (· ≠ gid) } := by
  refine h.fill (fun p hp => hp) (fun g hg => .inl ?_) h.file hsized
  rcases hg with hg | hg
  · have hg' : (growSet .none s.cache.states gid .present).getD g .none = .present := hg
    rw [getD_growSet] at hg'
    split at hg'
    · rename_i heq
      subst heq
      exact .inr hmem
    · exact .inl hg'
  · exact .inr (List.mem_filter.mp hg).1

theorem inv_abandon (h : Inv k s) (gid : Nat)
    (hsized : CacheFile.Sized (s.cache.unclaimIfFetching gid).toPresence) :
    Inv k { s with
      cache := s.cache.unclaimIfFetching gid, installing := s.installing.filter (· ≠ gid) } := by
  have hfile := file_unclaimed s.cache gid
  refine h.fill (fun p hp => ?_) (fun g hg => .inl (hg.imp present_of_unclaimed fun hm =>
    (List.mem_filter.mp hm).1)) ?_ hsized
  · rw [hfile]
    exact hp
  · rw [hfile]
    exact h.file

theorem step_inv (hc : k.codec.codecs.Lawful) (hs : k.codec.FrameSized) {e : Event} {s' : State}
    (h : Inv k s) (hsafe : Safe k s e) (hstep : step k s e = some s') : Inv k s' := by
  have hsized : CacheFile.Sized s'.cache.toPresence := sized_step h.sized hstep
  cases e with
  | write x p data =>
    obtain ⟨hlen, rfl⟩ := write_inv hstep
    exact inv_write hc hs h hlen hsized
  | checkpoint x =>
    cases hstep
    exact h.adopt hsafe rfl rfl rfl rfl fun y p hp => mem_dirty_of_cleared hp
  | sync x m =>
    cases hstep
    exact h.adopt hsafe rfl rfl rfl rfl fun y p hp => mem_dirty_of_cleared hp
  | finishFlush m =>
    cases hstep
    exact h.adopt hsafe rfl rfl rfl rfl fun _ _ hp => hp
  | store m =>
    cases hstep
    exact h.adopt hsafe rfl rfl rfl rfl fun _ _ hp => hp
  | takeFlush =>
    obtain ⟨-, rfl⟩ := takeFlush_inv hstep
    exact h.adopt h.adopts_self rfl rfl rfl rfl fun _ _ hp => hp
  | failFlush | markInterior | markIndex | touch =>
    cases hstep
    exact h.adopt h.adopts_self rfl rfl rfl rfl fun _ _ hp => hp
  | claim gid =>
    obtain ⟨c, hcl, rfl⟩ := claim_inv hstep
    exact inv_claim h hcl hsized
  | installFrame gid start ps data =>
    cases hstep
    exact inv_install hc hs h (fun g hg => .inl hg) hsized
  | installGroup gid ps data =>
    cases hstep
    refine inv_install hc hs h (fun g hg => ?_) hsized
    rcases List.mem_cons.mp hg with rfl | hg
    · exact .inr hsafe
    · exact .inl hg
  | finish gid =>
    obtain ⟨hmem, rfl⟩ := finish_inv hstep
    exact inv_finish h hmem hsized
  | abandon gid =>
    cases hstep
    exact inv_abandon h gid hsized
  | fallback p data =>
    obtain ⟨loc, hloc, -, -, hlen, rfl⟩ := fallback_inv hstep
    exact inv_fallback hc hs h hlen (hsafe loc hloc) hsized
  | replay ws =>
    obtain ⟨hlen, rfl⟩ := replay_inv hstep
    exact inv_replay hc hs h hlen hsafe hsized
  | evictBetweenQueries x victims =>
    obtain ⟨-, rfl⟩ := evictBetweenQueries_inv hstep
    exact h.evictToBudget hsafe hsized
  | trim victims =>
    obtain ⟨-, rfl⟩ := trim_inv hstep
    exact h.evictToBudget hsafe hsized
  | expire gids =>
    obtain ⟨-, rfl⟩ := expire_inv hstep
    exact h.evictGroups hsafe hsized
  | evictOnCheckpoint =>
    cases hstep
    exact h.evictSubChunks hsafe hsized
  | evictTier tiers =>
    obtain ⟨-, rfl⟩ := evictTier_inv hstep
    exact h.evictSubChunks hsafe hsized
  | evictTree gids =>
    cases hstep
    exact h.evictGroups hsafe hsized
  | clearDataOnly =>
    cases hstep
    refine h.clear hsafe (fun p hp => (GroupCache.isPresent_clearTo _ _ [.data]).mpr hp) (fun gid hg => ?_)
      (h.file.clearTo h.sized _ [.data] hsafe.bits) hsized
    rw [liveGroups_eq]
    exact GroupCache.mem_live_of_present _ hg
  | clearInteriorOnly =>
    cases hstep
    let live := 0 :: s.pendingGroupPages.map (·.1)
    refine h.clear hsafe (fun p hp => (GroupCache.isPresent_clearTo live _ [.index, .data]).mpr hp)
      (fun gid hg => ?_) (h.file.clearTo h.sized live [.index, .data] hsafe.bits) hsized
    rw [liveGroups_eq]
    exact GroupCache.mem_live_of_present live hg
  | clearAll =>
    cases hstep
    exact h.clear hsafe (fun p hp => absurd hp.1 List.not_mem_nil)
      (fun gid hg => GroupCache.mem_live_of_present [] hg) h.file.clearCacheAll hsized
  | truncate x n =>
    cases hstep
    exact inv_truncate h hsafe hsized
  | compact =>
    cases hstep
    exact h.evict [] (fun g hg => ⟨hg, List.not_mem_nil⟩) (fun p _ hp => h.file.isPresent_compact hp)
      h.file.compact hsized

/-- From a cache with nothing in it, in every run whose events are all safe: a Present group has all of
its pages, and a page that can be read from an empty cache can be read. -/
theorem group_presence_truthful (hc : k.codec.codecs.Lawful) (hs : k.codec.FrameSized) {s' : State}
    {es : List Event} (hopen : Opened k s) (hsafe : Meets (step k) (Safe k) s es)
    (hrun : run (step k) s es = some s') : Truthful k s' ∧ Readable k s' := by
  have hinv : Inv k s' :=
    run_invariant (fun _ _ _ hi hcond hstep => step_inv hc hs hi hcond hstep) hopen.inv hsafe hrun
  exact ⟨hinv.truthful, hinv.readable hc hs⟩

/-! ### Two pages in one group -/

namespace Example

open ReadPaths.Example (page manifest backend)

/-- One page a sub-chunk. -/
def opened : State where
  cache := { pagesPerGroup := 2, subPagesPerFrame := 1, groupPages := [[0, 1]] }
  manifest := manifest

theorem opened_empty : Opened CacheRestart.Example.config opened where
  file := rfl
  states := rfl
  installing := rfl
  dirty _ := rfl
  stored := rfl
  indexed := ⟨fun h => absurd h (by decide), fun _ _ => rfl⟩
  pageSize := rfl

/-- A fetch of the group. -/
def fetch : List Event := [.claim 0, .installGroup 0 [0, 1] (page 1 ++ page 2), .finish 0]

/-- The group 0 is being fetched. -/
def claimed : State :=
  { opened with cache := { opened.cache with states := growSet .none opened.cache.states 0 .fetching } }

/-- Its pages are installed. -/
def installed : State :=
  { claimed with
    cache := claimed.cache.writePagesScattered CacheRestart.Example.config [0, 1] (page 1 ++ page 2) 0 0
    installing := 0 :: claimed.installing
    stored := claimed.stored.install (PageMap.scatter CacheRestart.Example.config.pageSize [0, 1]
      (page 1 ++ page 2)) }

/-- After the fetch. -/
def fetched : State :=
  { installed with
    cache := installed.cache.markGroupPresent 0
    installing := installed.installing.filter (· ≠ 0) }

theorem run_fetch : run (step CacheRestart.Example.config) opened fetch = some fetched := by
  refine run_cons.mpr ⟨claimed, rfl, run_cons.mpr ⟨installed, rfl, run_cons.mpr ⟨fetched, ?_, rfl⟩⟩⟩
  have hmem : 0 ∈ installed.installing := List.mem_cons_self
  simp only [step, if_pos hmem]
  rfl

/-- After the eviction of page 1. -/
def trimmed : State :=
  { fetched with cache := fetched.cache.evictToBudget CacheRestart.Example.config [⟨0, 1⟩] }

theorem step_trim : step CacheRestart.Example.config fetched (.trim [⟨0, 1⟩]) = some trimmed := by
  have hguard : ∀ id ∈ [(⟨0, 1⟩ : SubChunkId)],
      fetched.cache.Evictable unpinned fetched.cache.fetchingGroupIds id := by
    decide +kernel
  simp only [step, if_pos hguard]
  rfl

end Example

open ReadPaths.Example (page manifest backend)

/-- The group is fetched, expires and is fetched again: it is Present and has its pages. -/
theorem refetched_group_truthful : ∃ s', run (step CacheRestart.Example.config) Example.opened
      (Example.fetch ++ [.touch 0, .expire [0]] ++ Example.fetch) = some s' ∧
    s'.cache.groupState 0 = .present ∧ Truthful CacheRestart.Example.config s' ∧
    Readable CacheRestart.Example.config s' := by
  have hinstall : ∀ p, Listed manifest 0 p →
      p ∈ [0, 1].take ((page 1 ++ page 2).length / CacheRestart.Example.config.pageSize) := by
    intro p hp
    have hlen : (page 1 ++ page 2).length / CacheRestart.Example.config.pageSize = 2 := by decide +kernel
    rw [hlen]
    exact hp.1
  have hrun : run (step CacheRestart.Example.config) Example.opened
      (Example.fetch ++ [.touch 0, .expire [0]] ++ Example.fetch) = some _ := rfl
  refine ⟨_, hrun, by decide +kernel, group_presence_truthful Codecs.plain_lawful (fun _ h => by cases h)
    Example.opened_empty ?_ hrun⟩
  refine .cons trivial rfl (.cons (fun p hp => .inl (hinstall p hp)) rfl (.cons trivial rfl (.cons trivial
    rfl (.cons ?_ rfl (.cons trivial rfl (.cons (fun p hp => .inl (hinstall p hp)) rfl (.cons trivial rfl
      trivial)))))))
  -- no other group is Present when group 0 expires
  rintro gid - p - (⟨h, hd⟩ | ⟨g, -, hi | ⟨hst, hg⟩⟩)
  · cases hd
  · cases hi
  · cases g with
    | zero => exact hg List.mem_cons_self
    | succ g => cases hst

/-- The lazy trim takes page 1 of a Present group: the group is not fetched again and the page is lost. It
may run in the read that fetched the group, before the read gets to the page. -/
theorem trimmed_page_unreadable :
    run (step CacheRestart.Example.config) Example.opened (Example.fetch ++ [.trim [⟨0, 1⟩]]) =
      some Example.trimmed ∧
    Example.trimmed.cache.groupState 0 = .present ∧
    Example.trimmed.present CacheRestart.Example.config 1 = false ∧
    cold .plain .scan Example.trimmed.manifest (backend 2) 1 = .ok (page 2) ∧
    read .plain CacheRestart.Example.config .scan Example.trimmed (backend 2) 0 1 {} =
      .error (.io .notFound "page 1 in group 0 missing from remote storage") ∧
    ¬ Truthful CacheRestart.Example.config Example.trimmed ∧
    ¬ Readable CacheRestart.Example.config Example.trimmed ∧
    read .plain CacheRestart.Example.config .scan Example.opened (backend 2) 0 1
      { victims := [⟨0, 1⟩] } =
        .error (.io .notFound "page 1 in group 0 missing from remote storage") := by
  have habsent : Example.trimmed.present CacheRestart.Example.config 1 = false := by decide +kernel
  have hread : read .plain CacheRestart.Example.config .scan Example.trimmed (backend 2) 0 1 {} =
      .error (.io .notFound "page 1 in group 0 missing from remote storage") := by
    decide +kernel
  have hcold : cold .plain .scan manifest (backend 2) 1 = .ok (page 2) := by decide +kernel
  refine ⟨run_append.mpr ⟨_, Example.run_fetch, run_cons.mpr ⟨_, Example.step_trim, rfl⟩⟩,
    by decide +kernel, habsent, hcold, hread, fun htrue => ?_, fun hok => ?_, by decide +kernel⟩
  · have hp := htrue 0 (by decide +kernel) 1 ⟨by decide, by decide⟩
    rw [habsent] at hp
    cases hp
  · obtain ⟨data, hdata⟩ := hok .plain .scan (backend 2) 0 1 {} (by decide) ⟨_, hcold⟩
      ⟨by simp, by simp⟩
    rw [hread] at hdata
    cases hdata

end Turbolite.GroupPresence
