import Turbolite.Adoption
import Turbolite.CacheClears
import Turbolite.Grouping

/-!
# Turbolite.FastPath

The fast path of `read_exact_at`: a handle with no writes since its last sync whose generation is the
cache's serves a present page of the database without a look at the manifest's groups. The slow path
knows a page without a group as zeros, and evicts between two queries before it reads. Generations only
match before the first change that bumps them, since a sync keeps the generation from before its own
bump; `fast_path_agrees` says along which runs the two paths return the same bytes.
-/

namespace Turbolite.FastPath

open Blocks Runs

variable {k : CacheConfig}

/-! ### What a step on the cache brings -/

section Brings

variable (k)

/-- The pages that an event may make present. -/
def brings (s : Residency.State) : Residency.Event → List Nat
  | .write _ p _ | .fallback p _ => [p]
  | .installFrame _ _ pageNums data | .installGroup _ pageNums data =>
    pageNums.take (data.length / k.pageSize)
  | .replay writes => writes.map (·.1)
  | .clearDataOnly => s.cache.interiorPages ++ s.cache.indexPages ++
      s.pendingGroupPages.flatMap (·.2) ++ s.cache.groupZeroPages
  | .clearInteriorOnly => s.cache.interiorPages ++
      s.pendingGroupPages.flatMap (·.2) ++ s.cache.groupZeroPages
  | _ => []

/-- The manifest after an event. -/
def manifestAfter (s : Residency.State) : Residency.Event → Manifest
  | .checkpoint h => s.manifest.localCheckpoint (s.dirty h) s.cache.pagesPerGroup
  | .finishFlush m | .sync _ m | .store m => m
  | _ => s.manifest

end Brings

/-- The entries of a compaction are those it was given. -/
theorem lookup_foldl_push {es : List (Nat × CacheIndexEntry)} {s : CacheFile.Packing} {p : Nat}
    (h : ((es.foldl CacheFile.Packing.push s).index.lookup p).isSome) :
    (s.index.lookup p).isSome ∨ p ∈ es.map (·.1) := by
  induction es generalizing s with
  | nil => exact .inl h
  | cons e es ih =>
    rcases ih h with hs | hes
    · unfold CacheFile.Packing.push at hs
      split at hs
      · exact .inl hs
      · by_cases hp : p = e.1
        · exact .inr (hp ▸ List.mem_cons_self)
        · exact .inl (by rwa [AList.lookup_insert_ne hp] at hs)
    · exact .inr (List.mem_cons_of_mem _ hes)

/-- A compaction adds no page. -/
theorem isPresent_of_compacted {c : CacheFile} {p : Nat}
    (h : (c.compactCompressedCache k).isPresent k p = true) : c.isPresent k p = true := by
  cases hk : k.compressed with
  | false =>
    have hsame : c.compactCompressedCache k = c := by simp [CacheFile.compactCompressedCache, hk]
    rwa [hsame] at h
  | true =>
    obtain ⟨hbit, e, he⟩ := (CacheFile.isPresent_compressed hk).mp h
    simp only [CacheFile.compactCompressedCache, hk, if_true] at hbit he
    have hsome : ((c.packed (CacheFile.liveEntries c.index).length).index.lookup p).isSome := by
      rw [he]
      rfl
    rcases lookup_foldl_push hsome with hnone | hmem
    · cases hnone
    · obtain ⟨x, hx, rfl⟩ := List.mem_map.mp hmem
      have hl := CacheRestart.mem_liveEntries.mp (List.mem_of_mem_take hx)
      exact (CacheFile.isPresent_compressed hk).mpr ⟨hbit, x.2, hl⟩

theorem isPresent_of_marked {t : Presence} {ps : List Nat} {p : Nat}
    (h : (ps.foldl Presence.mark t).isPresent k p = true) : p ∈ ps ∨ t.isPresent k p = true := by
  induction ps generalizing t with
  | nil => exact .inr h
  | cons q ps ih =>
    rcases ih h with hmem | hq
    · exact .inl (List.mem_cons_of_mem _ hmem)
    · by_cases hpq : p = q
      · exact .inl (hpq ▸ List.mem_cons_self)
      · have hsame : (t.mark q).isPresent k p = t.isPresent k p := by
          simp [Presence.isPresent, Presence.mark, hpq]
        exact .inr (hsame ▸ hq)

/-- A page that is present after an event was present before, or the event brings it. -/
theorem present_step {s s' : Residency.State} {e : Residency.Event}
    (hstep : Residency.step k s e = some s') {p : Nat} (hp : s'.present k p = true) :
    p ∈ brings k s e ∨ s.present k p = true := by
  cases e with
  | write h q data =>
    obtain ⟨-, rfl⟩ := Residency.write_inv hstep
    exact ((CacheFile.isPresent_writePage data).mp hp).imp List.mem_singleton.mpr id
  | installFrame gid start ps data | installGroup gid ps data =>
    cases hstep
    exact (CacheFile.isPresent_writePagesScattered data).mp hp
  | fallback q data =>
    obtain ⟨loc, -, -, -, -, rfl⟩ := Residency.fallback_inv hstep
    exact ((CacheFile.isPresent_writePage data).mp hp).imp List.mem_singleton.mpr id
  | replay ws =>
    obtain ⟨-, rfl⟩ := Residency.replay_inv hstep
    rcases isPresent_of_marked hp with hmem | hwritten
    · exact .inl hmem
    · exact (CacheFile.isPresent_foldl_writePage ws).mp hwritten
  | claim gid =>
    obtain ⟨c, hcl, rfl⟩ := Residency.claim_inv hstep
    refine .inr ?_
    have hp' : c.isPresent k p = true := hp
    rwa [GroupPresence.file_of_claimed hcl] at hp'
  | abandon gid =>
    cases hstep
    refine .inr ?_
    have hp' : (s.cache.unclaimIfFetching gid).isPresent k p = true := hp
    rwa [GroupPresence.file_unclaimed] at hp'
  | finish gid =>
    obtain ⟨-, rfl⟩ := Residency.finish_inv hstep
    exact .inr hp
  | takeFlush =>
    obtain ⟨-, rfl⟩ := Residency.takeFlush_inv hstep
    exact .inr hp
  | evictBetweenQueries h victims =>
    obtain ⟨-, rfl⟩ := Residency.evictBetweenQueries_inv hstep
    exact .inr ((GroupCache.isPresent_evictToBudget victims).mp hp).1
  | trim victims =>
    obtain ⟨-, rfl⟩ := Residency.trim_inv hstep
    exact .inr ((GroupCache.isPresent_evictToBudget victims).mp hp).1
  | expire gids =>
    obtain ⟨-, rfl⟩ := Residency.expire_inv hstep
    exact .inr ((GroupCache.isPresent_evictGroups gids).mp hp).1
  | evictTree gids =>
    cases hstep
    exact .inr ((GroupCache.isPresent_evictGroups _).mp hp).1
  | evictOnCheckpoint =>
    cases hstep
    exact .inr ((GroupCache.isPresent_evictSubChunks _).mp hp).1
  | evictTier tiers =>
    obtain ⟨-, rfl⟩ := Residency.evictTier_inv hstep
    exact .inr ((GroupCache.isPresent_evictSubChunks _).mp hp).1
  | clearDataOnly =>
    cases hstep
    exact .inl ((GroupCache.isPresent_clearTo _ _ [.data]).mp hp).1
  | clearInteriorOnly =>
    cases hstep
    let live := 0 :: s.pendingGroupPages.map (·.1)
    exact .inl ((GroupCache.isPresent_clearTo live _ [.index, .data]).mp hp).1
  | clearAll =>
    cases hstep
    exact absurd ((GroupCache.isPresent_clearTo [] [] [.pinned, .index, .data]).mp hp).1 List.not_mem_nil
  | truncate h n =>
    cases hstep
    exact .inr ((CacheFile.isPresent_truncateToPageCount n).mp hp).1
  | compact =>
    cases hstep
    exact .inr (isPresent_of_compacted hp)
  | checkpoint | finishFlush | failFlush | sync | store | markInterior | markIndex | touch =>
    cases hstep
    exact .inr hp

/-- No other event stores a manifest. -/
theorem manifest_step {s s' : Residency.State} {e : Residency.Event}
    (hstep : Residency.step k s e = some s') : s'.manifest = manifestAfter s e := by
  cases e with
  | write | takeFlush | finish | replay | evictBetweenQueries | trim | expire | evictTier =>
    simp only [Residency.step] at hstep
    split at hstep
    · cases hstep
      rfl
    · cases hstep
  | fallback =>
    obtain ⟨loc, -, -, -, -, rfl⟩ := Residency.fallback_inv hstep
    rfl
  | claim =>
    obtain ⟨c, -, rfl⟩ := Residency.claim_inv hstep
    rfl
  | _ =>
    cases hstep
    rfl

/-! ### Handles -/

/-- What a handle keeps between its reads. -/
structure Handle where
  dirtySinceSync : Bool := false
  cachedGeneration : Nat := 0
  /-- lookahead is on and has planned searches -/
  lookaheadActive : Bool := false
  /-- `cache_limit`, with the settings that wait for the next slow read -/
  cacheLimit : Option Nat := none

/-- The cache and the handles that read from it. -/
structure State extends Residency.State where
  /-- `generation` of the cache, 64 bits -/
  generation : Nat := 0
  handles : Nat → Handle := fun _ => {}
  /-- a query has ended since the last slow read -/
  endQuery : Bool := false

/-- What the eviction between two queries takes, and whether it compacts the cache file after that. -/
structure Eviction where
  victims : List SubChunkId := []
  compacts : Bool := false

section Paths

variable (k)

/-- An evictor between two queries. -/
def Eviction.apply (t : Eviction) (c : GroupCache) : GroupCache :=
  let c := c.evictToBudget k t.victims
  if t.compacts then { c with toCacheFile := c.toCacheFile.compactCompressedCache k } else c

namespace State

/-- The next slow read of the handle evicts. -/
def evictionDue (s : State) (h : Nat) : Bool := s.endQuery && (s.handles h).cacheLimit.isSome

/-- The eviction at the start of a slow read. -/
def trimmed (s : State) (h : Nat) (t : Eviction) : Residency.State :=
  if s.evictionDue h then { s.toState with cache := t.apply k s.cache } else s.toState

/-- `bump_generation`. -/
def bumpGeneration (s : State) : State := { s with generation := (s.generation + 1) % 2 ^ 64 }

/-- A field of one handle is set. -/
def withHandle (s : State) (h : Nat) (f : Handle → Handle) : State :=
  { s with handles := Function.update s.handles h (f (s.handles h)) }

/-- `set_manifest` of a manifest it goes on with, up to the new generation. -/
def adopt (s : State) (m : Manifest) : State :=
  let c := (s.cache.adoptLayout m).evictGroups k (Adoption.changedGroups s.manifest m)
  match m.dbHeader with
  | none => { s with manifest := m, cache := c }
  | some page0 => { s with
      manifest := m
      cache := c.writePage k 0 page0
      stored := Function.update s.stored 0 (some page0) }

end State

/-- The fast path of `read_exact_at`; `none` when the slow path has to read. -/
def fastPath (s : State) (h p : Nat) : Option (IoResult Bytes) :=
  if (s.handles h).dirtySinceSync || (s.handles h).lookaheadActive then none
  else if s.generation = (s.handles h).cachedGeneration ∧ p < s.manifest.pageCount ∧ s.present k p then
    some (s.cache.readPage k p)
  else none

/-- The slow path of `read_exact_at`. A read that has to fetch its group marks it before it reads the
page, with the lazy check `l`. -/
def slowPath (cfg : CodecConfig) (mode : GroupPresence.Mode) (s : State) (b : Backend) (h p : Nat)
    (t : Eviction) (l : GroupPresence.LazyCheck) : IoResult Bytes :=
  if p ∈ s.dirty h ∨ s.manifest.pageCount ≤ p ∨ s.manifest.pageLocation p = none then
    -- these reads return before the eviction
    GroupPresence.read cfg k mode s.toState b h p l
  else GroupPresence.read cfg k mode (s.trimmed k h t) b h p l

/-! ### Steps -/

/-- The calls of the handles and what runs beside them. -/
inductive Event where
  /-- a connection opens the database -/
  | openHandle (h : Nat)
  /-- `write_all_at` of one page -/
  | writeAllAt (h p : Nat) (data : Bytes)
  /-- the local checkpoint of a sync, up to its new generation -/
  | checkpoint (h : Nat)
  /-- a durable sync, up to its new generation -/
  | sync (h : Nat) (m : Manifest)
  /-- a sync with nothing to do -/
  | syncNothing (h : Nat)
  /-- `set_len`, up to the cut of the cache -/
  | setLen (h newPageCount : Nat)
  /-- a handle bumps the generation and keeps what `bump_generation` returns -/
  | bumpOwn (h : Nat)
  /-- any other bump -/
  | bump
  /-- `set_manifest`, under the replay gate -/
  | setManifest (m : Manifest)
  /-- the end of a replay, under the replay gate -/
  | finalizeReplay (writes : List (Nat × Bytes)) (m : Manifest)
  | endQuery
  /-- the first slow read after the end of a query -/
  | readAfterQuery (h : Nat) (t : Eviction)
  /-- planned searches or settings of a handle -/
  | configure (h : Nat) (lookaheadActive : Bool) (cacheLimit : Option Nat)
  /-- another thread, or another part of one of the calls above -/
  | background (e : Residency.Event)

/-- A step on the shared cache. -/
def State.lift (s : State) (e : Residency.Event) : Option State :=
  (Residency.step k s.toState e).map fun r => { s with toState := r }

/-- One event; `none` when it is refused. -/
def step (s : State) : Event → Option State
  | .openHandle h =>
    some { s.withHandle h (fun _ => {}) with dirty := Function.update s.dirty h [] }
  | .writeAllAt h p data =>
    (s.lift k (.write h p data)).map fun s' => s'.withHandle h ({ · with dirtySinceSync := true })
  | .checkpoint h =>
    (s.lift k (.checkpoint h)).map fun s' => s'.withHandle h ({ · with dirtySinceSync := false })
  | .sync h m =>
    (s.lift k (.sync h m)).map fun s' => s'.withHandle h ({ · with dirtySinceSync := false })
  | .syncNothing h =>
    if s.dirty h = [] ∧ s.pendingGroups = [] then
      some (s.withHandle h ({ · with dirtySinceSync := false }))
    else none
  | .setLen h n => some { s with
      manifest := s.manifest.setLen n
      dirty := Function.update s.dirty h ((s.dirty h).filter (· < n)) }
  | .bumpOwn h =>
    some (s.bumpGeneration.withHandle h ({ · with cachedGeneration := s.generation }))
  | .bump => some s.bumpGeneration
  | .setManifest m => some (s.adopt k m).bumpGeneration
  | .finalizeReplay writes m =>
    (s.lift k (.replay writes)).map fun s' =>
      let c := if m.pageCount < s.manifest.pageCount then s'.cache.truncateTo k m.pageCount else s'.cache
      { s'.bumpGeneration with manifest := m, cache := c }
  | .endQuery => some { s with endQuery := true }
  | .readAfterQuery h t =>
    if s.endQuery ∧ ∀ id ∈ t.victims, s.cache.Evictable Residency.unpinned (s.skipGroups h) id then
      some { s.withHandle h ({ · with lookaheadActive := false }) with
        toState := s.trimmed k h t, endQuery := false }
    else none
  | .configure h lookahead limit =>
    some (s.withHandle h ({ · with lookaheadActive := lookahead, cacheLimit := limit }))
  | .background e => s.lift k e

end Paths

/-! ### When the paths agree -/

/-- A page of the database has a group. -/
def Grouped (m : Manifest) (p : Nat) : Prop := p < m.pageCount → ∃ loc, m.pageLocation p = some loc

section Conditions

variable (k)

/-- The page is in a sub-chunk that the eviction takes. -/
def Eviction.Takes (t : Eviction) (c : GroupCache) (p : Nat) : Prop :=
  ∃ id ∈ t.victims, p ∈ c.subChunkPageNums id

/-- The eviction that a slow read runs first leaves the page; or the storage has the bytes of the cache,
the group can be fetched, and the lazy check after the fetch leaves the page. The cache file has its pages
where it is compacted or fetched into. -/
structure Kept (cfg : CodecConfig) (mode : GroupPresence.Mode) (s : State) (b : Backend) (h p : Nat)
    (t : Eviction) (l : GroupPresence.LazyCheck) : Prop where
  intact : s.evictionDue h = true → t.compacts = true ∨ t.Takes s.cache p →
    ∃ stored, GroupPresence.FileInv k s.cache.toCacheFile stored
  fetched : s.evictionDue h = true → t.Takes s.cache p →
    ∀ loc, s.manifest.pageLocation p = some loc → s.cache.groupState loc.groupId ≠ .present ∧
      GroupPresence.cold cfg mode s.manifest b p = s.cache.readPage k p
  spared : s.evictionDue h = true → t.Takes s.cache p →
    l.Spares s.cache p ∧ s.manifest.pageSize = k.pageSize

/-- Before the first bump, the event leaves no page of the database present without a group. -/
def KeepsGrouped (s : State) (e : Residency.Event) : Prop :=
  s.generation = 0 → ∀ p, p ∈ brings k s.toState e ∨ s.present k p = true →
    Grouped (manifestAfter s.toState e) p

/-- When an event is safe: what it brings has groups, and the generation does not start over. -/
def Safe (s : State) : Event → Prop
  | .writeAllAt h p data => KeepsGrouped k s (.write h p data)
  | .checkpoint h => KeepsGrouped k s (.checkpoint h)
  | .sync h m => KeepsGrouped k s (.sync h m)
  | .setLen _ n => s.generation = 0 → ∀ p, s.present k p = true → Grouped (s.manifest.setLen n) p
  | .bumpOwn _ | .bump | .setManifest _ | .finalizeReplay _ _ => s.generation + 1 < 2 ^ 64
  | .background e => KeepsGrouped k s e
  | _ => True

/-- No bump yet, and every page of the database that is present has a group. -/
structure Unbumped (s : State) : Prop where
  generation : s.generation = 0
  handles : ∀ h, (s.handles h).cachedGeneration = 0
  grouped : ∀ p, s.present k p = true → Grouped s.manifest p

/-- Every handle is behind. -/
def Behind (s : State) : Prop := ∀ h, (s.handles h).cachedGeneration < s.generation

/-- No bump yet, or every handle is behind. -/
def Inv (s : State) : Prop := Unbumped k s ∨ Behind s

end Conditions

/-! ### Evictions before a read -/

section Evictions

variable {c : GroupCache} {t : Eviction} {p : Nat}

theorem groupState_apply (t : Eviction) (c : GroupCache) (gid : Nat) :
    (t.apply k c).groupState gid = c.groupState gid := by
  rw [← GroupCache.groupState_evictToBudget (k := k) (c := c) t.victims]
  unfold Eviction.apply
  dsimp only
  split <;> rfl

theorem isPresent_of_apply (hp : (t.apply k c).isPresent k p = true) :
    (c.evictToBudget k t.victims).isPresent k p = true := by
  unfold Eviction.apply at hp
  dsimp only at hp
  split at hp
  · exact isPresent_of_compacted hp
  · exact hp

/-- The file keeps its pages. -/
theorem fileInv_apply {stored : PageMap} (h : GroupPresence.FileInv k c.toCacheFile stored)
    (t : Eviction) : GroupPresence.FileInv k (t.apply k c).toCacheFile stored := by
  unfold Eviction.apply
  dsimp only
  split
  · exact (h.evictToBudget t.victims).compact
  · exact h.evictToBudget t.victims

/-- The layout stays. -/
theorem layout_apply (t : Eviction) (c : GroupCache) :
    (t.apply k c).groupPageNums = c.groupPageNums ∧
      (t.apply k c).subChunkPageNums = c.subChunkPageNums := by
  have hbudget : ∀ (ids : List SubChunkId) (c : GroupCache),
      (c.evictToBudget k ids).groupPageNums = c.groupPageNums ∧
        (c.evictToBudget k ids).subChunkPageNums = c.subChunkPageNums := by
    intro ids
    induction ids with
    | nil => exact fun _ => ⟨rfl, rfl⟩
    | cons id ids ih =>
      intro c
      rw [GroupCache.evictToBudget, List.foldl_cons]
      split
      · exact ih c
      · exact ih (c.evictSubChunk k id)
  unfold Eviction.apply
  dsimp only
  split
  · exact hbudget t.victims c
  · exact hbudget t.victims c

theorem spares_apply {l : GroupPresence.LazyCheck} (h : l.Spares c p) (t : Eviction) :
    l.Spares (t.apply k c) p := by
  obtain ⟨hgroups, hchunks⟩ := layout_apply (k := k) t c
  refine ⟨fun gid hgid => ?_, fun id hid => ?_⟩
  · rw [hgroups]
    exact h.1 gid hgid
  · rw [hchunks]
    exact h.2 id hid

/-- Nothing but a victim takes a page. -/
theorem isPresent_apply {stored : PageMap}
    (hfile : t.compacts = true → GroupPresence.FileInv k c.toCacheFile stored)
    (hp : c.isPresent k p = true) (hnot : ¬ t.Takes c p) :
    (t.apply k c).isPresent k p = true := by
  have hevicted : (c.evictToBudget k t.victims).isPresent k p = true :=
    (GroupCache.isPresent_evictToBudget t.victims).mpr ⟨hp, fun id hid _ hmem => hnot ⟨id, hid, hmem⟩⟩
  unfold Eviction.apply
  dsimp only
  split
  · rename_i hcompacts
    exact ((hfile hcompacts).evictToBudget t.victims).isPresent_compact hevicted
  · exact hevicted

/-- A page that is still there has the bytes it had. -/
theorem readPage_apply (hc : k.codec.codecs.Lawful) {stored : PageMap}
    (hfile : t.compacts = true → GroupPresence.FileInv k c.toCacheFile stored)
    (hp : (t.apply k c).isPresent k p = true) {data : Bytes} (hread : c.readPage k p = .ok data) :
    (t.apply k c).readPage k p = .ok data := by
  have hevicted := isPresent_of_apply hp
  have hbytes : (c.evictToBudget k t.victims).readPage k p = .ok data := by
    refine (CacheClears.cleared_evictToBudget t.victims).bytes p data ?_ hread
    rintro ⟨id, hid, hstate, hmem⟩
    exact ((GroupCache.isPresent_evictToBudget t.victims).mp hevicted).2 id hid hstate hmem
  unfold Eviction.apply at hp ⊢
  dsimp only at hp ⊢
  split at hp
  · rename_i hcompacts
    rw [if_pos hcompacts]
    have hinv := (hfile hcompacts).evictToBudget t.victims
    -- both reads are the bytes last stored for the page
    obtain ⟨old, hstored, hlen, hdisk⟩ := hinv.cache p hevicted
    obtain ⟨new, hstored', hlen', hdisk'⟩ := hinv.compact.cache p hp
    have hold : (c.evictToBudget k t.victims).readPage k p = .ok old := hdisk.readPage hc hlen
    obtain rfl : old = data := Except.ok.inj (hold.symm.trans hbytes)
    obtain rfl : old = new := Option.some.inj (hstored.symm.trans hstored')
    exact hdisk'.readPage hc hlen'
  · rename_i hcompacts
    rw [if_neg hcompacts]
    exact hbytes

end Evictions

/-! ### The two paths in one state -/

section Reads

variable {s : State} {h p : Nat} {data : Bytes} {cfg : CodecConfig} {mode : GroupPresence.Mode}
  {b : Backend} {t : Eviction} {l : GroupPresence.LazyCheck}

/-- What the fast path serves. -/
theorem served {r : IoResult Bytes} (hfast : fastPath k s h p = some r) :
    s.generation = (s.handles h).cachedGeneration ∧ p < s.manifest.pageCount ∧
      s.present k p = true ∧ s.cache.readPage k p = r := by
  unfold fastPath at hfast
  split at hfast
  · cases hfast
  · split at hfast
    · rename_i hguard
      exact ⟨hguard.1, hguard.2.1, hguard.2.2, Option.some.inj hfast⟩
    · cases hfast

/-- The fast path serves the bytes last stored for the page. -/
theorem fastPath_of_stored (hc : k.codec.codecs.Lawful) {stored : PageMap}
    (hfile : GroupPresence.FileInv k s.cache.toCacheFile stored)
    (hopen : ((s.handles h).dirtySinceSync || (s.handles h).lookaheadActive) = false)
    (hgen : s.generation = (s.handles h).cachedGeneration) (hlt : p < s.manifest.pageCount)
    (hp : s.present k p = true) (hstored : stored p = some data) :
    fastPath k s h p = some (.ok data) := by
  obtain ⟨data', hstored', hlen, hdisk⟩ := hfile.cache p hp
  obtain rfl : data = data' := Option.some.inj (hstored.symm.trans hstored')
  have hread : s.cache.readPage k p = .ok data := hdisk.readPage hc hlen
  unfold fastPath
  rw [if_neg (by simp [hopen]), if_pos ⟨hgen, hlt, hp⟩, hread]

/-- A present page with a group is read from the cache. -/
theorem read_of_present {r : Residency.State} {loc : PageLocation} (hclean : p ∉ r.dirty h)
    (hlt : p < r.manifest.pageCount) (hloc : r.manifest.pageLocation p = some loc)
    (hp : r.present k p = true) : GroupPresence.read cfg k mode r b h p l = r.cache.readPage k p := by
  unfold GroupPresence.read
  rw [if_neg hclean, if_neg (Nat.not_le.mpr hlt)]
  simp only [hloc, if_pos hp]

/-- A dirty page of the handle is read from the cache, too. -/
theorem slowPath_of_dirty (hfast : fastPath k s h p = some (.ok data)) (hdirty : p ∈ s.dirty h) :
    slowPath k cfg mode s b h p t l = .ok data := by
  obtain ⟨-, -, hp, hread⟩ := served hfast
  unfold slowPath GroupPresence.read
  rw [if_pos (.inl hdirty), if_pos hdirty, if_pos hp]
  exact hread

/-- The slow read of a page of the database that has a group. -/
theorem slowPath_of_grouped (hc : k.codec.codecs.Lawful) (hs : k.codec.FrameSized)
    (hfast : fastPath k s h p = some (.ok data)) (hclean : p ∉ s.dirty h) {loc : PageLocation}
    (hloc : s.manifest.pageLocation p = some loc) (hkept : Kept k cfg mode s b h p t l) :
    slowPath k cfg mode s b h p t l = .ok data := by
  obtain ⟨-, hlt, hp, hread⟩ := served hfast
  unfold slowPath
  rw [if_neg (by simp [hclean, hloc, hlt])]
  cases hdue : s.evictionDue h with
  | false =>
    have hsame : s.trimmed k h t = s.toState := by simp [State.trimmed, hdue]
    rw [hsame, read_of_present hclean hlt hloc hp]
    exact hread
  | true =>
    have htrim : s.trimmed k h t = { s.toState with cache := t.apply k s.cache } := by
      simp [State.trimmed, hdue]
    have hfile : ∃ stored, t.compacts = true → GroupPresence.FileInv k s.cache.toCacheFile stored := by
      by_cases hcompacts : t.compacts = true
      · exact (hkept.intact hdue (.inl hcompacts)).imp fun _ hinv _ => hinv
      · exact ⟨PageMap.empty, fun hyes => absurd hyes hcompacts⟩
    obtain ⟨stored, hfile⟩ := hfile
    rw [htrim]
    by_cases hafter : (t.apply k s.cache).isPresent k p = true
    · exact (read_of_present (r := { s.toState with cache := t.apply k s.cache }) hclean hlt hloc
        hafter).trans (readPage_apply hc hfile hafter hread)
    · -- a victim took the page, and the storage has it
      have htaken : t.Takes s.cache p := by
        by_contra hnone
        exact hafter (isPresent_apply hfile hp hnone)
      obtain ⟨stored', hfile'⟩ := hkept.intact hdue (.inr htaken)
      obtain ⟨hstate, hcold⟩ := hkept.fetched hdue htaken loc hloc
      obtain ⟨hspares, hps⟩ := hkept.spared hdue htaken
      refine GroupPresence.read_of_cold (s := { s.toState with cache := t.apply k s.cache }) hc hs
        (fileInv_apply hfile' t) hps (spares_apply hspares t) hclean hlt hloc hafter ?_
        (hcold.trans hread)
      show (t.apply k s.cache).groupState loc.groupId ≠ .present
      rwa [groupState_apply]

/-- The slow read of a page of the database without a group. -/
theorem slowPath_of_ungrouped (hclean : p ∉ s.dirty h) (hlt : p < s.manifest.pageCount)
    (hnone : s.manifest.pageLocation p = none) :
    slowPath k cfg mode s b h p t l = .ok (ReadPaths.zeroPage s.manifest) := by
  unfold slowPath GroupPresence.read
  rw [if_pos (.inr (.inr hnone)), if_neg hclean, if_neg (Nat.not_le.mpr hlt)]
  simp only [hnone]

/-- What the fast path serves is what the slow path reads if and only if the page is dirty in the
handle, has a group, or is all zeros. -/
theorem agrees_iff (hc : k.codec.codecs.Lawful) (hs : k.codec.FrameSized)
    (hfast : fastPath k s h p = some (.ok data)) (hkept : Kept k cfg mode s b h p t l) :
    slowPath k cfg mode s b h p t l = .ok data ↔
      p ∈ s.dirty h ∨ Grouped s.manifest p ∨ data = ReadPaths.zeroPage s.manifest := by
  obtain ⟨-, hlt, -, -⟩ := served hfast
  by_cases hdirty : p ∈ s.dirty h
  · exact iff_of_true (slowPath_of_dirty hfast hdirty) (.inl hdirty)
  cases hloc : s.manifest.pageLocation p with
  | some loc =>
    exact iff_of_true (slowPath_of_grouped hc hs hfast hdirty hloc hkept) (.inr (.inl fun _ => ⟨loc, hloc⟩))
  | none =>
    rw [slowPath_of_ungrouped hdirty hlt hloc]
    constructor
    · intro hzero
      exact .inr (.inr (Except.ok.inj hzero).symm)
    · rintro (hmem | hg | rfl)
      · exact absurd hmem hdirty
      · obtain ⟨loc, hsome⟩ := hg hlt
        rw [hloc] at hsome
        cases hsome
      · rfl

/-- No handle that is behind is served. -/
theorem fastPath_of_behind (hb : Behind s) : fastPath k s h p = none := by
  have hne : s.generation ≠ (s.handles h).cachedGeneration := (hb h).ne'
  simp [fastPath, hne]

end Reads

/-! ### Steps keep the invariant -/

section Invariant

variable {s s' : State}

/-- Only the generations count once every handle is behind. -/
theorem Behind.congr (h : Behind s) (hgen : s'.generation = s.generation)
    (hcached : ∀ x, (s'.handles x).cachedGeneration ≤ (s.handles x).cachedGeneration) : Behind s' := by
  intro x
  rw [hgen]
  exact (hcached x).trans_lt (h x)

theorem cachedGeneration_withHandle (s : State) (h : Nat) {f : Handle → Handle}
    (hf : ∀ x, (f x).cachedGeneration ≤ x.cachedGeneration) (x : Nat) :
    ((s.withHandle h f).handles x).cachedGeneration ≤ (s.handles x).cachedGeneration := by
  show (Function.update s.handles h (f (s.handles h)) x).cachedGeneration ≤ _
  rw [Function.update_apply]
  split
  · rename_i hx
    subst hx
    exact hf _
  · exact le_rfl

/-- A step that bumps nothing. -/
theorem Inv.keep (h : Inv k s) (hgen : s'.generation = s.generation)
    (hcached : ∀ x, (s'.handles x).cachedGeneration ≤ (s.handles x).cachedGeneration)
    (hgrouped : s.generation = 0 → (∀ p, s.present k p = true → Grouped s.manifest p) →
      ∀ p, s'.present k p = true → Grouped s'.manifest p) : Inv k s' := by
  rcases h with h | h
  · refine .inl ⟨hgen.trans h.generation, fun x => ?_, hgrouped h.generation h.grouped⟩
    exact Nat.le_zero.mp ((hcached x).trans (h.handles x).le)
  · exact .inr (h.congr hgen hcached)

/-- A step on the cache, with what it does to a handle. -/
theorem inv_lift {e : Residency.Event} (h : Inv k s) (hsafe : KeepsGrouped k s e)
    (hstep : s.lift k e = some s') : Inv k s' := by
  obtain ⟨r, hr, rfl⟩ := Option.map_eq_some_iff.mp hstep
  refine h.keep rfl (fun _ => le_rfl) fun hgen _ p hp => ?_
  show Grouped r.manifest p
  rw [manifest_step hr]
  exact hsafe hgen p (present_step hr hp)

theorem inv_withHandle (h : Inv k s) (x : Nat) {f : Handle → Handle}
    (hf : ∀ y, (f y).cachedGeneration ≤ y.cachedGeneration) : Inv k (s.withHandle x f) :=
  h.keep rfl (cachedGeneration_withHandle s x hf) fun _ hg => hg

/-- A bump leaves every handle behind. -/
theorem behind_bump (h : Inv k s) (hlt : s.generation + 1 < 2 ^ 64) (x : Nat) :
    (s.handles x).cachedGeneration ≤ s.generation ∧
      s.bumpGeneration.generation = s.generation + 1 := by
  refine ⟨?_, Nat.mod_eq_of_lt hlt⟩
  rcases h with h | h
  · rw [h.handles x]
    exact Nat.zero_le _
  · exact (h x).le

theorem step_inv {e : Event} (h : Inv k s) (hsafe : Safe k s e) (hstep : step k s e = some s') :
    Inv k s' := by
  cases e with
  | openHandle x =>
    cases hstep
    exact h.keep rfl (cachedGeneration_withHandle s x (f := fun _ => {}) fun _ => Nat.zero_le _)
      fun _ hg => hg
  | writeAllAt x | checkpoint x | sync x =>
    simp only [step] at hstep
    obtain ⟨m, hm, rfl⟩ := Option.map_eq_some_iff.mp hstep
    exact inv_withHandle (inv_lift h hsafe hm) x fun _ => le_rfl
  | syncNothing x =>
    simp only [step] at hstep
    split at hstep
    · cases hstep
      exact inv_withHandle h x fun _ => le_rfl
    · cases hstep
  | setLen x n =>
    cases hstep
    exact h.keep rfl (fun _ => le_rfl) fun hgen _ => hsafe hgen
  | bumpOwn x =>
    cases hstep
    refine .inr fun y => ?_
    obtain ⟨hle, hgen⟩ := behind_bump h hsafe y
    show (Function.update s.handles x _ y).cachedGeneration < s.bumpGeneration.generation
    rw [hgen, Function.update_apply]
    split
    · exact Nat.lt_succ_self _
    · exact Nat.lt_succ_of_le hle
  | bump =>
    cases hstep
    refine .inr fun y => ?_
    obtain ⟨hle, hgen⟩ := behind_bump h hsafe y
    rw [hgen]
    exact Nat.lt_succ_of_le hle
  | setManifest m =>
    cases hstep
    refine .inr fun y => ?_
    obtain ⟨hle, hgen⟩ := behind_bump h hsafe y
    show ((s.adopt k m).handles y).cachedGeneration < (s.adopt k m).bumpGeneration.generation
    have hsame : (s.adopt k m).handles = s.handles ∧ (s.adopt k m).generation = s.generation := by
      unfold State.adopt
      dsimp only
      split <;> exact ⟨rfl, rfl⟩
    have hgen' : (s.adopt k m).bumpGeneration.generation = s.generation + 1 := by
      rw [← hgen]
      show ((s.adopt k m).generation + 1) % 2 ^ 64 = _
      rw [hsame.2]
      rfl
    rw [hsame.1, hgen']
    exact Nat.lt_succ_of_le hle
  | finalizeReplay ws m =>
    obtain ⟨s₁, h₁, rfl⟩ := Option.map_eq_some_iff.mp hstep
    obtain ⟨r, -, rfl⟩ := Option.map_eq_some_iff.mp h₁
    refine .inr fun y => ?_
    obtain ⟨hle, hgen⟩ := behind_bump h hsafe y
    show (s.handles y).cachedGeneration < s.bumpGeneration.generation
    rw [hgen]
    exact Nat.lt_succ_of_le hle
  | endQuery =>
    cases hstep
    exact h.keep rfl (fun _ => le_rfl) fun _ hg => hg
  | readAfterQuery x t =>
    simp only [step] at hstep
    split at hstep
    · cases hstep
      refine h.keep rfl (cachedGeneration_withHandle s x (f := ({ · with lookaheadActive := false }))
        fun _ => le_rfl) fun _ hg p hp => ?_
      have htrim : (s.trimmed k x t).manifest = s.manifest ∧
          ((s.trimmed k x t).present k p = true → s.present k p = true) := by
        unfold State.trimmed
        split
        · exact ⟨rfl, fun hq =>
            ((GroupCache.isPresent_evictToBudget t.victims).mp (isPresent_of_apply hq)).1⟩
        · exact ⟨rfl, id⟩
      show Grouped (s.trimmed k x t).manifest p
      rw [htrim.1]
      exact hg p (htrim.2 hp)
    · cases hstep
  | configure x lookahead limit =>
    cases hstep
    exact inv_withHandle h x fun _ => le_rfl
  | background e => exact inv_lift h hsafe hstep

end Invariant

/-- From a cache whose generation was never bumped, in every run that brings no page of the database
without a group before the first bump: what the fast path serves, the slow path reads, unless its own
eviction loses the page. -/
theorem fast_path_agrees (hc : k.codec.codecs.Lawful) (hs : k.codec.FrameSized) {s s' : State}
    {es : List Event} (hstart : Unbumped k s) (hsafe : Meets (step k) (Safe k) s es) (hrun : run (step k) s es = some s') :
    (∀ h p data, fastPath k s' h p = some (.ok data) → s'.generation = 0 ∧
      ∀ cfg mode b t l, Kept k cfg mode s' b h p t l →
        slowPath k cfg mode s' b h p t l = .ok data) ∧
    (s'.generation ≠ 0 → ∀ h p, fastPath k s' h p = none) := by
  have hinv : Inv k s' :=
    run_invariant (fun _ _ _ hi hcond hstep => step_inv hi hcond hstep) (.inl hstart) hsafe hrun
  constructor
  · intro h p data hfast
    rcases hinv with hun | hb
    · refine ⟨hun.generation, fun cfg mode b t l hkept => ?_⟩
      obtain ⟨-, -, hp, -⟩ := served hfast
      exact (agrees_iff hc hs hfast hkept).mpr (.inr (.inl (hun.grouped p hp)))
    · rw [fastPath_of_behind hb] at hfast
      cases hfast
  · intro hgen h p
    rcases hinv with hun | hb
    · exact absurd hun.generation hgen
    · exact fastPath_of_behind hb

/-! ### Two handles -/

namespace Example

open ReadPaths.Example (page)

/-- An empty cache over a manifest. -/
def opened (m : Manifest) : State where
  cache := { pagesPerGroup := 2, subPagesPerFrame := 1, groupPages := m.groupPages }
  manifest := m

theorem opened_unbumped (m : Manifest) : Unbumped CacheRestart.Example.config (opened m) where
  generation := rfl
  handles _ := rfl
  grouped p hp := by cases hp

/-- A database of two pages whose second page was never stored. -/
def manifest : Manifest where
  version := 1
  pageCount := 2
  pageSize := 512
  pagesPerGroup := 2
  strategy := .bTreeAware
  groupPages := [[0]]
  pageIndex := Manifest.pageIndexOf [[0]]

/-- Another handle writes the second page. -/
def written : State :=
  { opened manifest with
    cache := (opened manifest).cache.writePage CacheRestart.Example.config 1 (page 7)
    dirty := Function.update (opened manifest).dirty 1 [1]
    stored := Function.update PageMap.empty 1 (some (page 7))
    handles := Function.update (opened manifest).handles 1 { dirtySinceSync := true } }

/-- A fetched group with a query that has ended. -/
def fetch : List Event := [.configure 0 false (some 0),
  .background (.installFrame 0 0 [0, 1] (page 1 ++ page 2)), .endQuery]

/-- The cache after the fetch, and the bytes stored. -/
def fetchedCache : GroupCache := (opened ReadPaths.Example.manifest).cache.writePagesScattered
  CacheRestart.Example.config [0, 1] (page 1 ++ page 2) 0 0

/-- The two pages that the fetch brings. -/
def fetchedPages : PageMap :=
  PageMap.empty.install (PageMap.scatter CacheRestart.Example.config.pageSize [0, 1] (page 1 ++ page 2))

/-- The group is in the cache, and the limit of handle 0 is below it. -/
def fetched : State :=
  { opened ReadPaths.Example.manifest with
    cache := fetchedCache
    stored := fetchedPages
    handles := Function.update (opened ReadPaths.Example.manifest).handles 0 { cacheLimit := some 0 }
    endQuery := true }

theorem run_fetch : run (step CacheRestart.Example.config) (opened ReadPaths.Example.manifest) fetch =
    some fetched := rfl

theorem fetched_file : GroupPresence.FileInv CacheRestart.Example.config fetchedCache.toCacheFile
    fetchedPages := by
  unfold fetchedCache fetchedPages
  exact GroupPresence.FileInv.writePagesScattered Codecs.plain_lawful (fun _ h => by cases h)
    (CacheRestart.inv_fresh CacheRestart.Example.config) [0, 1] (page 1 ++ page 2) 0 0

theorem stored_fetched : fetchedPages 1 = some (page 2) := by decide +kernel

end Example

open ReadPaths.Example (page backend)

/-- The eviction takes page 1 and the slow path fetches it again; the lazy check of the fetch takes page 0. -/
theorem refetched_page_agrees : ∃ s',
    run (step CacheRestart.Example.config) (Example.opened ReadPaths.Example.manifest) Example.fetch =
      some s' ∧
    fastPath CacheRestart.Example.config s' 0 1 = some (.ok (page 2)) ∧
    slowPath CacheRestart.Example.config .plain .scan s' (backend 2) 0 1 { victims := [⟨0, 1⟩] }
      { victims := [⟨0, 0⟩] } = .ok (page 2) := by
  have hgrouped : ∀ p, Grouped ReadPaths.Example.manifest p := by
    intro p hlt
    have hlt' : p < 2 := hlt
    obtain rfl | rfl : p = 0 ∨ p = 1 := by omega
    · exact ⟨⟨0, 0⟩, by decide⟩
    · exact ⟨⟨0, 1⟩, by decide⟩
  have hsafe : Meets (step CacheRestart.Example.config) (Safe CacheRestart.Example.config)
      (Example.opened ReadPaths.Example.manifest) Example.fetch :=
    .cons trivial rfl (.cons (fun _ p _ => hgrouped p) rfl (.cons trivial rfl trivial))
  have hfast : fastPath CacheRestart.Example.config Example.fetched 0 1 = some (.ok (page 2)) :=
    fastPath_of_stored Codecs.plain_lawful Example.fetched_file rfl rfl (by decide) (by decide +kernel)
      Example.stored_fetched
  have hread := (served hfast).2.2.2
  have hagree := (fast_path_agrees Codecs.plain_lawful (fun _ h => by cases h) (Example.opened_unbumped _) hsafe
    Example.run_fetch).1 0 1 (page 2) hfast
  refine ⟨Example.fetched, Example.run_fetch, hfast,
    hagree.2 .plain .scan (backend 2) { victims := [⟨0, 1⟩] } { victims := [⟨0, 0⟩] } ⟨?_, ?_, ?_⟩⟩
  · exact fun _ _ => ⟨_, Example.fetched_file⟩
  · intro _ _ loc hloc
    obtain rfl : (⟨0, 1⟩ : PageLocation) = loc := Option.some.inj hloc
    have hcold : GroupPresence.cold .plain .scan ReadPaths.Example.manifest (backend 2) 1 = .ok (page 2) := by
      decide +kernel
    exact ⟨by decide +kernel, hcold.trans hread.symm⟩
  · intro _ _
    exact ⟨⟨by simp, by decide +kernel⟩, rfl⟩

/-- The fast path serves the bytes that another handle has written to a page without a group. -/
theorem ungrouped_page_differs : Unbumped CacheRestart.Example.config (Example.opened Example.manifest) ∧
    run (step CacheRestart.Example.config) (Example.opened Example.manifest)
      [.writeAllAt 1 1 (page 7)] = some Example.written ∧
    fastPath CacheRestart.Example.config Example.written 0 1 = some (.ok (page 7)) ∧
    slowPath CacheRestart.Example.config .plain .scan Example.written (backend 2) 0 1 {} {} =
      .ok (ReadPaths.zeroPage Example.manifest) ∧
    page 7 ≠ ReadPaths.zeroPage Example.manifest := by
  have hlen : (page 7).length = CacheRestart.Example.config.pageSize := List.length_replicate
  have hfile : GroupPresence.FileInv CacheRestart.Example.config Example.written.cache.toCacheFile
      (Function.update PageMap.empty 1 (some (page 7))) :=
    GroupPresence.FileInv.writePage Codecs.plain_lawful (fun _ h => by cases h)
      (CacheRestart.inv_fresh CacheRestart.Example.config) hlen
  refine ⟨Example.opened_unbumped _, run_cons.mpr ⟨Example.written, ?_, rfl⟩,
    fastPath_of_stored Codecs.plain_lawful hfile rfl rfl (by decide) (by decide +kernel)
      (Function.update_self ..), ?_, by decide +kernel⟩
  · simp only [step, State.lift, Residency.step, if_pos hlen]
    rfl
  · exact slowPath_of_ungrouped List.not_mem_nil (by decide) (by decide)

end Turbolite.FastPath
