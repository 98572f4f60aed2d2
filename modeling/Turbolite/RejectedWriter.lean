import Mathlib.Data.Set.Card
import Turbolite.Flush
import Turbolite.Import
import Turbolite.Sync

/-!
# Turbolite.RejectedWriter

A writer uploads its objects before it stores its manifest. When the manifest put is rejected, or the
writer stops before it, the objects stay. Their keys are made of a slot and the version the writer
mints, one more than that of its own manifest, or the change counter of the imported file; neither has
seen the manifest in the backend. The slots are those of the pages that changed (`Writer.Changes`), and
`rejected_writer_iff` says exactly when the stored database does not notice.
-/

namespace Turbolite

open Blocks Results ReadPaths

/-! ### The slots of the uploads -/

/-- The chunk is encoded again. -/
def ChunkPlan.Writes (p : ChunkPlan) (old : HMap Nat ObjectKey) (c : Nat) : Prop :=
  c ∈ p.chunks.map (·.1) ∧ p.reencodes old c = true

theorem mem_uploads_publishChunks {slot : Nat → Slot} {encode : Nat → List (Nat × Bytes) → Bytes}
    {v : Nat} {old : HMap Nat ObjectKey} {p : ChunkPlan} {k : ObjectKey} :
    k ∈ (publishChunks slot encode v old p).uploads.map (·.1) ↔
      ∃ c, p.Writes old c ∧ k = (slot c).key v := by
  simp only [publishChunks, List.mem_map, List.mem_filterMap]
  constructor
  · rintro ⟨u, ⟨c, hc, hu⟩, rfl⟩
    split at hu
    · rename_i hre
      cases hu
      exact ⟨c.1, ⟨List.mem_map_of_mem hc, hre⟩, rfl⟩
    · cases hu
  · rintro ⟨c, ⟨hc, hre⟩, rfl⟩
    obtain ⟨ch, hch, rfl⟩ := List.mem_map.mp hc
    exact ⟨_, ⟨ch, hch, if_pos hre⟩, rfl⟩

/-- The slots a publication writes to. -/
def Targets (w : GroupWrites) (plans : Option BundlePlans) (m : Manifest) : Slot → Prop
  | .group g => g ∈ w.rewrites.map (·.gid)
  | .override g f => (g, f) ∈ w.frames.map fun x => (x.gid, x.frameIdx)
  | .interior c => ∃ p ∈ plans, p.interior.Writes m.interiorChunkKeys c
  | .index c => ∃ p ∈ plans, p.index.Writes m.indexChunkKeys c

theorem mem_uploads_iff {w : GroupWrites} {plans : Option BundlePlans} {m : Manifest} {v : Nat}
    {k : ObjectKey} :
    k ∈ (w.uploads v ++ (publishBundles plans v m).1.uploads ++
      (publishBundles plans v m).2.uploads).map (·.1) ↔
      ∃ s, Targets w plans m s ∧ k = s.key v := by
  have hgroups : k ∈ (w.uploads v).map (·.1) ↔ ∃ s : Slot, ((∃ g, s = .group g ∧ g ∈ w.rewrites.map (·.gid)) ∨
      ∃ g f, s = .override g f ∧ (g, f) ∈ w.frames.map fun x => (x.gid, x.frameIdx)) ∧
        k = s.key v := by
    simp only [GroupWrites.uploads, List.map_append, List.map_map, List.mem_append, List.mem_map,
      Function.comp]
    constructor
    · rintro (⟨r, hr, rfl⟩ | ⟨x, hx, rfl⟩)
      · exact ⟨.group r.gid, .inl ⟨_, rfl, r, hr, rfl⟩, rfl⟩
      · exact ⟨.override x.gid x.frameIdx, .inr ⟨_, _, rfl, x, hx, rfl⟩, rfl⟩
    · rintro ⟨s, ⟨g, rfl, r, hr, rfl⟩ | ⟨g, f, rfl, x, hx, he⟩, rfl⟩
      · exact .inl ⟨r, hr, rfl⟩
      · cases he
        exact .inr ⟨x, hx, rfl⟩
  rw [List.map_append, List.map_append, List.mem_append, List.mem_append, hgroups]
  constructor
  · rintro ((⟨s, ⟨g, rfl, hg⟩ | ⟨g, f, rfl, hf⟩, rfl⟩ | h) | h)
    · exact ⟨.group g, hg, rfl⟩
    · exact ⟨.override g f, hf, rfl⟩
    · cases plans with
      | none => cases h
      | some p =>
        obtain ⟨c, hc, rfl⟩ := mem_uploads_publishChunks.mp h
        exact ⟨.interior c, ⟨p, rfl, hc⟩, rfl⟩
    · cases plans with
      | none => cases h
      | some p =>
        obtain ⟨c, hc, rfl⟩ := mem_uploads_publishChunks.mp h
        exact ⟨.index c, ⟨p, rfl, hc⟩, rfl⟩
  · rintro ⟨s, hs, rfl⟩
    cases s with
    | group g => exact .inl (.inl ⟨_, .inl ⟨g, rfl, hs⟩, rfl⟩)
    | override g f => exact .inl (.inl ⟨_, .inr ⟨g, f, rfl, hs⟩, rfl⟩)
    | interior c =>
      obtain ⟨p, hp, hc⟩ := hs
      cases hp
      exact .inl (.inr (mem_uploads_publishChunks.mpr ⟨c, hc, rfl⟩))
    | index c =>
      obtain ⟨p, hp, hc⟩ := hs
      cases hp
      exact .inr (mem_uploads_publishChunks.mpr ⟨c, hc, rfl⟩)

/-! ### The writers -/

/-- A flush, a durable sync or an import. -/
inductive Writer where
  | flush (i : FlushInput)
  | sync (i : SyncInput)
  | importFile (i : ImportInput)

namespace Writer

/-- The backend that the writer starts from. -/
def backend : Writer → Backend
  | .flush i => i.backend
  | .sync i => i.backend
  | .importFile i => i.backend

/-- The version of the keys, chosen without the backend. -/
def minted : Writer → Nat
  | .flush i => i.manifest.version + 1
  | .sync i => i.manifest.version + 1
  | .importFile i => i.fileChangeCounter

/-- The objects the writer uploads before its manifest, or `none` when there is nothing to do. -/
def encoded : Writer → IoResult (Option (List (ObjectKey × Bytes)))
  | .flush i => do
    let staged ← mergeStaged i.dir i.flushes
    if i.manifest.pageSize = 0 then .error (.io .invalidData "flush: manifest has page_size=0")
    else if i.dirtyGroups staged = [] then .ok none
    else do
      let changeCounter ← resolveManifestReplayCursor i.cache i.manifest
      let w ← i.writeGroups staged
      .ok (some (flushPublication i.manifest changeCounter w
        (if i.isLocal then none else some (i.bundlePlans staged))).uploads)
  | .sync i =>
    if i.dirty = [] ∧ i.pendingGroups = [] then .ok none
    else if i.panics then .error .panic
    else do
      let changeCounter ← resolveManifestReplayCursor i.cache i.snap
      let w ← rewriteGroups i.rewrite i.gid_rewrite i.groups i.groups_nodup
      let dirtyPages ← i.readDirty
      .ok (some (i.publication changeCounter w (i.bundlePlans dirtyPages)).uploads)
  | .importFile i =>
    if i.pageSize = 0 ∨ i.pagesPerGroup = 0 ∨ i.fileChangeCounter = 0 then .error .panic
    else do
      let groups ← i.groupPagesList.mapM i.readGroup
      .ok (some (i.uploads groups))

/-- The groups, frames and chunks the writer is about to write. -/
def Slots : Writer → Slot → Prop
  | .flush i, .group g => ∃ staged, mergeStaged i.dir i.flushes = .ok staged ∧
      g ∈ i.dirtyGroups staged ∧ i.useOverride staged g = false
  | .flush i, .override g f => ∃ staged, mergeStaged i.dir i.flushes = .ok staged ∧
      g ∈ i.dirtyGroups staged ∧ i.useOverride staged g = true ∧ f ∈ i.dirtyFrames staged g
  | .flush i, .interior c => i.isLocal = false ∧ ∃ staged, mergeStaged i.dir i.flushes = .ok staged ∧
      (i.bundlePlans staged).interior.Writes i.manifest.interiorChunkKeys c
  | .flush i, .index c => i.isLocal = false ∧ ∃ staged, mergeStaged i.dir i.flushes = .ok staged ∧
      (i.bundlePlans staged).index.Writes i.manifest.indexChunkKeys c
  | .sync i, .group g => g ∈ i.groups
  | .sync _, .override _ _ => False
  | .sync i, .interior c => ∃ dirtyPages, i.readDirty = .ok dirtyPages ∧
      (i.bundlePlans dirtyPages).interior.Writes i.snap.interiorChunkKeys c
  | .sync i, .index c => ∃ dirtyPages, i.readDirty = .ok dirtyPages ∧
      (i.bundlePlans dirtyPages).index.Writes i.snap.indexChunkKeys c
  | .importFile i, .group g => g < i.groupPagesList.length
  | .importFile _, .override _ _ => False
  | .importFile i, .interior c => ∃ groups, i.groupPagesList.mapM i.readGroup = .ok groups ∧
      (i.bundlePlans groups.flatten).interior.Writes ∅ c
  | .importFile i, .index c => ∃ groups, i.groupPagesList.mapM i.readGroup = .ok groups ∧
      (i.bundlePlans groups.flatten).index.Writes ∅ c

variable {wr : Writer} {us : List (ObjectKey × Bytes)}

/-- Every slot gets its object at the minted version, and nothing else is uploaded. -/
theorem mem_encoded_iff (h : wr.encoded = .ok (some us)) {k : ObjectKey} :
    k ∈ us.map (·.1) ↔ ∃ s, wr.Slots s ∧ k = s.key wr.minted := by
  cases wr with
  | flush i =>
    obtain ⟨staged, hstaged, h⟩ := bind_eq_ok.mp h
    split at h
    · cases h
    split at h
    · cases h
    obtain ⟨cc, -, h⟩ := bind_eq_ok.mp h
    obtain ⟨w, hw, h⟩ := bind_eq_ok.mp h
    cases h
    have hwrote := FlushInput.writeGroups_inv hw
    -- the groups and frames that the merge has written are those that the flush targets
    have hslots : ∀ s, Writer.Slots (.flush i) s ↔
        Targets w (if i.isLocal then none else some (i.bundlePlans staged)) i.manifest s := by
      intro s
      cases s with
      | group g => simp [Slots, Targets, hstaged, hwrote.rewrites_iff g]
      | override g f => simp only [Slots, Targets, hstaged, hwrote.frames_iff g f]; simp
      | interior c => cases hl : i.isLocal <;> simp [Slots, Targets, hstaged, hl]
      | index c => cases hl : i.isLocal <;> simp [Slots, Targets, hstaged, hl]
    simp only [hslots]
    exact mem_uploads_iff
  | sync i =>
    simp only [encoded] at h
    split at h
    · cases h
    split at h
    · cases h
    obtain ⟨cc, -, h⟩ := bind_eq_ok.mp h
    obtain ⟨w, hw, h⟩ := bind_eq_ok.mp h
    obtain ⟨dirtyPages, hread, h⟩ := bind_eq_ok.mp h
    cases h
    obtain ⟨hframes, hgids, -⟩ := rewriteGroups_inv hw
    -- a durable sync writes whole groups only
    have hslots : ∀ s, Writer.Slots (.sync i) s ↔
        Targets w (some (i.bundlePlans dirtyPages)) i.snap s := by
      intro s
      cases s with
      | group g => simp only [Slots, Targets, hgids]
      | override g f => simp [Slots, Targets, hframes]
      | interior c => simp [Slots, Targets, hread]
      | index c => simp [Slots, Targets, hread]
    have hversion : minted (.sync i) = i.snap.version + 1 := congrArg (· + 1) i.snap_version.symm
    simp only [hslots, hversion, i.publication_uploads]
    exact mem_uploads_iff
  | importFile i =>
    simp only [encoded] at h
    split at h
    · cases h
    obtain ⟨groups, hgroups, h⟩ := bind_eq_ok.mp h
    cases h
    have hlen : groups.length = i.groupPagesList.length := length_of_mapM hgroups
    -- an import writes every group once, under the change counter of the file
    have hpart : k ∈ (groups.zipIdx.map fun g =>
        (ObjectKey.pageGroup g.2 i.fileChangeCounter, (i.encodeGroup g.2 g.1).1)).map (·.1) ↔
          ∃ g < i.groupPagesList.length, k = .pageGroup g i.fileChangeCounter := by
      rw [← hlen, List.map_map, List.mem_map]
      constructor
      · rintro ⟨⟨pages, g⟩, hg, rfl⟩
        exact ⟨g, List.snd_lt_of_mem_zipIdx hg, rfl⟩
      · rintro ⟨g, hg, rfl⟩
        exact ⟨(groups.get ⟨g, hg⟩, g),
          List.mem_zipIdx_iff_getElem?.mpr (List.getElem?_eq_getElem hg), rfl⟩
    unfold ImportInput.uploads
    rw [List.map_append, List.map_append, List.mem_append, List.mem_append, hpart]
    constructor
    · rintro ((⟨g, hg, rfl⟩ | h) | h)
      · exact ⟨.group g, hg, rfl⟩
      · obtain ⟨c, hc, rfl⟩ := mem_uploads_publishChunks.mp h
        exact ⟨.interior c, ⟨groups, hgroups, hc⟩, rfl⟩
      · obtain ⟨c, hc, rfl⟩ := mem_uploads_publishChunks.mp h
        exact ⟨.index c, ⟨groups, hgroups, hc⟩, rfl⟩
    · rintro ⟨s, hs, rfl⟩
      cases s with
      | group g => exact .inl (.inl ⟨g, hs, rfl⟩)
      | override g f => exact hs.elim
      | interior c =>
        obtain ⟨groups', hgroups', hc⟩ := hs
        cases hgroups.symm.trans hgroups'
        exact .inl (.inr (mem_uploads_publishChunks.mpr ⟨c, hc, rfl⟩))
      | index c =>
        obtain ⟨groups', hgroups', hc⟩ := hs
        cases hgroups.symm.trans hgroups'
        exact .inr (mem_uploads_publishChunks.mpr ⟨c, hc, rfl⟩)

end Writer

/-! ### What a writer changes -/

theorem ChunkPlan.writes_chunkPlan {pageSize c : Nat} {pages : List (Nat × Bytes)} {dirty : List Nat}
    {old : HMap Nat ObjectKey} :
    (chunkPlan pageSize pages dirty).Writes old c ↔
      (∃ p d, (p, d) ∈ pages ∧ p / bundleChunkRange pageSize = c) ∧
        ((∃ q ∈ dirty, q / bundleChunkRange pageSize = c) ∨ old.lookup c = none) := by
  simp [ChunkPlan.Writes, chunkPlan, ChunkPlan.reencodes]

/-- A plan whose dirty pages come first: their chunks are written, and those of the others that have no
object. -/
theorem ChunkPlan.writes_append {pageSize c : Nat} {changed kept : List (Nat × Bytes)}
    {old : HMap Nat ObjectKey} :
    (chunkPlan pageSize (changed ++ kept) (changed.map (·.1))).Writes old c ↔
      ∃ p, p / bundleChunkRange pageSize = c ∧
        ((∃ d, (p, d) ∈ changed) ∨ ((∃ d, (p, d) ∈ kept) ∧ old.lookup c = none)) := by
  rw [writes_chunkPlan]
  constructor
  · rintro ⟨⟨p, d, hp, hc⟩, ⟨q, hq, hqc⟩ | hnone⟩
    · obtain ⟨⟨q, d'⟩, hd, rfl⟩ := List.mem_map.mp hq
      exact ⟨q, hqc, .inl ⟨d', hd⟩⟩
    · rcases List.mem_append.mp hp with hp | hp
      · exact ⟨p, hc, .inl ⟨d, hp⟩⟩
      · exact ⟨p, hc, .inr ⟨⟨d, hp⟩, hnone⟩⟩
  · rintro ⟨p, hc, ⟨d, hd⟩ | ⟨⟨d, hd⟩, hnone⟩⟩
    · exact ⟨⟨p, d, List.mem_append_left _ hd, hc⟩, .inl ⟨p, List.mem_map_of_mem hd, hc⟩⟩
    · exact ⟨⟨p, d, List.mem_append_right _ hd, hc⟩, .inr hnone⟩

/-- Where every page is dirty all chunks are written. -/
theorem ChunkPlan.writes_all {pageSize c : Nat} {pages : List (Nat × Bytes)} {old : HMap Nat ObjectKey} :
    (chunkPlan pageSize pages (pages.map (·.1))).Writes old c ↔
      ∃ p, p / bundleChunkRange pageSize = c ∧ ∃ d, (p, d) ∈ pages := by
  have happend := @writes_append pageSize c pages [] old
  rw [List.append_nil] at happend
  simpa using happend

theorem mem_readable {source : PageMap} {ps : List Nat} {p : Nat} {d : Bytes} :
    (p, d) ∈ readable source ps ↔ p ∈ ps ∧ source p = some d := by
  simp only [readable, List.mem_filterMap, Option.map_eq_some_iff, Prod.mk.injEq]
  constructor
  · rintro ⟨q, hq, x, hx, rfl, rfl⟩
    exact ⟨hq, hx⟩
  · rintro ⟨hp, hd⟩
    exact ⟨p, hp, d, hd, rfl, rfl⟩

namespace FlushInput

section Changes

variable (i : FlushInput)

/-- One of the logs has the page. -/
def Stages (p : Nat) : Prop := ∃ log ∈ i.logs, (log.read.lookup p).isSome

/-- A group with a staged page, or one that a local checkpoint left. -/
def Changed (g : Nat) : Prop :=
  g ∈ i.legacyDirtyGroups ∨ ∃ p j, i.Stages p ∧ i.manifest.pageLocation p = some ⟨g, j⟩

/-- A frame of the group with a staged page. -/
def ChangedFrame (g f : Nat) : Prop :=
  i.manifest.hasFrames g = true ∧ ∃ p ∈ i.manifest.groupPageNums g, p < i.manifest.pageCount ∧
    i.Stages p ∧ (i.manifest.groupPageNums g).idxOf p / i.manifest.subPagesPerFrame = f

/-- Some of the group's frames changed, and fewer than the threshold. -/
def FewFrames (g : Nat) : Prop :=
  (∃ f, i.ChangedFrame g f) ∧ {f | i.ChangedFrame g f}.ncard < i.effectiveThreshold

/-- A page below the page count that a changed group lists. -/
def ChangedPage (p : Nat) : Prop :=
  p < i.manifest.pageCount ∧ ∃ g, i.Changed g ∧ p ∈ i.manifest.groupPageNums g

/-- A bundle chunk with a changed page, or one that has no object. -/
def ChangedChunk (keys : HMap Nat ObjectKey) (c : Nat) : Prop :=
  (∃ p, i.ChangedPage p ∧ p / bundleChunkRange i.manifest.pageSize = c) ∨ keys.lookup c = none

/-- A known interior page whose bytes are at hand. -/
def Interior (p : Nat) : Prop :=
  p ∈ i.interiorPages ∧ p < i.manifest.pageCount ∧ ((lastImage i.logs p).or (i.cache.file p)).isSome

/-- An index leaf of a changed group, or of the cache's index tier. -/
def IndexLeaf (p : Nat) : Prop :=
  (i.ChangedPage p ∧ ∃ d, (lastImage i.logs p).or (i.cache.page p) = some d ∧ isIndexLeaf p d = true) ∨
    (p ∈ i.indexPages ∧ p < i.manifest.pageCount ∧
      ∃ d, (lastImage i.logs p).or (i.cache.file p) = some d ∧ isIndexLeaf p d = true)

end Changes

variable {i : FlushInput} {staged : HMap Nat Bytes}

theorem lookup_merged (hs : mergeStaged i.dir i.flushes = .ok staged) (p : Nat) :
    staged.lookup p = lastImage i.logs p := by
  obtain ⟨read, hread, hlook⟩ := mergeStaged_spec hs
  have hmap : i.logs = read := by
    have hfilter : i.logs = (i.flushes.map fun f => i.dir.lookup f.version).filterMap id := by
      simp [FlushInput.logs, List.filterMap_map]
    rw [hfilter, hread]
    simp [List.filterMap_map]
  rw [hmap]
  exact hlook p

theorem isSome_merged (hs : mergeStaged i.dir i.flushes = .ok staged) (p : Nat) :
    (staged.lookup p).isSome ↔ i.Stages p := by
  rw [lookup_merged hs, Option.isSome_iff_ne_none, ne_eq, lastImage_eq_none]
  simp only [Stages, Option.isSome_iff_ne_none, ne_eq, not_forall, exists_prop]

theorem mem_dirtyGroups (hs : mergeStaged i.dir i.flushes = .ok staged) {g : Nat} :
    g ∈ i.dirtyGroups staged ↔ i.Changed g := by
  simp only [dirtyGroups, List.mem_dedup, List.mem_append, List.mem_filterMap, Option.map_eq_some_iff]
  refine or_congr_right ⟨?_, ?_⟩
  · rintro ⟨p, hp, ⟨g', j⟩, hloc, rfl⟩
    exact ⟨p, j, (isSome_merged hs p).mp (AList.lookup_isSome.mpr hp), hloc⟩
  · rintro ⟨p, j, hp, hloc⟩
    exact ⟨p, AList.lookup_isSome.mp ((isSome_merged hs p).mpr hp), ⟨g, j⟩, hloc, rfl⟩

theorem mem_dirtyFrames (hs : mergeStaged i.dir i.flushes = .ok staged) {g f : Nat} :
    f ∈ i.dirtyFrames staged g ↔ 0 < i.effectiveThreshold ∧ i.ChangedFrame g f := by
  unfold dirtyFrames ChangedFrame
  cases hf : i.manifest.hasFrames g with
  | false => simp
  | true =>
    have hframes := hf
    simp only [Manifest.hasFrames, Bool.and_eq_true, decide_eq_true_eq, Bool.not_eq_true',
      List.isEmpty_eq_false_iff] at hframes
    have hne : ¬ (i.manifest.subPagesPerFrame = 0 ∨ i.manifest.frameTable g = []) := by
      rintro (h | h)
      · exact absurd h (Nat.pos_iff_ne_zero.mp hframes.1)
      · exact hframes.2 h
    by_cases ht : 0 < i.effectiveThreshold
    · rw [if_pos ⟨rfl, ht⟩, Manifest.dirtyFramesForGroup, if_neg hne, List.mem_insertionSort,
        List.mem_dedup, List.mem_map]
      simp only [true_and, ht, List.mem_filter, groupDirtyPnums, Bool.and_eq_true, decide_eq_true_eq,
        isSome_merged hs]
      constructor
      · rintro ⟨p, ⟨⟨hp, hlt, hst⟩, -⟩, rfl⟩
        exact ⟨p, hp, hlt, hst, rfl⟩
      · rintro ⟨p, hp, hlt, hst, rfl⟩
        exact ⟨p, ⟨⟨hp, hlt, hst⟩, hp⟩, rfl⟩
    · rw [if_neg fun h => ht h.2]
      simp [ht]

theorem useOverride_iff (hs : mergeStaged i.dir i.flushes = .ok staged) {g : Nat} :
    i.useOverride staged g = true ↔ i.FewFrames g := by
  simp only [useOverride, FewFrames, Bool.and_eq_true, decide_eq_true_eq, Bool.not_eq_true',
    List.isEmpty_eq_false_iff]
  have hcount : 0 < i.effectiveThreshold →
      {f | i.ChangedFrame g f}.ncard = (i.dirtyFrames staged g).length := by
    intro ht
    have hset : {f | i.ChangedFrame g f} = ((i.dirtyFrames staged g).toFinset : Set Nat) := by
      ext f
      simp [mem_dirtyFrames hs, ht]
    rw [hset, Set.ncard_coe_finset, List.toFinset_card_of_nodup (i.nodup_dirtyFrames staged g)]
  constructor
  · rintro ⟨⟨⟨-, ht⟩, hne⟩, hlt⟩
    obtain ⟨f, hf⟩ := List.exists_mem_of_ne_nil _ hne
    exact ⟨⟨f, ((mem_dirtyFrames hs).mp hf).2⟩, hcount ht ▸ hlt⟩
  · rintro ⟨⟨f, hf⟩, hlt⟩
    have ht : 0 < i.effectiveThreshold := Nat.zero_lt_of_lt hlt
    have hmem := (mem_dirtyFrames hs).mpr ⟨ht, hf⟩
    exact ⟨⟨⟨hf.1, ht⟩, List.ne_nil_of_mem hmem⟩, hcount ht ▸ hlt⟩

theorem mem_inGroups (hs : mergeStaged i.dir i.flushes = .ok staged) {p : Nat} :
    p ∈ ((i.dirtyGroups staged).flatMap i.manifest.groupPageNums).filter (· < i.manifest.pageCount) ↔
      i.ChangedPage p := by
  simp only [List.mem_filter, List.mem_flatMap, mem_dirtyGroups hs, decide_eq_true_eq, ChangedPage]
  exact and_comm

theorem writes_interior_iff (hs : mergeStaged i.dir i.flushes = .ok staged) {c : Nat} :
    (i.bundlePlans staged).interior.Writes i.manifest.interiorChunkKeys c ↔
      (∃ p, i.Interior p ∧ p / bundleChunkRange i.manifest.pageSize = c) ∧
        i.ChangedChunk i.manifest.interiorChunkKeys c := by
  simp only [bundlePlans, ChunkPlan.writes_chunkPlan, mem_readable, List.mem_dedup, mem_inGroups hs,
    List.mem_filter, decide_eq_true_eq, lookup_merged hs, ChangedChunk]
  refine and_congr_left' ⟨?_, ?_⟩
  · rintro ⟨p, d, ⟨hp, hd⟩, hc⟩
    exact ⟨p, ⟨hp.1, hp.2, by rw [hd]; rfl⟩, hc⟩
  · rintro ⟨p, ⟨hp, hlt, hd⟩, hc⟩
    obtain ⟨d, hd⟩ := Option.isSome_iff_exists.mp hd
    exact ⟨p, d, ⟨⟨hp, hlt⟩, hd⟩, hc⟩

theorem writes_index_iff (hs : mergeStaged i.dir i.flushes = .ok staged) {c : Nat} :
    (i.bundlePlans staged).index.Writes i.manifest.indexChunkKeys c ↔
      (∃ p, i.IndexLeaf p ∧ p / bundleChunkRange i.manifest.pageSize = c) ∧
        i.ChangedChunk i.manifest.indexChunkKeys c := by
  simp only [bundlePlans, ChunkPlan.writes_chunkPlan, List.mem_append, List.mem_filter, mem_readable,
    List.mem_dedup, mem_inGroups hs, decide_eq_true_eq, source, lookup_merged hs, ChangedChunk]
  refine and_congr_left' ⟨?_, ?_⟩
  · rintro ⟨p, d, ⟨⟨hp, hd⟩, hleaf⟩ | ⟨⟨⟨hp, -⟩, hd⟩, hleaf⟩, hc⟩
    · exact ⟨p, .inl ⟨hp, d, hd, hleaf⟩, hc⟩
    · exact ⟨p, .inr ⟨hp.1, hp.2, d, hd, hleaf⟩, hc⟩
  · rintro ⟨p, ⟨hp, d, hd, hleaf⟩ | ⟨hp, hlt, d, hd, hleaf⟩, hc⟩
    · exact ⟨p, d, .inl ⟨⟨hp, hd⟩, hleaf⟩, hc⟩
    · by_cases hleaves : ∃ d', (i.ChangedPage p ∧ (lastImage i.logs p).or (i.cache.page p) = some d') ∧
          isIndexLeaf p d' = true
      · obtain ⟨d', hp', hleaf'⟩ := hleaves
        exact ⟨p, d', .inl ⟨hp', hleaf'⟩, hc⟩
      · refine ⟨p, d, .inr ⟨⟨⟨⟨hp, hlt⟩, ?_⟩, hd⟩, hleaf⟩, hc⟩
        intro hmem
        obtain ⟨⟨q, d'⟩, hx, rfl⟩ := List.mem_map.mp hmem
        obtain ⟨hread, hleaf'⟩ := List.mem_filter.mp hx
        obtain ⟨hin, hd'⟩ := mem_readable.mp hread
        rw [List.mem_dedup] at hin
        rw [source, lookup_merged hs] at hd'
        exact hleaves ⟨d', ⟨(mem_inGroups hs).mp hin, hd'⟩, hleaf'⟩

end FlushInput

namespace SyncInput

section Changes

variable (i : SyncInput)

/-- A group with a dirty page, in the layout in which every dirty page has a group, or one that a local
checkpoint left. -/
def Changed (g : Nat) : Prop :=
  g ∈ i.pendingGroups ∨ ∃ p ∈ i.dirty, ∃ j, i.snap.pageLocation p = some ⟨g, j⟩

/-- A dirty page of a kind. -/
def DirtyOf (kind : Nat → Bytes → Bool) (p : Nat) : Prop :=
  p ∈ i.dirty ∧ ∃ d, i.cache.readPage p = .ok d ∧ kind p d = true

/-- A page that is not dirty, with its bytes in the cache file. -/
def Clean (p : Nat) (d : Bytes) : Prop :=
  p < i.snap.pageCount ∧ p ∉ i.dirty ∧ i.cache.file p = some d

/-- The chunk has no object, or will have none after a VACUUM. -/
def Unkeyed (s : Slot) : Prop := i.vacuum.isSome ∨ i.manifest.keyAt s = none

end Changes

variable {i : SyncInput} {dirtyPages : List (Nat × Bytes)}

theorem mem_groups_iff_changed {g : Nat} : g ∈ i.groups ↔ i.Changed g := by
  simp only [groups, List.mem_dedup, List.mem_append, List.mem_filterMap, Option.map_eq_some_iff, Changed]
  rw [or_comm]
  refine or_congr_right ⟨?_, ?_⟩
  · rintro ⟨p, hp, ⟨g', j⟩, hloc, rfl⟩
    exact ⟨p, hp, j, hloc⟩
  · rintro ⟨p, hp, j, hloc⟩
    exact ⟨p, hp, ⟨g, j⟩, hloc, rfl⟩

theorem mem_readDirty (h : i.readDirty = .ok dirtyPages) {p : Nat} {d : Bytes} :
    (p, d) ∈ dirtyPages ↔ p ∈ i.dirty ∧ i.cache.readPage p = .ok d := by
  constructor
  · intro hmem
    obtain ⟨q, hq, hread⟩ := mapM_inv h _ hmem
    obtain ⟨x, hx, he⟩ := bind_eq_ok.mp hread
    cases he
    exact ⟨hq, hx⟩
  · rintro ⟨hp, hd⟩
    obtain ⟨y, hy, hread⟩ := ok_of_mapM h hp
    obtain ⟨x, hx, he⟩ := bind_eq_ok.mp hread
    cases he
    cases hd.symm.trans hx
    exact hy

theorem mem_dirtyOf (h : i.readDirty = .ok dirtyPages) {kind : Nat → Bytes → Bool} {p : Nat} :
    (∃ d, (p, d) ∈ dirtyPages.filter fun x => kind x.1 x.2) ↔ i.DirtyOf kind p := by
  simp only [List.mem_filter, mem_readDirty h, DirtyOf]
  constructor
  · rintro ⟨d, ⟨hp, hd⟩, hkind⟩
    exact ⟨hp, d, hd, hkind⟩
  · rintro ⟨hp, d, hd, hkind⟩
    exact ⟨d, ⟨hp, hd⟩, hkind⟩

theorem mem_clean {ps : List Nat} {p : Nat} {d : Bytes} :
    (p, d) ∈ readable i.cache.file
      (ps.filter fun p => p < i.snap.pageCount && !i.dirty.contains p).dedup ↔ p ∈ ps ∧ i.Clean p d := by
  simp only [mem_readable, List.mem_dedup, List.mem_filter, Clean, Bool.and_eq_true, decide_eq_true_eq,
    Bool.not_eq_true', List.contains_eq_mem, decide_eq_false_iff_not]
  tauto

theorem lookup_snap_eq_none {s : Slot} :
    i.snap.keyAt s = none ↔ i.vacuum.isSome ∨ i.manifest.keyAt s = none := by
  rw [i.keyAt_snap s]
  cases i.vacuum.isSome <;> simp

theorem writes_interior_iff (h : i.readDirty = .ok dirtyPages) {c : Nat} :
    (i.bundlePlans dirtyPages).interior.Writes i.snap.interiorChunkKeys c ↔
      ∃ p, p / bundleChunkRange i.manifest.pageSize = c ∧ (i.DirtyOf isInteriorPage p ∨
        ((p ∈ i.interiorPages ∧ ∃ d, i.Clean p d) ∧ i.Unkeyed (.interior c))) := by
  have hkeys : i.snap.interiorChunkKeys.lookup c = none ↔ i.Unkeyed (.interior c) :=
    lookup_snap_eq_none (s := .interior c)
  simp only [bundlePlans, ChunkPlan.writes_append, mem_dirtyOf h, mem_clean, exists_and_left, hkeys,
    i.snap_fields.1]

theorem writes_index_iff (h : i.readDirty = .ok dirtyPages) {c : Nat} :
    (i.bundlePlans dirtyPages).index.Writes i.snap.indexChunkKeys c ↔
      ∃ p, p / bundleChunkRange i.manifest.pageSize = c ∧ (i.DirtyOf isIndexLeaf p ∨
        ((p ∈ i.indexPages ∧ ∃ d, i.Clean p d ∧ isIndexLeaf p d = true) ∧ i.Unkeyed (.index c))) := by
  have hkeys : i.snap.indexChunkKeys.lookup c = none ↔ i.Unkeyed (.index c) :=
    lookup_snap_eq_none (s := .index c)
  simp only [bundlePlans, ChunkPlan.writes_append, mem_dirtyOf h, hkeys, i.snap_fields.1]
  simp only [List.mem_filter, mem_clean, and_assoc, exists_and_left]

end SyncInput

namespace ImportInput

/-- A page of some group, of a kind. -/
def PageOf (i : ImportInput) (kind : Nat → Bytes → Bool) (p : Nat) : Prop :=
  (∃ g ∈ i.groupPagesList, p ∈ g) ∧ ∃ d, i.file p = some d ∧ kind p d = true

variable {i : ImportInput} {groups : List (List (Nat × Bytes))}

theorem mem_readGroup {pages : List Nat} {out : List (Nat × Bytes)} (h : i.readGroup pages = .ok out)
    {p : Nat} {d : Bytes} : (p, d) ∈ out ↔ p ∈ pages ∧ i.file p = some d := by
  constructor
  · intro hmem
    obtain ⟨q, hq, hread⟩ := mapM_inv h _ hmem
    cases hfile : i.file q with
    | none =>
      simp only [hfile] at hread
      cases hread
    | some x =>
      simp only [hfile] at hread
      cases hread
      exact ⟨hq, hfile⟩
  · rintro ⟨hp, hd⟩
    obtain ⟨y, hy, hread⟩ := ok_of_mapM h hp
    simp only [hd] at hread
    cases hread
    exact hy

theorem mem_readGroups (h : i.groupPagesList.mapM i.readGroup = .ok groups) {p : Nat} {d : Bytes} :
    (p, d) ∈ groups.flatten ↔ (∃ g ∈ i.groupPagesList, p ∈ g) ∧ i.file p = some d := by
  rw [List.mem_flatten]
  constructor
  · rintro ⟨out, hout, hmem⟩
    obtain ⟨g, hg, hread⟩ := mapM_inv h out hout
    obtain ⟨hp, hd⟩ := (mem_readGroup hread).mp hmem
    exact ⟨⟨g, hg, hp⟩, hd⟩
  · rintro ⟨⟨g, hg, hp⟩, hd⟩
    obtain ⟨out, hout, hread⟩ := ok_of_mapM h hg
    exact ⟨out, hout, (mem_readGroup hread).mpr ⟨hp, hd⟩⟩

/-- The chunks of the pages of a kind are all written. -/
theorem writes_iff (h : i.groupPagesList.mapM i.readGroup = .ok groups) {kind : Nat → Bytes → Bool}
    {c : Nat} :
    (chunkPlan i.pageSize (groups.flatten.filter fun d => kind d.1 d.2)
        ((groups.flatten.filter fun d => kind d.1 d.2).map (·.1))).Writes ∅ c ↔
      ∃ p, p / bundleChunkRange i.pageSize = c ∧ i.PageOf kind p := by
  rw [ChunkPlan.writes_all]
  simp only [List.mem_filter, mem_readGroups h, PageOf]
  refine exists_congr fun p => and_congr_right fun _ => ?_
  constructor
  · rintro ⟨d, ⟨hp, hd⟩, hkind⟩
    exact ⟨hp, d, hd, hkind⟩
  · rintro ⟨hp, d, hd, hkind⟩
    exact ⟨d, ⟨hp, hd⟩, hkind⟩

end ImportInput

namespace Writer

/-- The places of the pages a writer has changes for: the groups and frames they are in, and the bundle
chunks they belong to. It depends on what the writer is given only. -/
def Changes : Writer → Slot → Prop
  | .flush i, .group g => i.Changed g ∧ ¬ i.FewFrames g
  | .flush i, .override g f => i.Changed g ∧ i.FewFrames g ∧ i.ChangedFrame g f
  | .flush i, .interior c => i.isLocal = false ∧
      (∃ p, i.Interior p ∧ p / bundleChunkRange i.manifest.pageSize = c) ∧
      i.ChangedChunk i.manifest.interiorChunkKeys c
  | .flush i, .index c => i.isLocal = false ∧
      (∃ p, i.IndexLeaf p ∧ p / bundleChunkRange i.manifest.pageSize = c) ∧
      i.ChangedChunk i.manifest.indexChunkKeys c
  | .sync i, .group g => i.Changed g
  | .sync _, .override _ _ => False
  | .sync i, .interior c => ∃ p, p / bundleChunkRange i.manifest.pageSize = c ∧
      (i.DirtyOf isInteriorPage p ∨
        ((p ∈ i.interiorPages ∧ ∃ d, i.Clean p d) ∧ i.Unkeyed (.interior c)))
  | .sync i, .index c => ∃ p, p / bundleChunkRange i.manifest.pageSize = c ∧
      (i.DirtyOf isIndexLeaf p ∨
        ((p ∈ i.indexPages ∧ ∃ d, i.Clean p d ∧ isIndexLeaf p d = true) ∧ i.Unkeyed (.index c)))
  | .importFile i, .group g => g < i.groupPagesList.length
  | .importFile _, .override _ _ => False
  | .importFile i, .interior c => ∃ p, p / bundleChunkRange i.pageSize = c ∧ i.PageOf isInteriorPage p
  | .importFile i, .index c => ∃ p, p / bundleChunkRange i.pageSize = c ∧
      i.PageOf (fun p d => !isInteriorPage p d && isIndexLeaf p d) p

variable {wr : Writer} {us : List (ObjectKey × Bytes)}

/-- What is written is what changed. -/
theorem slots_iff_changes (h : wr.encoded = .ok (some us)) {s : Slot} : wr.Slots s ↔ wr.Changes s := by
  cases wr with
  | flush i =>
    obtain ⟨staged, hstaged, -⟩ := bind_eq_ok.mp h
    cases s with
    | group g =>
      simp [Slots, Changes, hstaged, FlushInput.mem_dirtyGroups hstaged,
        ← FlushInput.useOverride_iff hstaged]
    | override g f =>
      simp only [Slots, Changes, hstaged, Except.ok.injEq, exists_eq_left', FlushInput.mem_dirtyGroups hstaged,
        FlushInput.mem_dirtyFrames hstaged, FlushInput.useOverride_iff hstaged]
      exact and_congr_right fun _ => and_congr_right fun hfew =>
        and_iff_right (Nat.zero_lt_of_lt hfew.2)
    | interior c => simp [Slots, Changes, hstaged, FlushInput.writes_interior_iff hstaged]
    | index c => simp [Slots, Changes, hstaged, FlushInput.writes_index_iff hstaged]
  | sync i =>
    simp only [encoded] at h
    split at h
    · cases h
    split at h
    · cases h
    obtain ⟨cc, -, h⟩ := bind_eq_ok.mp h
    obtain ⟨w, -, h⟩ := bind_eq_ok.mp h
    obtain ⟨dirtyPages, hread, -⟩ := bind_eq_ok.mp h
    cases s with
    | group g => exact SyncInput.mem_groups_iff_changed
    | override g f => exact Iff.rfl
    | interior c => simp [Slots, Changes, hread, SyncInput.writes_interior_iff hread]
    | index c => simp [Slots, Changes, hread, SyncInput.writes_index_iff hread]
  | importFile i =>
    simp only [encoded] at h
    split at h
    · cases h
    obtain ⟨groups, hgroups, -⟩ := bind_eq_ok.mp h
    cases s with
    | group g => exact Iff.rfl
    | override g f => exact Iff.rfl
    | interior c =>
      simp only [Slots, Changes, hgroups, Except.ok.injEq, exists_eq_left', ← ImportInput.writes_iff hgroups]
      rfl
    | index c =>
      simp only [Slots, Changes, hgroups, Except.ok.injEq, exists_eq_left', ← ImportInput.writes_iff hgroups]
      rfl

/-! ### The stored database -/

/-- Nothing the writer uploads has a key of the stored manifest, and every page of the stored database
reads the same whichever of the uploads were made. -/
def Unnoticed (wr : Writer) (us : List (ObjectKey × Bytes)) : Prop :=
  ∀ remote, wr.backend.manifest = some remote →
    (∀ k ∈ us.map (·.1), k ∉ remote.referencedKeys) ∧
      ∀ part ⊆ us, ∀ cfg p, coldRead cfg remote (wr.backend.putPageGroups part) p =
        coldRead cfg remote wr.backend p

/-- A writer that does not store its manifest leaves the stored database alone exactly when that has no
object of the version the writer mints at a place the writer has changes for. -/
theorem rejected_writer_iff (h : wr.encoded = .ok (some us)) :
    wr.Unnoticed us ↔ ∀ remote, wr.backend.manifest = some remote →
      ∀ s v, wr.Changes s → s.key v ∈ remote.referencedKeys → v ≠ wr.minted := by
  constructor
  · rintro hun remote hremote s v hs hk rfl
    exact (hun remote hremote).1 _ ((mem_encoded_iff h).mpr ⟨s, (slots_iff_changes h).mpr hs, rfl⟩) hk
  · intro hspared remote hremote
    have hkeys : ∀ k ∈ us.map (·.1), k ∉ remote.referencedKeys := by
      intro k hk href
      obtain ⟨s, hs, rfl⟩ := (mem_encoded_iff h).mp hk
      exact hspared remote hremote s wr.minted ((slots_iff_changes h).mp hs) href rfl
    refine ⟨hkeys, fun part hpart cfg p => coldRead_congr (fun s k hs => ?_) p⟩
    refine Backend.putPageGroups_of_notMem fun hmem => ?_
    obtain ⟨u, hu, rfl⟩ := List.mem_map.mp hmem
    exact hkeys u.1 (List.mem_map_of_mem (hpart hu)) (Manifest.mem_referencedKeys.mpr ⟨s, hs⟩)

/-- A writer that starts from a manifest as new as the stored one. -/
theorem fresh_of_newer {remote : Manifest} (hw : WellKeyed remote)
    (hnew : remote.version < wr.minted) {s : Slot} {v : Nat} (hk : s.key v ∈ remote.referencedKeys) :
    v ≠ wr.minted := by
  rintro rfl
  obtain ⟨s', hs'⟩ := Manifest.mem_referencedKeys.mp hk
  obtain ⟨v, hle, hkv⟩ := hw.version s' _ hs'
  rw [Slot.version_key] at hkv
  cases hkv
  omega

/-! ### Two handles of the example database -/

namespace Example

theorem dirty_nodup : [0].Nodup := List.nodup_singleton 0

/-- A handle that wrote `x` to page 0 of the example database, over the objects of `b`. -/
def handle (x : UInt8) (b : Backend) : SyncInput where
  cfg := .plain
  manifest := ReadPaths.Example.manifest
  cache := ReadPaths.Example.firstPage x
  backend := b
  dirty := [0]
  pendingGroups := []
  pendingPageCount := 2
  lastSchemaCookie := none
  interiorPages := []
  indexPages := []
  gcEnabled := false
  walkAllBtrees := fun _ _ _ => ⟨[], []⟩
  dirty_nodup := dirty_nodup

/-- The example database in the backend. -/
def stored : Backend :=
  { ReadPaths.Example.backend 2 with manifest := some ReadPaths.Example.manifest }

/-- The backend after the sync of a handle that wrote 8. -/
def published : Backend :=
  match (handle 8 stored).durableSync with
  | .ok (some out) => out.2
  | _ => stored

/-- A second handle wrote 7 and has not seen that sync. -/
def stale : SyncInput := handle 7 published

end Example

/-- A handle that is up to date can stop anywhere. -/
theorem current_sync_unnoticed : ∃ us, encoded (.sync (Example.handle 7 Example.stored)) =
    .ok (some us) ∧ Unnoticed (.sync (Example.handle 7 Example.stored)) us := by
  obtain ⟨us, hus⟩ := exists_ok_some (show
    ((encoded (.sync (Example.handle 7 Example.stored))).toOption.join).isSome = true by decide +kernel)
  refine ⟨us, hus, (rejected_writer_iff hus).mpr fun remote hremote s v _ hk => ?_⟩
  cases hremote
  exact fresh_of_newer ReadPaths.Example.wellKeyed (by decide) hk

/-- Both handles mint the same version: the sync of the second one is refused after it has replaced
the object the first one's manifest names. -/
theorem stale_sync_noticed : ∃ us, encoded (.sync Example.stale) = .ok (some us) ∧
    (∃ e, Example.stale.durableSync = .error e) ∧ ¬ Unnoticed (.sync Example.stale) us := by
  obtain ⟨us, hus⟩ := exists_ok_some
    (show ((encoded (.sync Example.stale)).toOption.join).isSome = true by decide +kernel)
  have hdiff : ((encoded (.sync Example.stale)).toOption.join.bind fun us =>
      Example.published.manifest.map fun m =>
        ((coldRead .plain m (Example.published.putPageGroups us) 0).toOption.bind (·.head?),
          (coldRead .plain m Example.published 0).toOption.bind (·.head?))) =
        some (some 7, some 8) := by
    decide +kernel
  simp only [hus, Except.toOption, Option.join_some, Option.bind_some, Option.map_eq_some_iff] at hdiff
  obtain ⟨remote, hremote, hreads⟩ := hdiff
  refine ⟨us, hus, ?_, fun hun => ?_⟩
  · have herr : Example.stale.durableSync.toOption.isNone = true := by decide +kernel
    revert herr
    cases Example.stale.durableSync with
    | error e => exact fun _ => ⟨e, rfl⟩
    | ok out => exact fun herr => absurd herr Bool.false_ne_true
  · have hb : backend (.sync Example.stale) = Example.published := by
      simp only [backend, Example.stale, Example.handle]
    unfold Unnoticed at hun
    rw [hb] at hun
    rw [(hun remote hremote).2 us (List.Subset.refl us) .plain 0] at hreads
    simp only [Prod.mk.injEq] at hreads
    have hbyte := hreads.1.symm.trans hreads.2
    cases hbyte

end Writer

end Turbolite
