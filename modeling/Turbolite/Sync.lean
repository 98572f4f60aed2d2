import Turbolite.Bundles
import Turbolite.StoredState

/-!
# Turbolite.Sync

The durable `sync` of a handle: detect a VACUUM and regroup, give groups to new pages, rewrite every
group that has a dirty page (and those a local checkpoint left pending), publish, and read the result
back cold. `sync_preserves_image_iff` says exactly when the published database is the one the handle
had.
-/

namespace Turbolite

open Blocks Results ReadPaths

/-- What the durable sync of a handle works on. The handle's `pages_per_group` is the manifest's: they differ
only while `set_manifest` has put a manifest of another group size under an open handle. The B-tree walker is
a parameter. -/
structure SyncInput where
  cfg : CodecConfig
  manifest : Manifest
  cache : DiskCache manifest.pageSize
  backend : Backend
  dirty : List Nat
  pendingGroups : List Nat
  pendingPageCount : Nat
  lastSchemaCookie : Option Nat
  interiorPages : List Nat
  indexPages : List Nat
  gcEnabled : Bool
  walkAllBtrees : Nat → Nat → (Nat → Option Bytes) → Walk
  dirty_nodup : dirty.Nodup

namespace SyncInput

variable (i : SyncInput)

/-! ### The snapshot -/

/-- The page count of a VACUUMed file: page 0 is dirty, its schema cookie changed, and more than half
of the pages are dirty. -/
def vacuum : Option Nat :=
  if 0 ∈ i.dirty ∧ i.manifest.strategy = .bTreeAware then
    match i.cache.file 0, i.lastSchemaCookie with
    | some page0, some prev =>
      if 28 ≤ page0.length ∧ beU32At page0 24 ≠ prev ∧
          max i.manifest.pageCount 1 < 2 * i.dirty.length then
        some (if 32 ≤ page0.length then beU32At page0 28 else i.manifest.pageCount)
      else none
    | _, _ => none
  else none

/-- The manifest after the VACUUM re-walk, if any. -/
def walked : Manifest :=
  match i.vacuum with
  | some livePageCount => i.manifest.rewalk livePageCount
      (i.walkAllBtrees livePageCount i.manifest.pageSize i.cache.file) i.manifest.pagesPerGroup
  | none => i.manifest

/-- Dirty pages without a group. -/
def unassigned : List Nat := i.dirty.filter fun p => (i.walked.pageLocation p).isNone

/-- `manifest_snap`: every dirty page has a group. -/
def snap : Manifest := i.walked.assignNewPagesToGroups i.unassigned i.manifest.pagesPerGroup

/-- The page count the sync publishes. -/
def newPageCount : Nat := max i.snap.pageCount (i.vacuum.getD i.pendingPageCount)

/-- The groups to rewrite: those of the dirty pages, and those pending from local checkpoints. -/
def groups : List Nat :=
  (i.dirty.filterMap (fun p => (i.snap.pageLocation p).map (·.groupId)) ++ i.pendingGroups).dedup

/-- `chunks(0)`, or a dirty page that still has no group. -/
def panics : Bool :=
  (decide (i.manifest.pagesPerGroup = 0) && decide (i.manifest.strategy = .bTreeAware) &&
    (i.vacuum.isSome || !i.unassigned.isEmpty)) ||
  i.dirty.any fun p => (i.snap.pageLocation p).isNone

/-! ### Merge and encode -/

/-- The existing object of a group; it has to be there, and it is opened without a dictionary. -/
def fetchExisting (gid : Nat) : IoResult (List Bytes) :=
  match i.snap.groupKey gid with
  | none => .error (.io .invalidData
      s!"sync: group {gid} has missing pages and no existing backend key")
  | some key =>
    match i.backend.getPageGroup key with
    | none => .error (.io .invalidData
        s!"sync: group {gid} has missing pages and existing backend key is absent")
    | some data => decodeBasePages i.cfg none i.snap gid data

/-- One group: cached pages, then the existing object. -/
def rewrite (gid : Nat) : IoResult Rewrite :=
  rewriteGroup i.cfg i.snap i.cache.page gid (i.fetchExisting gid) fun p =>
    .io .invalidData s!"sync: page {p} in group {gid} is missing and has no backend source"

theorem groups_nodup : i.groups.Nodup := List.nodup_dedup _

theorem gid_rewrite (gid : Nat) (r : Rewrite) (h : i.rewrite gid = .ok r) : r.gid = gid :=
  gid_of_rewriteGroup h

/-- Dirty pages must be readable for the bundles. -/
def readDirty : IoResult (List (Nat × Bytes)) :=
  i.dirty.mapM fun p => do
    let data ← i.cache.readPage p
    .ok (p, data)

/-- Interior pages (dirty ones by their type, known ones as far as they can be read) and index leaves
(dirty ones, and those of the cache's index tier). -/
def bundlePlans (dirtyPages : List (Nat × Bytes)) : BundlePlans :=
  let clean (ps : List Nat) : List (Nat × Bytes) :=
    readable i.cache.file (ps.filter fun p => p < i.snap.pageCount && !i.dirty.contains p).dedup
  let dirtyInterior := dirtyPages.filter fun d => isInteriorPage d.1 d.2
  let dirtyLeaves := dirtyPages.filter fun d => isIndexLeaf d.1 d.2
  { interior := chunkPlan i.snap.pageSize (dirtyInterior ++ clean i.interiorPages)
      (dirtyInterior.map (·.1))
    index := chunkPlan i.snap.pageSize
      (dirtyLeaves ++ (clean i.indexPages).filter fun d => isIndexLeaf d.1 d.2)
      (dirtyLeaves.map (·.1))
    encode := fun aad _ pages => i.cfg.encodeInteriorBundle aad i.snap.pageSize pages }

/-- The publication, with the keys a VACUUM leaves behind. -/
def publication (changeCounter : Nat) (w : GroupWrites) (plans : BundlePlans) : Publication :=
  let p := syncPublication i.snap i.snap i.manifest.pagesPerGroup (i.vacuum.getD i.pendingPageCount)
    changeCounter ((i.cache.file 0).or i.snap.dbHeader) w plans
  match i.vacuum with
  | some _ => { p with replaced := i.manifest.referencedKeys ++ p.replaced }
  | none => p

/-- The durable path of `sync`: the manifest it published and the backend after it, or `none` when
there was nothing to do. -/
def durableSync (i : SyncInput) : IoResult (Option (Manifest × Backend)) :=
  if i.dirty = [] ∧ i.pendingGroups = [] then .ok none
  else if i.panics then .error .panic
  else do
    let changeCounter ← resolveManifestReplayCursor i.cache i.snap
    let w ← rewriteGroups i.rewrite i.gid_rewrite i.groups i.groups_nodup
    let dirtyPages ← i.readDirty
    let p := i.publication changeCounter w (i.bundlePlans dirtyPages)
    let b ← i.backend.publish p i.gcEnabled
    .ok (some (p.manifest, b))

/-! ### What the sync should preserve -/

variable (i : SyncInput) (ct : Nat → GroupContent)

/-- The bytes of a page before the sync: the cached ones, else the stored ones. -/
def expected (p : Nat) : Option Bytes := (i.cache.page p).or (pageBytes i.manifest ct p)

/-- The layout the sync publishes. -/
def layout : Manifest := ({ i.snap with pageCount := i.newPageCount } : Manifest).buildPageIndex

/-- When page `p` keeps the bytes `v`. A page of a rewritten group must be reached by the new object;
up to the first page past the snapshot's page count it comes from the cache or from the base object,
which must not be covered by a different override; from there on it is written as zeros. Any other
page is read as the old objects have it. -/
def Keeps (p : Nat) (v : Bytes) : Prop :=
  match i.layout.pageLocation p with
  | none => v = zeroPage i.manifest
  | some ⟨g, j⟩ =>
    if g ∈ i.groups then
      ObjectReaches i.manifest.subPagesPerFrame (i.layout.groupPageNums g).length
          (i.snap.groupPageNums g).length j ∧
        if j < (liveSlots i.snap g).length then
          i.cache.page p = none → (storedBase i.snap ct g)[j]? = some v
        else v = zeroPage i.manifest
    else coldBytes i.layout ct p = some v

/-- Slot `j` of the rewritten group `g` holds `v` for page `p`. -/
def Merged (g j p : Nat) (v : Bytes) : Prop :=
  ObjectReaches i.manifest.subPagesPerFrame (i.layout.groupPageNums g).length
      (i.snap.groupPageNums g).length j ∧
    if j < (liveSlots i.snap g).length then
      (i.cache.page p).or (storedBase i.snap ct g)[j]? = some v
    else v = zeroPage i.manifest

/-- The sync publishes `v` for page `p`. -/
def Lands (p : Nat) (v : Bytes) : Prop :=
  match i.layout.pageLocation p with
  | none => v = zeroPage i.manifest
  | some ⟨g, j⟩ => if g ∈ i.groups then i.Merged ct g j p v else coldBytes i.layout ct p = some v

variable {i ct}

/-! ### The snapshot -/

theorem walked_indexed (h : i.manifest.Indexed) : i.walked.Indexed := by
  unfold walked
  split
  · exact Manifest.indexed_buildPageIndex _
  · exact h

theorem snap_eq (i : SyncInput) : ∃ n gps idx,
    i.snap = { i.walked with pageCount := n, groupPages := gps, pageIndex := idx } :=
  Manifest.assignNewPagesToGroups_eq ..

theorem snap_positional (h : i.manifest.Indexed) (hst : i.snap.strategy = .positional) :
    i.snap.groupPages = [] := by
  have hw : i.walked.strategy = .positional :=
    (Manifest.assignNewPagesToGroups_strategy ..).symm.trans hst
  exact (Manifest.assignNewPagesToGroups_groupPages hw ..).trans
    ((walked_indexed h).positional hw)

theorem snap_nodup (h : i.manifest.Indexed) (hnd : ∀ g ∈ i.walked.groupPages, g.Nodup) :
    ∀ g ∈ i.snap.groupPages, g.Nodup := by
  refine Manifest.nodup_assignNewPagesToGroups hnd (i.dirty_nodup.filter _) ?_
  intro hst g hg p hp hmem
  have hsome := (walked_indexed h).isSome_pageLocation hst hg hp
  obtain ⟨-, hnone⟩ := List.mem_filter.mp hmem
  cases hl : i.walked.pageLocation p with
  | none => rw [hl] at hsome; cases hsome
  | some loc => rw [hl] at hnone; cases hnone

theorem nodup_walked (hnd : ∀ g ∈ i.manifest.groupPages, g.Nodup)
    (hwalk : i.vacuum.isSome → ∀ g ∈ i.walked.groupPages, g.Nodup) :
    ∀ g ∈ i.walked.groupPages, g.Nodup := by
  cases hv : i.vacuum with
  | some n => exact hwalk (by rw [hv]; rfl)
  | none =>
    have hwm : i.walked = i.manifest := by simp only [walked, hv]
    rw [hwm]
    exact hnd

/-- The snapshot names what the manifest names, or nothing after a VACUUM. -/
theorem keyAt_snap (i : SyncInput) (s : Slot) :
    i.snap.keyAt s = if i.vacuum.isSome then none else i.manifest.keyAt s := by
  rw [snap, Manifest.keyAt_assignNewPagesToGroups, walked]
  cases i.vacuum with
  | none => rfl
  | some n => exact Manifest.keyAt_rewalk ..

theorem snap_version (i : SyncInput) : i.snap.version = i.manifest.version := by
  rw [snap, Manifest.version_assignNewPagesToGroups, walked]
  cases i.vacuum with
  | none => rfl
  | some n => exact Manifest.version_rewalk ..

theorem walked_fields (i : SyncInput) : i.walked.pageSize = i.manifest.pageSize ∧
    i.walked.subPagesPerFrame = i.manifest.subPagesPerFrame ∧
    i.walked.pagesPerGroup = i.manifest.pagesPerGroup := by
  unfold walked
  cases i.vacuum with
  | none => exact ⟨rfl, rfl, rfl⟩
  | some n =>
    obtain ⟨st, idx, h⟩ := Manifest.rewalk_eq i.manifest n
      (i.walkAllBtrees n i.manifest.pageSize i.cache.file) i.manifest.pagesPerGroup
    simp only [h, and_self]

theorem snap_fields (i : SyncInput) : i.snap.pageSize = i.manifest.pageSize ∧
    i.snap.subPagesPerFrame = i.manifest.subPagesPerFrame ∧
    i.snap.pagesPerGroup = i.manifest.pagesPerGroup := by
  obtain ⟨n, gps, idx, h⟩ := i.snap_eq
  rw [h]
  exact i.walked_fields

/-- The objects the snapshot names hold what they held; after a VACUUM it names none. -/
theorem snap_stored (h : StoredObjects i.cfg i.manifest i.backend ct) :
    StoredObjects i.cfg i.snap i.backend ct := by
  obtain ⟨n, gps, idx, hsnap⟩ := i.snap_eq
  rw [hsnap]
  refine StoredObjects.of_layout ?_ n gps idx
  unfold walked
  cases i.vacuum with
  | none => exact h
  | some live =>
    obtain ⟨st, idx', hr⟩ := Manifest.rewalk_eq i.manifest live
      (i.walkAllBtrees live i.manifest.pageSize i.cache.file) i.manifest.pagesPerGroup
    simp only [hr]
    exact ⟨h.pageSize_pos, h.pageSize_lt, fun _ _ => rfl, fun _ _ => rfl, fun _ hk => by cases hk⟩

/-- The snapshot's list of a group is the beginning of the published one. -/
theorem snap_slot (h : i.manifest.Indexed) {p g j : Nat}
    (hloc : i.layout.pageLocation p = some ⟨g, j⟩) (hj : j < (i.snap.groupPageNums g).length) :
    (i.snap.groupPageNums g)[j]? = some p := by
  have hslot := (Manifest.indexed_buildPageIndex _).located hloc
  cases hst : i.snap.strategy with
  | bTreeAware =>
    have hl : i.layout.strategy = .bTreeAware := by
      simp [layout, Manifest.buildPageIndex, hst]
    have hg : i.layout.groupPages = i.snap.groupPages := by
      simp [layout, Manifest.buildPageIndex, hst]
    rw [Manifest.groupPageNums_bTreeAware hst, ← hg, ← Manifest.groupPageNums_bTreeAware hl]
    exact hslot
  | positional =>
    have hgp := snap_positional h hst
    have hl : i.layout.strategy = .positional := by
      simp [layout, Manifest.buildPageIndex, hst, hgp]
    have hppg : i.layout.pagesPerGroup = i.snap.pagesPerGroup := by
      simp [layout, Manifest.buildPageIndex, hst, hgp]
    change (i.layout.groupPageNums g)[j]? = some p at hslot
    rw [Manifest.groupPageNums_positional hst] at hj ⊢
    rw [Manifest.groupPageNums_positional hl, hppg] at hslot
    obtain ⟨hlt, hval⟩ := List.getElem?_eq_some_iff.mp hslot
    rw [List.length_range'] at hj
    rw [List.getElem?_range' hj, ← hval, List.getElem_range']

/-- The published layout over the snapshot's objects. -/
theorem layout_eq (i : SyncInput) : ∃ st idx, i.layout =
    { i.snap with pageCount := i.newPageCount, strategy := st, pageIndex := idx } :=
  Manifest.buildPageIndex_eq _

/-! ### What a successful sync did -/

/-- The publication as the writers module has it. -/
def core (i : SyncInput) (changeCounter : Nat) (w : GroupWrites) (plans : BundlePlans) :
    Publication :=
  syncPublication i.snap i.snap i.manifest.pagesPerGroup (i.vacuum.getD i.pendingPageCount)
    changeCounter ((i.cache.file 0).or i.snap.dbHeader) w plans

theorem publication_manifest (i : SyncInput) (cc : Nat) (w : GroupWrites) (plans : BundlePlans) :
    (i.publication cc w plans).manifest = (i.core cc w plans).manifest := by
  unfold publication core
  cases i.vacuum <;> rfl

theorem publication_uploads (i : SyncInput) (cc : Nat) (w : GroupWrites) (plans : BundlePlans) :
    (i.publication cc w plans).uploads = (i.core cc w plans).uploads := by
  unfold publication core
  cases i.vacuum <;> rfl

theorem publication_publishes (i : SyncInput) (cc : Nat) {w : GroupWrites} (hw : w.frames = [])
    (plans : BundlePlans) : Publishes i.manifest (i.publication cc w plans) := by
  have hsync : Publishes i.snap (i.core cc w plans) :=
    syncPublication_publishes (fun _ => rfl) i.manifest.pagesPerGroup
      (i.vacuum.getD i.pendingPageCount) cc ((i.cache.file 0).or i.snap.dbHeader) hw plans
  have hkeys := i.keyAt_snap
  unfold core at hsync
  unfold publication
  cases hv : i.vacuum with
  | none =>
    rw [hv] at hsync hkeys
    exact hsync.congr i.snap_version.symm fun s => (hkeys s).symm
  | some live =>
    rw [hv] at hsync hkeys
    exact hsync.of_cleared i.snap_version.symm hkeys

theorem durableSync_inv {new : Manifest} {b' : Backend}
    (h : i.durableSync = .ok (some (new, b'))) : ∃ cc w plans, w.frames = [] ∧
      w.rewrites.map (·.gid) = i.groups ∧ (∀ r ∈ w.rewrites, i.rewrite r.gid = .ok r) ∧
      new = (i.publication cc w plans).manifest ∧
      i.backend.publish (i.publication cc w plans) i.gcEnabled = .ok b' := by
  unfold durableSync at h
  split at h
  · cases h
  · split at h
    · cases h
    · obtain ⟨cc, -, h⟩ := bind_eq_ok.mp h
      obtain ⟨w, hw, h⟩ := bind_eq_ok.mp h
      obtain ⟨dirtyPages, -, h⟩ := bind_eq_ok.mp h
      obtain ⟨b, hb, h⟩ := bind_eq_ok.mp h
      cases h
      obtain ⟨hf, hg, hr⟩ := rewriteGroups_inv hw
      exact ⟨cc, w, _, hf, hg, hr, rfl, hb⟩

/-- The published manifest has the published layout. -/
theorem core_layout (i : SyncInput) (cc : Nat) (w : GroupWrites) (plans : BundlePlans) :
    (∀ p, (i.core cc w plans).manifest.pageLocation p = i.layout.pageLocation p) ∧
      (∀ g, (i.core cc w plans).manifest.groupPageNums g = i.layout.groupPageNums g) ∧
      (i.core cc w plans).manifest.pageCount = i.newPageCount := by
  have hl := Manifest.buildPageIndex_layout
    (syncManifest i.snap i.snap i.manifest.pagesPerGroup (i.vacuum.getD i.pendingPageCount) cc
      ((i.cache.file 0).or i.snap.dbHeader) w plans)
    { i.snap with pageCount := i.newPageCount } rfl rfl rfl i.snap_fields.2.2.symm
  refine ⟨hl.1, hl.2, ?_⟩
  obtain ⟨st, idx, h⟩ := Manifest.buildPageIndex_eq
    (syncManifest i.snap i.snap i.manifest.pagesPerGroup (i.vacuum.getD i.pendingPageCount) cc
      ((i.cache.file 0).or i.snap.dbHeader) w plans)
  exact (congrArg Manifest.pageCount h).trans rfl

/-! ### The image after a sync -/

section Image

variable {new : Manifest} {b' : Backend} {w : GroupWrites}

/-- The content of the groups after a sync that rewrote `w`. -/
def contentAfterSync (i : SyncInput) (ct : Nat → GroupContent) (w : GroupWrites) :
    Nat → GroupContent :=
  contentAfter w (fun g => mergedPages i.snap i.cache.page (storedBase i.snap ct g) g) (fun _ _ => []) ct

theorem fetchExisting_inv (hc : i.cfg.codecs.Lawful)
    (h : StoredObjects i.cfg i.snap i.backend ct) {gid : Nat} {pages : List Bytes}
    (hf : i.fetchExisting gid = .ok pages) :
    ∀ (j : Nat) d, pages[j]? = some d → (storedBase i.snap ct gid)[j]? = some d := by
  unfold fetchExisting at hf
  split at hf
  · cases hf
  · rename_i key hk
    split at hf
    · cases hf
    · rename_i data hd
      rw [storedBase, if_pos (by rw [hk]; rfl)]
      exact h.decodeBasePages_inv hc (.inl rfl) (by rw [hk]; exact hd) hf

/-- A group the sync rewrote: every visited page had a source, and the object holds the merge. -/
theorem rewrite_inv (hc : i.cfg.codecs.Lawful) (h : StoredObjects i.cfg i.snap i.backend ct)
    {r : Rewrite} (hr : i.rewrite r.gid = .ok r) :
    (∀ j p : Nat, (liveSlots i.snap r.gid)[j]? = some p →
      ((i.cache.page p).or (storedBase i.snap ct r.gid)[j]?).isSome) ∧
    RewriteHolds i.cfg i.snap r (mergedPages i.snap i.cache.page (storedBase i.snap ct r.gid) r.gid) := by
  have hsized : ∀ p d, i.cache.page p = some d → d.length = i.snap.pageSize := by
    intro p d hd
    rw [i.snap_fields.1]
    exact i.cache.sized_page hd
  exact rewriteGroup_holds hc h hsized (fun pages hp => fetchExisting_inv hc h hp) hr

variable (hc : i.cfg.codecs.Lawful) (hst : Stored i.cfg i.manifest i.backend ct)
  (hw : WellKeyed i.manifest) (hnd : ∀ g ∈ i.walked.groupPages, g.Nodup)
  (hsize : ∀ g, 8 + (i.snap.groupPageNums g).length * i.snap.pageSize ≤
    maxTieredDecompressedBytes)

include hc hst hw hnd hsize

/-- The backend after the sync, as pages. -/
theorem stored_after (hok : i.durableSync = .ok (some (new, b'))) : ∃ w : GroupWrites,
    w.frames = [] ∧ w.rewrites.map (·.gid) = i.groups ∧
    (∀ r ∈ w.rewrites, i.rewrite r.gid = .ok r) ∧
    Published i.snap new i.backend b' w (i.snap.version + 1) ∧
    Stored i.cfg new b' (i.contentAfterSync ct w) ∧
    (∀ p, new.pageLocation p = i.layout.pageLocation p) ∧
    (∀ g, new.groupPageNums g = i.layout.groupPageNums g) ∧ new.pageCount = i.newPageCount := by
  obtain ⟨cc, w, plans, hf, hg, hr, rfl, hpub⟩ := durableSync_inv hok
  have hsnap : StoredObjects i.cfg i.snap i.backend ct := snap_stored hst.toStoredObjects
  have hkeys : ∀ s k, i.snap.keyAt s = some k → i.manifest.keyAt s = some k := by
    intro s k hs
    rw [i.keyAt_snap] at hs
    split at hs
    · cases hs
    · exact hs
  have hp : Published i.snap (i.publication cc w plans).manifest i.backend b' w
      (i.snap.version + 1) :=
    sync_published hf hw hkeys (i.publication_publishes cc hf plans)
      (i.publication_manifest cc w plans) (i.publication_uploads cc w plans) hpub
  have hlayout := i.core_layout cc w plans
  rw [← i.publication_manifest] at hlayout
  refine ⟨w, hf, hg, hr, hp, ?_, hlayout⟩
  refine hp.stored hsnap (snap_nodup hst.indexed hnd) (fun r hrw => ⟨?_, ?_⟩) fun x hx => ?_
  · exact (rewrite_inv hc hsnap (hr r hrw)).2
  · rw [length_mergedPages]
    exact hsize r.gid
  · rw [hf] at hx
    cases hx

/-- One page after the sync, from the cache, the base object or an object left alone. -/
theorem coldRead_after (hok : i.durableSync = .ok (some (new, b'))) {p : Nat}
    (hp : p < i.newPageCount) (v : Bytes) :
    coldRead i.cfg new b' p = .ok v ↔ i.Lands ct p v := by
  obtain ⟨w, hf, hg, hr, hpub, hstored, hloc, hgp, hpc⟩ :=
    stored_after hc hst hw hnd hsize hok
  have hsnap : StoredObjects i.cfg i.snap i.backend ct := snap_stored hst.toStoredObjects
  have hzero : zeroPage i.snap = zeroPage i.manifest := by
    rw [zeroPage, zeroPage, i.snap_fields.1]
  rw [hstored.coldRead_iff hc, coldBytes, if_neg (by rw [hpc]; omega), hloc p, Lands]
  cases hl : i.layout.pageLocation p with
  | none =>
    have hz : zeroPage new = zeroPage i.manifest := by rw [← hzero, zeroPage, zeroPage, hpub.pageSize]
    simp only [Option.some.injEq, hz]
    exact eq_comm
  | some loc =>
    obtain ⟨g, j⟩ := loc
    have hslot : (i.layout.groupPageNums g)[j]? = some p :=
      (Manifest.indexed_buildPageIndex _).located hl
    have hj : j < (i.layout.groupPageNums g).length := (List.getElem?_eq_some_iff.mp hslot).1
    dsimp only
    by_cases hmem : g ∈ i.groups
    · -- a rewritten group
      rw [if_pos hmem]
      rw [← hg] at hmem
      obtain ⟨r, hrw, rfl⟩ := List.mem_map.mp hmem
      obtain ⟨hall, hholds⟩ := rewrite_inv hc hsnap (hr r hrw)
      have hkey : (new.groupKey r.gid).isSome := by rw [hpub.groupKey, if_pos hmem]; rfl
      rw [if_pos hkey, contentAfterSync, Published.contentAfter_of_mem hmem,
        hpub.slotBytes_rewrite hrw hholds (by rw [hgp]; exact hj), hgp, length_mergedPages,
        i.snap_fields.2.1, mergedPages_slot (snap_slot hst.indexed hl) hall, hzero]
      rfl
    · -- an object the sync left alone
      rw [if_neg hmem, coldBytes, hl]
      obtain ⟨st, idx, hlay⟩ := i.layout_eq
      rw [← hg] at hmem
      have hkey : new.groupKey g = i.layout.groupKey g := by
        rw [hpub.groupKey, if_neg hmem, hlay]
        rfl
      have hcount : ¬ i.layout.pageCount ≤ p := by
        rw [hlay]
        exact Nat.not_le.mpr hp
      have hcontent : i.contentAfterSync ct w g = ct g := by
        rw [contentAfterSync, Published.contentAfter_of_notMem hmem]
        simp [hf]
      have hbytes : slotBytes new g (ct g) j = slotBytes i.layout g (ct g) j :=
        hpub.slotBytes_kept hmem (by rw [hlay]; rfl) (by rw [hlay]) (by rw [hlay]) (hgp g) (ct g) j
      simp only [hcontent, hkey, hbytes, if_neg hcount]

/-- A page with expected bytes after the sync. -/
theorem coldBytes_after (hok : i.durableSync = .ok (some (new, b'))) {p : Nat} {v : Bytes}
    (hp : p < i.newPageCount) (hv : i.expected ct p = some v) :
    coldRead i.cfg new b' p = .ok v ↔ i.Keeps ct p v := by
  have hlocal : ∀ d, i.cache.page p = some d → d = v := by
    intro d hd
    rw [expected, hd, Option.some_or] at hv
    exact Option.some.inj hv
  rw [coldRead_after hc hst hw hnd hsize hok hp]
  simp only [Lands, Merged, Keeps, or_eq_some_iff_of_eq hlocal]

omit hnd in
/-- A durable sync that succeeds publishes the database the handle had exactly when every page keeps
its bytes. -/
theorem sync_preserves_image_iff (hwalk : i.vacuum.isSome → ∀ g ∈ i.walked.groupPages, g.Nodup)
    (hok : i.durableSync = .ok (some (new, b'))) :
    (∀ p < new.pageCount, ∀ v, i.expected ct p = some v → coldRead i.cfg new b' p = .ok v) ↔
      ∀ p < i.newPageCount, ∀ v, i.expected ct p = some v → i.Keeps ct p v := by
  have hnd := nodup_walked hst.nodup hwalk
  obtain ⟨w, -, -, -, -, -, -, -, hpc⟩ := stored_after hc hst hw hnd hsize hok
  rw [hpc]
  constructor
  · intro h p hp v hv
    exact (coldBytes_after hc hst hw hnd hsize hok hp hv).mp (h p hp v hv)
  · intro h p hp v hv
    exact (coldBytes_after hc hst hw hnd hsize hok hp hv).mpr (h p hp v hv)

end Image

/-! ### A sync of the example database -/

namespace Example

theorem dirty_nodup : [0].Nodup := List.nodup_singleton 0

/-- Page 0 of the example database was written; page 1 is not cached. -/
def input (x : UInt8) : SyncInput where
  cfg := .plain
  manifest := ReadPaths.Example.manifest
  cache := ReadPaths.Example.firstPage 7
  backend := ReadPaths.Example.backend x
  dirty := [0]
  pendingGroups := []
  pendingPageCount := 2
  lastSchemaCookie := none
  interiorPages := []
  indexPages := []
  gcEnabled := false
  walkAllBtrees := fun _ _ _ => ⟨[], []⟩
  dirty_nodup := dirty_nodup

theorem size (x : UInt8) (g : Nat) :
    8 + ((input x).snap.groupPageNums g).length * (input x).snap.pageSize ≤
      maxTieredDecompressedBytes := by
  have hlen : ((input x).snap.groupPageNums g).length ≤ 2 := by
    show ([[0, 1]].getD g []).length ≤ 2
    cases g with
    | zero => decide
    | succ g => exact Nat.zero_le _
  show 8 + _ * 512 ≤ 2 ^ 30
  omega

theorem available (x : UInt8) :
    ∀ p < (input x).manifest.pageCount, ((input x).expected (ReadPaths.Example.content x) p).isSome := by
  intro p hp
  change p < 2 at hp
  obtain rfl | rfl : p = 0 ∨ p = 1 := by omega
  · rfl
  · have hover : pageBytes ReadPaths.Example.manifest (ReadPaths.Example.content x) 1 =
        some (CodecConfig.padPage 512 (some (ReadPaths.Example.page x))) := rfl
    show (none.or (pageBytes ReadPaths.Example.manifest _ 1)).isSome = true
    rw [hover]
    rfl

end Example

/-- The override repeats the base page: the image is preserved. -/
theorem sync_preserves_repeated_override : ∃ new b',
    (Example.input 2).durableSync = .ok (some (new, b')) ∧
    ∀ p < new.pageCount, ∀ v, (Example.input 2).expected (ReadPaths.Example.content 2) p = some v →
      coldRead .plain new b' p = .ok v := by
  obtain ⟨⟨new, b'⟩, hok⟩ := exists_ok_some
    (show ((Example.input 2).durableSync.toOption.join).isSome = true by decide +kernel)
  refine ⟨new, b', hok, (sync_preserves_image_iff Codecs.plain_lawful (ReadPaths.Example.stored 2)
    ReadPaths.Example.wellKeyed (Example.size 2) (fun h => by cases h) hok).mpr ?_⟩
  intro p hp v hv
  change p < 2 at hp
  obtain rfl | rfl : p = 0 ∨ p = 1 := by omega
  · show _ ∧ (some (ReadPaths.Example.page 7) = none → _)
    exact ⟨by decide, fun h => by cases h⟩
  · cases hv
    show _ ∧ (none = none → _)
    exact ⟨by decide, fun _ => rfl⟩

/-- The override changed page 1 and the page is not cached: the sync publishes the base page and
drops the override. -/
theorem sync_drops_override :
    Stored .plain (Example.input 3).manifest (Example.input 3).backend (ReadPaths.Example.content 3) ∧
    (∀ p < (Example.input 3).manifest.pageCount,
      ((Example.input 3).expected (ReadPaths.Example.content 3) p).isSome) ∧
    ∃ new b', (Example.input 3).durableSync = .ok (some (new, b')) ∧
      ¬ ∀ p < new.pageCount, ∀ v,
        (Example.input 3).expected (ReadPaths.Example.content 3) p = some v →
          coldRead .plain new b' p = .ok v := by
  obtain ⟨⟨new, b'⟩, hok⟩ := exists_ok_some
    (show ((Example.input 3).durableSync.toOption.join).isSome = true by decide +kernel)
  refine ⟨ReadPaths.Example.stored 3, Example.available 3, new, b', hok, fun h => ?_⟩
  have hnd : ∀ g ∈ (Example.input 3).walked.groupPages, g.Nodup := (ReadPaths.Example.stored 3).nodup
  obtain ⟨w, -, -, -, -, -, -, -, hpc⟩ := stored_after Codecs.plain_lawful
    (ReadPaths.Example.stored 3) ReadPaths.Example.wellKeyed hnd (Example.size 3) hok
  have hread := h 1 (by rw [hpc]; decide) _ rfl
  have hkeeps := (coldBytes_after Codecs.plain_lawful (ReadPaths.Example.stored 3)
    ReadPaths.Example.wellKeyed hnd (Example.size 3) hok (p := 1) (by decide) rfl).mp hread
  have hbase : ([some (ReadPaths.Example.page 1), some (ReadPaths.Example.page 2)].map
      (CodecConfig.padPage 512))[1]? = some (CodecConfig.padPage 512 (some (ReadPaths.Example.page 3))) :=
    hkeeps.2 rfl
  revert hbase
  decide

end SyncInput

end Turbolite
