import Turbolite.Checkpoint
import Turbolite.Sync

/-!
# Turbolite.Retry

A durable sync that fails and is tried again. By the time anything can fail, the sync has stored the
layout it works on, has taken the groups that local checkpoints left pending, and has remembered the
schema cookie; none of this is undone. `failed` is the handle after such a failure, and
`sync_retryable_iff` says exactly when its pages read as before and when the next sync publishes what
the failed one would have published.
-/

namespace Turbolite

open Blocks Results ReadPaths

namespace Manifest

theorem fst_mem_of_mem_appendedEntries {groups : List (List Nat)} {room ppg : Nat}
    {pages : List Nat} {e : Nat × PageLocation}
    (h : e ∈ appendedEntries groups room ppg pages) : e.1 ∈ pages := by
  rcases List.mem_append.mp h with h | h
  · obtain ⟨x, hx, rfl⟩ := List.mem_map.mp h
    exact List.mem_of_mem_take (List.fst_mem_of_mem_zipIdx hx)
  · obtain ⟨c, hc, h⟩ := List.mem_flatMap.mp h
    obtain ⟨x, hx, rfl⟩ := List.mem_map.mp h
    obtain ⟨k, -, hk⟩ := List.mem_map.mp (List.fst_mem_of_mem_zipIdx hc)
    have hmem := List.fst_mem_of_mem_zipIdx hx
    rw [← hk] at hmem
    exact List.mem_of_mem_drop (List.mem_of_mem_drop (List.mem_of_mem_take hmem))

theorem lookup_foldl_insert_of_notMem {es : List (Nat × PageLocation)}
    {idx : HMap Nat PageLocation} {p : Nat} (h : p ∉ es.map (·.1)) :
    (es.foldl (fun idx e => idx.insert e.1 e.2) idx).lookup p = idx.lookup p := by
  induction es generalizing idx with
  | nil => rfl
  | cons e es ih =>
    simp only [List.map_cons, List.mem_cons, not_or] at h
    rw [List.foldl_cons, ih h.2]
    exact AList.lookup_insert_ne h.1

/-- A page that has a group keeps it when others are given one. -/
theorem pageLocation_assignNewPagesToGroups {m : Manifest} {pages : List Nat} {ppg p : Nat}
    {loc : PageLocation} (hp : p ∉ pages) (hloc : m.pageLocation p = some loc) :
    (m.assignNewPagesToGroups pages ppg).pageLocation p = some loc := by
  unfold assignNewPagesToGroups
  split
  · exact hloc
  · split
    · rename_i hst
      dsimp only
      split
      · rename_i hgrow
        simp only [pageLocation, hst] at hloc ⊢
        split at hloc
        · cases hloc
        · rename_i hin
          rw [if_neg (by omega), hloc]
      · exact hloc
    · rename_i hst
      simp only [pageLocation, hst] at hloc ⊢
      rw [lookup_foldl_insert_of_notMem, hloc]
      intro hmem
      obtain ⟨e, he, rfl⟩ := List.mem_map.mp hmem
      exact hp ((List.perm_insertionSort (· ≤ ·) pages).mem_iff.mp
        (fst_mem_of_mem_appendedEntries he))

end Manifest

namespace SyncInput

variable (i : SyncInput)

/-! ### The handle after a failure -/

/-- What a sync that failed has done to the world besides its own drains: the objects that reached
the backend, the pages known to be interior, and the replaced keys still on the handle. -/
structure Interrupted where
  uploads : List (ObjectKey × Bytes)
  interior : List Nat
  replaced : List ObjectKey

/-- The keys a VACUUM leaves behind. -/
def vacuumKeys : List ObjectKey := if i.vacuum.isSome then i.manifest.referencedKeys else []

/-- The dirty pages that were read so far and marked interior. -/
def marked (read : List (Nat × Bytes)) : List Nat :=
  i.interiorPages ++ (read.filter fun d => isInteriorPage d.1 d.2).map (·.1)

/-- The points at which the sync returns `Err`, with what is done by then: the replay cursor, the
merge and encoding of the groups, the bundles, and the uploads or the manifest put. -/
inductive FailsAt : Interrupted → Prop
  | cursor : FailsAt ⟨[], i.interiorPages, i.vacuumKeys⟩
  | merge : FailsAt ⟨[], i.interiorPages, []⟩
  | bundles (read : List (Nat × Bytes)) : FailsAt ⟨[], i.marked read, []⟩
  | upload (read : List (Nat × Bytes)) {changeCounter : Nat} {w : GroupWrites}
      {plans : BundlePlans} {uploads : List (ObjectKey × Bytes)} (hw : w.frames = [])
      (h : uploads ⊆ (i.publication changeCounter w plans).uploads) :
      FailsAt ⟨uploads, i.marked read, []⟩

/-- `last_schema_cookie` after the VACUUM check. -/
def cookieAfter : Option Nat :=
  if 0 ∈ i.dirty ∧ i.manifest.strategy = .bTreeAware then
    match i.cache.file 0 with
    | some page0 => if 28 ≤ page0.length then some (beU32At page0 24) else i.lastSchemaCookie
    | none => i.lastSchemaCookie
  else i.lastSchemaCookie

/-- The handle after a failed sync. The dirty pages and the cache are as before; the layout is stored,
the pending groups are drained and the VACUUM is not detected again. -/
def failed (f : Interrupted) : SyncInput where
  cfg := i.cfg
  manifest := i.snap
  cache := ⟨i.cache.page, i.cache.file, i.cache.coherent, by
    rw [i.snap_fields.1]
    exact i.cache.sized⟩
  backend := i.backend.putPageGroups f.uploads
  dirty := i.dirty
  pendingGroups := []
  pendingPageCount := i.vacuum.getD i.pendingPageCount
  lastSchemaCookie := i.cookieAfter
  interiorPages := f.interior
  indexPages := i.indexPages
  gcEnabled := i.gcEnabled
  walkAllBtrees := i.walkAllBtrees
  dirty_nodup := i.dirty_nodup

/-- The next sync of that handle, when nothing else happened. -/
def retry (f : Interrupted) : IoResult (Option (Manifest × Backend)) := do
  match ← (i.failed f).durableSync with
  | none => .ok none
  | some (m, b) => .ok (some (m, if i.gcEnabled then b.deleteObjects f.replaced else b))

/-! ### Reading through the handle -/

/-- Where the bytes of a clean page come from. -/
inductive Source where
  | zeros
  | cached (data : Bytes)
  | remote (loc : PageLocation)

/-- The order of the checks of `read_exact_at`. The fast path, taken by a handle that has written
nothing and is up to date, does not look at the group. -/
def source (fast : Bool) (m : Manifest) (p : Nat) : Source :=
  if m.pageCount ≤ p then .zeros
  else
    match i.cache.page p, m.pageLocation p with
    | some d, some _ => .cached d
    | some d, none => if fast then .cached d else .zeros
    | none, none => .zeros
    | none, some loc => .remote loc

/-- `read_exact_at`. -/
def reads (fast : Bool) (p : Nat) : IoResult Bytes :=
  if p ∈ i.dirty then
    match i.cache.page p with
    | some d => .ok d
    | none => .error (.io .notFound
        s!"dirty page {p} was evicted before read; restart the VFS to recover")
  else
    match i.source fast i.manifest p with
    | .zeros => .ok (zeroPage i.manifest)
    | .cached d => .ok d
    | .remote _ => coldRead i.cfg i.manifest i.backend p

/-! ### Retrying -/

/-- Pages that could be read have the bytes they had, and the next sync publishes what the failed one
would have published. -/
def Retryable (f : Interrupted) : Prop :=
  (∀ fast p v, i.reads fast p = .ok v → (i.failed f).reads fast p = .ok v) ∧
  ∀ new b, i.durableSync = .ok (some (new, b)) →
    ∃ new' b', i.retry f = .ok (some (new', b')) ∧ new'.pageCount = new.pageCount ∧
      ∀ p < new.pageCount, ∀ v, coldRead i.cfg new' b' p = .ok v ↔ coldRead i.cfg new b p = .ok v

variable (ct : Nat → GroupContent)

/-- A clean page is not disturbed by the layout the sync stores: it does not come to be covered, or
cease to be, with bytes other than zeros, and a page that is only in the backend keeps its object (no
VACUUM), which its group, unless it is in frames, does not outgrow. -/
def Undisturbed (fast : Bool) (p : Nat) : Prop :=
  match i.source fast i.manifest p, i.source fast i.snap p with
  | .zeros, .zeros => True
  | .zeros, .cached d => d = zeroPage i.manifest
  | .zeros, .remote _ => coldBytes i.snap ct p = some (zeroPage i.manifest)
  | .cached d, .zeros => d = zeroPage i.manifest
  | .cached _, _ => True
  | .remote _, .zeros => ∀ v, coldBytes i.manifest ct p = some v → v = zeroPage i.manifest
  | .remote loc, _ => (coldBytes i.manifest ct p).isSome → i.vacuum = none ∧
      (i.manifest.hasFrames loc.groupId = true ∨
        (i.snap.groupPageNums loc.groupId).length ≤ (ct loc.groupId).base.length)

/-- A page of a pending group without a dirty page already is in the backend as the merge would put
it there. -/
def Settled (p : Nat) : Prop :=
  ∀ g j, i.layout.pageLocation p = some ⟨g, j⟩ → g ∈ i.pendingGroups →
    (∀ q ∈ i.dirty, (i.snap.pageLocation q).map (·.groupId) ≠ some g) →
      ∀ v, coldBytes i.layout ct p = some v ↔ i.Merged ct g j p v

variable {i ct}

/-! ### What the failure leaves alone -/

section Failed

variable {f : Interrupted}

theorem FailsAt.fresh (hf : i.FailsAt f) : ∀ u ∈ f.uploads, u.1.version? = some (i.manifest.version + 1) := by
  cases hf with
  | cursor => exact fun u hu => absurd hu List.not_mem_nil
  | merge => exact fun u hu => absurd hu List.not_mem_nil
  | bundles read => exact fun u hu => absurd hu List.not_mem_nil
  | upload read hw h =>
    rename_i cc w plans us
    intro u hu
    have hp := i.publication_publishes cc hw plans
    have hfresh := hp.slots.fresh u.1 (List.mem_map_of_mem (h hu))
    rw [hp.version] at hfresh
    exact hfresh

/-- No key the manifest names was written. -/
theorem FailsAt.objects (hf : i.FailsAt f) (hw : WellKeyed i.manifest) {s : Slot} {k : ObjectKey}
    (hs : i.manifest.keyAt s = some k) : (i.failed f).backend.objects k = i.backend.objects k := by
  refine Backend.putPageGroups_of_notMem fun hmem => ?_
  obtain ⟨u, hu, rfl⟩ := List.mem_map.mp hmem
  obtain ⟨v, hle, hkv⟩ := hw.version s u.1 hs
  rw [hf.fresh u hu] at hkv
  cases hkv
  omega

theorem keyAt_of_snap {s : Slot} {k : ObjectKey} (hs : i.snap.keyAt s = some k) :
    i.manifest.keyAt s = some k := by
  rw [i.keyAt_snap] at hs
  split at hs
  · cases hs
  · exact hs

theorem snap_wellKeyed (hw : WellKeyed i.manifest) : WellKeyed i.snap where
  injective s t k hs ht := hw.injective s t k (keyAt_of_snap hs) (keyAt_of_snap ht)
  version s k hs := by
    rw [i.snap_version]
    exact hw.version s k (keyAt_of_snap hs)

theorem snap_strategy (hst : i.snap.strategy = .bTreeAware) : i.manifest.strategy = .bTreeAware := by
  rw [snap, Manifest.assignNewPagesToGroups_strategy] at hst
  unfold walked at hst
  cases hv : i.vacuum with
  | none =>
    rw [hv] at hst
    exact hst
  | some n =>
    unfold vacuum at hv
    split at hv
    · rename_i h
      exact h.2
    · cases hv

/-- The cookie of page 0 is the one the handle remembers. -/
theorem failed_vacuum (i : SyncInput) (f : Interrupted) : (i.failed f).vacuum = none := by
  unfold vacuum
  split
  · rename_i h
    have hcond : 0 ∈ i.dirty ∧ i.manifest.strategy = .bTreeAware := ⟨h.1, snap_strategy h.2⟩
    have hcookie : (i.failed f).lastSchemaCookie = i.cookieAfter := rfl
    have hfile : (i.failed f).cache.file = i.cache.file := rfl
    rw [hcookie, hfile, cookieAfter, if_pos hcond]
    cases i.cache.file 0 with
    | none => rfl
    | some page0 =>
      dsimp only
      by_cases hlen : 28 ≤ page0.length
      · rw [if_pos hlen]
        exact if_neg fun hne => hne.2.1 rfl
      · rw [if_neg hlen]
        cases i.lastSchemaCookie with
        | none => rfl
        | some prev => exact if_neg fun hne => hlen hne.1
  · rfl

theorem failed_walked (i : SyncInput) (f : Interrupted) : (i.failed f).walked = i.snap := by
  unfold walked
  rw [failed_vacuum]
  rfl

theorem isSome_of_panics (h : i.panics = false) : ∀ p ∈ i.dirty, (i.snap.pageLocation p).isSome := by
  intro p hp
  have hany := (Bool.or_eq_false_iff.mp h).2
  have hnone := List.any_eq_false.mp hany p hp
  cases hl : i.snap.pageLocation p with
  | none => rw [hl] at hnone; exact absurd rfl hnone
  | some loc => rfl

theorem failed_unassigned (h : i.panics = false) : (i.failed f).unassigned = [] := by
  unfold unassigned
  rw [failed_walked]
  refine List.filter_eq_nil_iff.mpr fun p hp hnone => ?_
  have hsome := isSome_of_panics h p hp
  cases hl : i.snap.pageLocation p with
  | none => rw [hl] at hsome; cases hsome
  | some loc => rw [hl] at hnone; cases hnone

theorem failed_snap (h : i.panics = false) : (i.failed f).snap = i.snap := by
  rw [snap, failed_unassigned h, failed_walked, Manifest.assignNewPagesToGroups, if_pos rfl]

theorem failed_newPageCount (h : i.panics = false) : (i.failed f).newPageCount = i.newPageCount := by
  rw [newPageCount, failed_snap h, failed_vacuum]
  rfl

theorem failed_layout (h : i.panics = false) : (i.failed f).layout = i.layout := by
  rw [layout, failed_snap h, failed_newPageCount h]
  rfl

/-- Only the groups of dirty pages are left to rewrite. -/
theorem mem_failed_groups (h : i.panics = false) {g : Nat} : g ∈ (i.failed f).groups ↔
    ∃ q ∈ i.dirty, (i.snap.pageLocation q).map (·.groupId) = some g := by
  rw [groups, failed_snap h, List.mem_dedup]
  change g ∈ i.dirty.filterMap _ ++ [] ↔ _
  rw [List.append_nil, List.mem_filterMap]

theorem mem_groups {g : Nat} : g ∈ i.groups ↔
    (∃ q ∈ i.dirty, (i.snap.pageLocation q).map (·.groupId) = some g) ∨ g ∈ i.pendingGroups := by
  rw [groups, List.mem_dedup, List.mem_append, List.mem_filterMap]

theorem failed_panics (h : i.panics = false) : (i.failed f).panics = false := by
  unfold panics
  rw [failed_unassigned h, failed_vacuum, failed_snap h]
  have hany : (i.failed f).dirty.any (fun p => (i.snap.pageLocation p).isNone) = false :=
    (Bool.or_eq_false_iff.mp h).2
  rw [hany]
  simp

theorem failed_rewrite (hf : i.FailsAt f) (hw : WellKeyed i.manifest) (h : i.panics = false)
    (g : Nat) : (i.failed f).rewrite g = i.rewrite g := by
  have hfetch : (i.failed f).fetchExisting g = i.fetchExisting g := by
    unfold fetchExisting
    rw [failed_snap h]
    cases hk : i.snap.groupKey g with
    | none => rfl
    | some key =>
      have hobj : (i.failed f).backend.getPageGroup key = i.backend.getPageGroup key :=
        hf.objects hw (keyAt_of_snap (s := .group g) hk)
      dsimp only
      rw [hobj]
      rfl
  unfold rewrite
  rw [hfetch, failed_snap h]
  rfl

/-! ### The next sync -/

/-- What a sync that succeeded went through. -/
theorem parts_of_durableSync {new : Manifest} {b : Backend}
    (hok : i.durableSync = .ok (some (new, b))) : i.panics = false ∧ ∃ cc w dirtyPages,
      resolveManifestReplayCursor i.cache i.snap = .ok cc ∧
      (∀ g ∈ i.groups, ∃ r, i.rewrite g = .ok r) ∧ w.frames = [] ∧ i.readDirty = .ok dirtyPages ∧
      i.backend.publish (i.publication cc w (i.bundlePlans dirtyPages)) i.gcEnabled = .ok b := by
  unfold durableSync at hok
  split at hok
  · cases hok
  · split at hok
    · cases hok
    · rename_i hpanics
      obtain ⟨cc, hcc, hok⟩ := bind_eq_ok.mp hok
      obtain ⟨w, hw, hok⟩ := bind_eq_ok.mp hok
      obtain ⟨dirtyPages, hread, hok⟩ := bind_eq_ok.mp hok
      obtain ⟨b', hb, hok⟩ := bind_eq_ok.mp hok
      cases hok
      obtain ⟨hframes, hgids, hr⟩ := rewriteGroups_inv hw
      refine ⟨Bool.eq_false_iff.mpr hpanics, cc, w, dirtyPages, hcc, fun g hg => ?_, hframes, hread, hb⟩
      rw [← hgids] at hg
      obtain ⟨r, hrw, rfl⟩ := List.mem_map.mp hg
      exact ⟨r, hr r hrw⟩

theorem failed_durableSync (hf : i.FailsAt f) (hw : WellKeyed i.manifest) (hne : i.dirty ≠ [])
    {new : Manifest} {b : Backend} (hok : i.durableSync = .ok (some (new, b))) :
    ∃ out, (i.failed f).durableSync = .ok (some out) := by
  obtain ⟨hp, cc, w, dirtyPages, hcc, hrewrite, hframes, hread, hpub⟩ := parts_of_durableSync hok
  have hcc' : resolveManifestReplayCursor (i.failed f).cache (i.failed f).snap = .ok cc := by
    rw [failed_snap hp]
    exact hcc
  have hread' : (i.failed f).readDirty = .ok dirtyPages := hread
  obtain ⟨w', hw'⟩ : ∃ w', rewriteGroups (i.failed f).rewrite (i.failed f).gid_rewrite
      (i.failed f).groups (i.failed f).groups_nodup = .ok w' := by
    refine rewriteGroups_ok _ _ fun g hg => ?_
    rw [failed_rewrite hf hw hp]
    exact hrewrite g (mem_groups.mpr (.inl ((mem_failed_groups hp).mp hg)))
  obtain ⟨b', hb'⟩ : ∃ b', (i.failed f).backend.publish
      ((i.failed f).publication cc w' ((i.failed f).bundlePlans dirtyPages)) i.gcEnabled = .ok b' := by
    refine Backend.publish_of_version hpub rfl ?_
    rw [((i.failed f).publication_publishes cc (rewriteGroups_inv hw').1 _).version,
      (i.publication_publishes cc hframes _).version]
    exact congrArg (· + 1) i.snap_version
  refine ⟨(((i.failed f).publication cc w' ((i.failed f).bundlePlans dirtyPages)).manifest, b'), ?_⟩
  unfold durableSync
  rw [if_neg (fun h => hne h.1), failed_panics hp, if_neg Bool.false_ne_true, hcc', ok_bind, hw',
    ok_bind, hread', ok_bind]
  exact bind_eq_ok.mpr ⟨b', hb', rfl⟩

/-! ### The image of the next sync -/

section Image

variable (hf : i.FailsAt f) (hc : i.cfg.codecs.Lawful)
  (hst : Stored i.cfg i.manifest i.backend ct) (hw : WellKeyed i.manifest)
  (hnd : ∀ g ∈ i.walked.groupPages, g.Nodup)

include hf hst hw hnd in
theorem failed_stored : Stored i.cfg i.snap (i.failed f).backend ct where
  toStoredObjects := (snap_stored hst.toStoredObjects).of_objects fun _ _ hs =>
    hf.objects hw (keyAt_of_snap hs)
  indexed := (walked_indexed hst.indexed).assignNewPagesToGroups _ _
  nodup := snap_nodup hst.indexed hnd

include hf hw in
/-- The keys that were left on the handle are not named by what the next sync publishes. -/
theorem notMem_replaced {new : Manifest} {b : Backend}
    (hok : (i.failed f).durableSync = .ok (some (new, b))) {s : Slot} {k : ObjectKey}
    (hs : new.keyAt s = some k) : k ∉ f.replaced := by
  intro hmem
  obtain ⟨hvac, hold⟩ : i.vacuum.isSome ∧ k ∈ i.manifest.referencedKeys := by
    cases hf with
    | cursor =>
      change k ∈ i.vacuumKeys at hmem
      unfold vacuumKeys at hmem
      split at hmem
      · rename_i hv
        exact ⟨hv, hmem⟩
      · cases hmem
    | merge => cases hmem
    | bundles read => cases hmem
    | upload read hw h => cases hmem
  obtain ⟨t, ht⟩ := Manifest.mem_referencedKeys.mp hold
  obtain ⟨v, hle, hkv⟩ := hw.version t k ht
  obtain ⟨cc, w, plans, hframes, -, -, rfl, -⟩ := durableSync_inv hok
  rcases keyAt_publication ((i.failed f).publication_publishes cc hframes plans) rfl (fun _ => rfl) hs
    with hs | ⟨rfl, -⟩
  · have hnone := i.keyAt_snap s
    rw [if_pos hvac] at hnone
    rw [show (i.failed f).manifest.keyAt s = none from hnone] at hs
    cases hs
  · rw [Slot.version_key] at hkv
    cases hkv
    have hv : (i.failed f).manifest.version = i.manifest.version := i.snap_version
    omega

variable (hsize : ∀ g, 8 + (i.snap.groupPageNums g).length * i.snap.pageSize ≤
  maxTieredDecompressedBytes)

theorem failed_merged (hp : i.panics = false) {g j p : Nat} {v : Bytes} :
    (i.failed f).Merged ct g j p v ↔ i.Merged ct g j p v := by
  have hspf : (i.failed f).manifest.subPagesPerFrame = i.manifest.subPagesPerFrame :=
    i.snap_fields.2.1
  have hzero : zeroPage (i.failed f).manifest = zeroPage i.manifest :=
    congrArg (List.replicate · 0) i.snap_fields.1
  unfold Merged
  rw [failed_snap hp, failed_layout hp, hspf, hzero]
  rfl

include hf hc hst hw hnd hsize in
/-- One page after the next sync. -/
theorem coldRead_retry (hp : i.panics = false) {new : Manifest} {b : Backend}
    (hok : (i.failed f).durableSync = .ok (some (new, b))) :
    new.pageCount = i.newPageCount ∧ ∀ p < i.newPageCount, ∀ v,
      coldRead i.cfg new (if i.gcEnabled then b.deleteObjects f.replaced else b) p = .ok v ↔
        (i.failed f).Lands ct p v := by
  have hst' : Stored (i.failed f).cfg (i.failed f).manifest (i.failed f).backend ct :=
    failed_stored hf hst hw hnd
  have hw' : WellKeyed (i.failed f).manifest := snap_wellKeyed hw
  have hnd' : ∀ g ∈ (i.failed f).walked.groupPages, g.Nodup := by
    rw [failed_walked]
    exact snap_nodup hst.indexed hnd
  have hsize' : ∀ g, 8 + ((i.failed f).snap.groupPageNums g).length * (i.failed f).snap.pageSize ≤
      maxTieredDecompressedBytes := by
    rw [failed_snap hp]
    exact hsize
  obtain ⟨w, -, -, -, -, -, -, -, hpc⟩ :=
    stored_after (i := i.failed f) hc hst' hw' hnd' hsize' hok
  rw [failed_newPageCount hp] at hpc
  refine ⟨hpc, fun p hlt v => ?_⟩
  have hobj : ∀ s k, new.keyAt s = some k →
      (if i.gcEnabled then b.deleteObjects f.replaced else b).objects k = b.objects k := by
    intro s k hs
    split
    · exact if_neg (notMem_replaced hf hw hok hs)
    · rfl
  rw [coldRead_congr hobj]
  exact coldRead_after (i := i.failed f) hc hst' hw' hnd' hsize' hok
    (by rw [failed_newPageCount hp]; exact hlt) v

/-- The two syncs put a page in the same place, from the same bytes, unless its group was pending. -/
theorem lands_iff_settled (hp : i.panics = false) {p : Nat} :
    (∀ v, (i.failed f).Lands ct p v ↔ i.Lands ct p v) ↔ i.Settled ct p := by
  have hzero : zeroPage (i.failed f).manifest = zeroPage i.manifest :=
    congrArg (List.replicate · 0) i.snap_fields.1
  simp only [Lands, Settled, failed_layout hp, hzero]
  cases hl : i.layout.pageLocation p with
  | none => simp
  | some loc =>
    obtain ⟨g, j⟩ := loc
    dsimp only
    by_cases hdirty : ∃ q ∈ i.dirty, (i.snap.pageLocation q).map (·.groupId) = some g
    · simp only [(mem_failed_groups hp).mpr hdirty, mem_groups.mpr (.inl hdirty), if_true]
      refine ⟨fun _ g' j' he _ hno => ?_, fun _ v => failed_merged hp⟩
      cases he
      obtain ⟨q, hq, hg⟩ := hdirty
      exact absurd hg (hno q hq)
    · simp only [show g ∉ (i.failed f).groups from fun hmem => hdirty ((mem_failed_groups hp).mp hmem),
        if_false]
      by_cases hpend : g ∈ i.pendingGroups
      · simp only [mem_groups.mpr (.inr hpend), if_true]
        constructor
        · intro h g' j' he _ _ v
          cases he
          exact h v
        · exact fun h => h g j rfl hpend fun q hq hg => hdirty ⟨q, hq, hg⟩
      · simp only [show g ∉ i.groups from fun hmem => (mem_groups.mp hmem).elim hdirty hpend, if_false]
        refine ⟨fun _ g' j' he hmem _ => ?_, fun _ _ => trivial⟩
        cases he
        exact absurd hmem hpend

include hf hc hst hw hnd hsize in
theorem retry_publishes_iff {new : Manifest} {b : Backend}
    (hok : i.durableSync = .ok (some (new, b))) :
    (∃ new' b', i.retry f = .ok (some (new', b')) ∧ new'.pageCount = new.pageCount ∧
      ∀ p < new.pageCount, ∀ v,
        coldRead i.cfg new' b' p = .ok v ↔ coldRead i.cfg new b p = .ok v) ↔
      i.dirty ≠ [] ∧ ∀ p < i.newPageCount, i.Settled ct p := by
  obtain ⟨hp, -⟩ := parts_of_durableSync hok
  obtain ⟨w, -, -, -, -, -, -, -, hpc⟩ := stored_after hc hst hw hnd hsize hok
  rw [hpc]
  constructor
  · rintro ⟨new', b', hretry, -, himage⟩
    obtain ⟨out, hout, hres⟩ := bind_eq_ok.mp hretry
    cases out with
    | none => cases hres
    | some out =>
      obtain ⟨m, b₂⟩ := out
      cases hres
      obtain ⟨-, hread⟩ := coldRead_retry hf hc hst hw hnd hsize hp hout
      refine ⟨fun hnil => ?_, fun p hlt => (lands_iff_settled (f := f) hp).mp fun v => ?_⟩
      · have hnone : (i.failed f).durableSync = .ok none := if_pos ⟨hnil, rfl⟩
        rw [hnone] at hout
        cases hout
      · rw [← hread p hlt v, himage p hlt v, coldRead_after hc hst hw hnd hsize hok hlt]
  · rintro ⟨hne, hsettled⟩
    obtain ⟨⟨m, b₂⟩, hout⟩ := failed_durableSync hf hw hne hok
    obtain ⟨hcount, hread⟩ := coldRead_retry hf hc hst hw hnd hsize hp hout
    refine ⟨m, _, bind_eq_ok.mpr ⟨_, hout, rfl⟩, hcount, fun p hlt v => ?_⟩
    rw [hread p hlt v, (lands_iff_settled hp).mpr (hsettled p hlt) v,
      coldRead_after hc hst hw hnd hsize hok hlt]

end Image

/-! ### Reading after the failure -/

theorem source_remote {fast : Bool} {m : Manifest} {p : Nat} {loc : PageLocation}
    (h : i.source fast m p = .remote loc) :
    i.cache.page p = none ∧ ¬ m.pageCount ≤ p ∧ m.pageLocation p = some loc := by
  unfold source at h
  split at h
  · cases h
  · rename_i hlt
    split at h
    · cases h
    · split at h <;> cases h
    · cases h
    · rename_i hcache hloc
      cases h
      exact ⟨hcache, hlt, hloc⟩

theorem source_cached {fast : Bool} {m : Manifest} {p : Nat} {d : Bytes}
    (h : i.source fast m p = .cached d) : i.cache.page p = some d := by
  unfold source at h
  split at h
  · cases h
  · split at h
    · rename_i hcache _
      cases h
      exact hcache
    · rename_i hcache _
      split at h
      · cases h
        exact hcache
      · cases h
    · cases h
    · cases h

/-- A page that is only in the backend, through the layout the sync stored. -/
theorem coldBytes_snap_iff {fast : Bool} {p : Nat} {loc loc' : PageLocation} (hp : p ∉ i.dirty)
    (hm : i.source fast i.manifest p = .remote loc) (hs : i.source fast i.snap p = .remote loc') :
    (∀ v, coldBytes i.manifest ct p = some v → coldBytes i.snap ct p = some v) ↔
      ((coldBytes i.manifest ct p).isSome → i.vacuum = none ∧
        (i.manifest.hasFrames loc.groupId = true ∨
          (i.snap.groupPageNums loc.groupId).length ≤ (ct loc.groupId).base.length)) := by
  obtain ⟨-, hmlt, hmloc⟩ := source_remote hm
  obtain ⟨-, hslt, hsloc⟩ := source_remote hs
  cases hv : i.vacuum with
  | some live =>
    -- the regrouped manifest names no object
    have hnone : coldBytes i.snap ct p = none := by
      have hkey : i.snap.groupKey loc'.groupId = none := by
        have hk := i.keyAt_snap (.group loc'.groupId)
        rw [hv] at hk
        exact hk
      simp only [coldBytes, if_neg hslt, hsloc, hkey, Option.isSome_none, Bool.false_eq_true,
        if_false]
    rw [hnone]
    cases coldBytes i.manifest ct p with
    | none => simp
    | some v => simp
  | none =>
    have hwalked : i.walked = i.manifest := by rw [walked, hv]
    have hun : p ∉ i.unassigned := fun hmem => hp (List.mem_filter.mp hmem).1
    have hloc : loc' = loc := by
      have hkeep : i.snap.pageLocation p = some loc :=
        Manifest.pageLocation_assignNewPagesToGroups hun (hwalked ▸ hmloc)
      exact Option.some.inj (hsloc.symm.trans hkeep)
    subst hloc
    obtain ⟨n, gps, idx, hsnap⟩ := i.snap_eq
    rw [hwalked] at hsnap
    have hkey : i.snap.groupKey loc'.groupId = i.manifest.groupKey loc'.groupId := by
      rw [hsnap]
      rfl
    have hframes : i.snap.hasFrames loc'.groupId = i.manifest.hasFrames loc'.groupId := by
      rw [hsnap]
      rfl
    simp only [coldBytes, if_neg hmlt, if_neg hslt, hmloc, hsloc, hkey]
    cases hk : i.manifest.groupKey loc'.groupId with
    | none => simp
    | some key =>
      simp only [Option.isSome_some, if_true]
      cases hfr : i.manifest.hasFrames loc'.groupId with
      | true =>
        rw [hfr] at hframes
        have heq : slotBytes i.snap loc'.groupId (ct loc'.groupId) loc'.index =
            slotBytes i.manifest loc'.groupId (ct loc'.groupId) loc'.index := by
          simp only [slotBytes, hfr, hframes, if_true, i.snap_fields.2.1, zeroPage, i.snap_fields.1]
        simp [heq]
      | false =>
        rw [hfr] at hframes
        simp only [slotBytes, hfr, hframes, Bool.false_eq_true, if_false, false_or, true_and]
        by_cases hle : (i.manifest.groupPageNums loc'.groupId).length ≤ (ct loc'.groupId).base.length
        · simp only [if_pos hle]
          constructor
          · intro h hsome
            obtain ⟨v, hbase⟩ := Option.isSome_iff_exists.mp hsome
            have hread := h v hbase
            split at hread
            · assumption
            · cases hread
          · intro h v hbase
            rw [if_pos (h (by rw [hbase]; rfl))]
            exact hbase
        · simp [if_neg hle]

theorem reads_kept_iff (hf : i.FailsAt f) (hc : i.cfg.codecs.Lawful)
    (hst : Stored i.cfg i.manifest i.backend ct) (hw : WellKeyed i.manifest)
    (hnd : ∀ g ∈ i.walked.groupPages, g.Nodup) {p : Nat} (hp : p ∉ i.dirty) (fast : Bool) :
    (∀ v, i.reads fast p = .ok v → (i.failed f).reads fast p = .ok v) ↔
      i.Undisturbed ct fast p := by
  have hst' := failed_stored hf hst hw hnd
  have hzero : zeroPage (i.failed f).manifest = zeroPage i.manifest :=
    congrArg (List.replicate · 0) i.snap_fields.1
  have hafter : (i.failed f).reads fast p =
      match i.source fast i.snap p with
      | .zeros => .ok (zeroPage i.manifest)
      | .cached d => .ok d
      | .remote _ => coldRead i.cfg i.snap (i.failed f).backend p := by
    rw [← hzero]
    exact if_neg hp
  rw [hafter, reads, if_neg hp, Undisturbed]
  cases hm : i.source fast i.manifest p with
  | zeros =>
    cases hs : i.source fast i.snap p with
    | zeros => simp
    | cached d => simp
    | remote loc => simp [← hst'.coldRead_iff hc]
  | cached d =>
    cases hs : i.source fast i.snap p with
    | zeros => simp [eq_comm]
    | cached d' =>
      obtain rfl : d = d' := Option.some.inj ((source_cached hm).symm.trans (source_cached hs))
      simp
    | remote loc =>
      have hnone := (source_remote hs).1
      rw [source_cached hm] at hnone
      cases hnone
  | remote loc =>
    cases hs : i.source fast i.snap p with
    | zeros => simp [hst.coldRead_iff hc, eq_comm]
    | cached d =>
      have hnone := (source_remote hm).1
      rw [source_cached hs] at hnone
      cases hnone
    | remote loc' =>
      simp only [hst.coldRead_iff hc, hst'.coldRead_iff hc]
      exact coldBytes_snap_iff hp hm hs

/-- A failed sync can be tried again exactly when no clean page is disturbed and, if the sync can
succeed at all, there is a dirty page and every pending group has one or is in the backend already. -/
theorem sync_retryable_iff (hf : i.FailsAt f) (hc : i.cfg.codecs.Lawful)
    (hst : Stored i.cfg i.manifest i.backend ct) (hw : WellKeyed i.manifest)
    (hsize : ∀ g, 8 + (i.snap.groupPageNums g).length * i.snap.pageSize ≤
      maxTieredDecompressedBytes)
    (hwalk : i.vacuum.isSome → ∀ g ∈ i.walked.groupPages, g.Nodup) :
    i.Retryable f ↔ (∀ fast, ∀ p ∉ i.dirty, i.Undisturbed ct fast p) ∧
      ((∃ out, i.durableSync = .ok (some out)) →
        i.dirty ≠ [] ∧ ∀ p < i.newPageCount, i.Settled ct p) := by
  have hnd := nodup_walked hst.nodup hwalk
  refine and_congr ?_ ?_
  · constructor
    · exact fun h fast p hp => (reads_kept_iff hf hc hst hw hnd hp fast).mp (h fast p)
    · intro h fast p v hv
      by_cases hp : p ∈ i.dirty
      · have hp' : p ∈ (i.failed f).dirty := hp
        rw [reads, if_pos hp] at hv
        rw [reads, if_pos hp']
        exact hv
      · exact (reads_kept_iff hf hc hst hw hnd hp fast).mpr (h fast p hp) v hv
  · constructor
    · rintro h ⟨⟨new, b⟩, hok⟩
      exact (retry_publishes_iff hf hc hst hw hnd hsize hok).mp (h new b hok)
    · exact fun h new b hok => (retry_publishes_iff hf hc hst hw hnd hsize hok).mpr (h ⟨_, hok⟩)

end Failed

/-- Nothing is pending in the example: its sync can be tried again. -/
theorem retryable_without_pending : (Example.input 2).Retryable ⟨[], [], []⟩ := by
  refine (sync_retryable_iff .merge Codecs.plain_lawful (ReadPaths.Example.stored 2)
    ReadPaths.Example.wellKeyed (Example.size 2) (fun h => by cases h)).mpr ⟨?_, fun _ => ⟨?_, ?_⟩⟩
  · intro fast p hp
    change p ∉ [0] at hp
    rcases Nat.lt_or_ge p 2 with hlt | hge
    · obtain rfl : p = 1 := by
        rw [List.mem_singleton] at hp
        omega
      exact fun _ => ⟨rfl, .inl rfl⟩
    · have hzeros : (Example.input 2).source fast ReadPaths.Example.manifest p = .zeros := if_pos hge
      have hsnap : (Example.input 2).snap = ReadPaths.Example.manifest := rfl
      unfold Undisturbed
      rw [hsnap, show (Example.input 2).manifest = ReadPaths.Example.manifest from rfl, hzeros]
      trivial
  · exact List.cons_ne_nil 0 []
  · exact fun p _ g j _ hg => absurd hg List.not_mem_nil

/-- A local checkpoint left group 0 pending and nothing is dirty. -/
def Example.checkpointed : SyncInput :=
  { Example.input 2 with dirty := [], pendingGroups := [0], dirty_nodup := List.nodup_nil }

/-- The pending group is taken before the upload fails, and the next sync has nothing to do. -/
theorem pending_group_lost :
    Stored .plain Example.checkpointed.manifest Example.checkpointed.backend
      (ReadPaths.Example.content 2) ∧
    Example.checkpointed.FailsAt ⟨[], [], []⟩ ∧ ¬ Example.checkpointed.Retryable ⟨[], [], []⟩ := by
  refine ⟨ReadPaths.Example.stored 2, .merge, fun h => ?_⟩
  obtain ⟨⟨new, b⟩, hok⟩ := exists_ok_some
    (show (Example.checkpointed.durableSync.toOption.join).isSome = true by decide +kernel)
  obtain ⟨new', b', hretry, -⟩ := h.2 new b hok
  have hnone : Example.checkpointed.retry ⟨[], [], []⟩ = .ok none := by
    have hsync : (Example.checkpointed.failed ⟨[], [], []⟩).durableSync = .ok none :=
      if_pos ⟨rfl, rfl⟩
    rw [retry, hsync, ok_bind]
  rw [hnone] at hretry
  cases hretry

end SyncInput

end Turbolite
