import Turbolite.Bundles
import Turbolite.Staging
import Turbolite.StoredState

/-!
# Turbolite.Flush

`flush_inner`: merge the queued staging logs, pick the dirty groups, and for each of them either
upload the frames with staged pages as overrides or rewrite the whole group; then publish. Pages that
are not staged come from the cache, and what is not cached from the base object of the group.
`flush_preserves_image_iff` says exactly when the published database is the one the writer had.

The compaction of overrides that may follow a flush is a publication of its own.
-/

namespace Turbolite

open Blocks Results ReadPaths

/-- What `flush_inner` works on: the manifest snapshot, the cache, the logs it was handed. -/
structure FlushInput where
  cfg : CodecConfig
  manifest : Manifest
  cache : DiskCache manifest.pageSize
  backend : Backend
  dir : StagingDir
  flushes : List PendingFlush
  legacyDirtyGroups : List Nat
  overrideThreshold : Nat
  isLocal : Bool
  interiorPages : List Nat
  indexPages : List Nat
  gcEnabled : Bool

/-- What a flush does to one dirty group. -/
inductive GroupWrite where
  | rewrite (r : Rewrite)
  | frames (gid : Nat) (fs : List FrameWrite)

namespace FlushInput

variable (i : FlushInput) (staged : HMap Nat Bytes)

/-- The logs were written with the page size of the manifest: `write_all_at` refuses to stage anything
but a full page. -/
def StagedSized : Prop := ∀ f ∈ i.flushes, ∀ log, i.dir.lookup f.version = some log →
  ∀ p d, log.read.lookup p = some d → d.length = i.manifest.pageSize

/-! ### Dirty groups -/

/-- The group of every staged page that has one, and the groups local checkpoints left. -/
def dirtyGroups : List Nat :=
  (i.legacyDirtyGroups ++
    staged.keys.filterMap fun p => (i.manifest.pageLocation p).map (·.groupId)).dedup

/-- `effective_threshold`: a quarter of the frames of a group unless configured. -/
def effectiveThreshold : Nat :=
  if 0 < i.overrideThreshold then i.overrideThreshold
  else if 0 < i.manifest.subPagesPerFrame then
    max 1 (divCeil i.manifest.pagesPerGroup i.manifest.subPagesPerFrame / 4)
  else 0

/-- `group_dirty_pnums`. -/
def groupDirtyPnums (gid : Nat) : List Nat :=
  (i.manifest.groupPageNums gid).filter fun p =>
    decide (p < i.manifest.pageCount) && (staged.lookup p).isSome

/-- The frames of a group that have dirty pages. -/
def dirtyFrames (gid : Nat) : List Nat :=
  if i.manifest.hasFrames gid ∧ 0 < i.effectiveThreshold then
    Manifest.dirtyFramesForGroup (i.groupDirtyPnums staged gid) (i.manifest.groupPageNums gid)
      (i.manifest.frameTable gid) i.manifest.subPagesPerFrame
  else []

/-- The group is written as override frames and not as a whole. -/
def useOverride (gid : Nat) : Bool :=
  i.manifest.hasFrames gid && decide (0 < i.effectiveThreshold) &&
    !(i.dirtyFrames staged gid).isEmpty &&
    decide ((i.dirtyFrames staged gid).length < i.effectiveThreshold)

/-! ### One group -/

/-- Staged bytes first, then the cache. -/
def source : PageMap := fun p => (staged.lookup p).or (i.cache.page p)

/-- `fetch_existing_group_pages`: `none` without a key or an object. -/
def fetchExistingGroupPages (gid : Nat) : IoResult (Option (List Bytes)) :=
  match (i.manifest.groupKey gid).bind i.backend.getPageGroup with
  | none => .ok none
  | some data =>
    let ps := i.manifest.pageSize
    if i.manifest.hasFrames gid then do
      let n := (i.manifest.groupPageNums gid).length
      let (_, _, bulk) ← i.cfg.decodePageGroupSeekableFull i.cfg.dictionary (aadPageGroup gid) data
        (i.manifest.frameTable gid) ps n i.manifest.pageCount
      let j := bulk.length / ps
      if j < n then .error (.io .other s!"flush: seekable group {gid} frame is short: page {j} expected {ps} bytes, got {bulk.length - j * ps}")
      else .ok (some ((List.range n).map fun j => block ps j bulk))
    else do
      let (_, _, pages) ← i.cfg.decodePageGroup i.cfg.dictionary (aadPageGroup gid) data
      .ok (some pages)

/-- The error of a page that is nowhere. -/
def missing (gid p : Nat) : IoError :=
  .io .invalidData s!"flush: page {p} in group {gid} is missing and has no backend source"

/-- The slots of a frame. -/
def frameSlots (gid f : Nat) : List Nat :=
  ((i.manifest.groupPageNums gid).drop (f * i.manifest.subPagesPerFrame)).take
    i.manifest.subPagesPerFrame

/-- A dirty frame has a page that is neither staged nor cached. -/
def needsBase (gid : Nat) : Bool :=
  (i.dirtyFrames staged gid).any fun f => (i.frameSlots gid f).any fun p =>
    decide (p < i.manifest.pageCount) && (i.source staged p).isNone

/-- The slots of an override frame that are filled: those before the first page past `page_count`. -/
def liveFrame (gid f : Nat) : List Nat :=
  (i.frameSlots gid f).takeWhile (· < i.manifest.pageCount)

/-- The pages of an override frame. -/
def framePages (existing : Option (List Bytes)) (gid f : Nat) : IoResult (List (Nat × Bytes)) :=
  (i.liveFrame gid f).zipIdx.mapM fun pk =>
    match i.source staged pk.1 with
    | some data => .ok (pk.1, data)
    | none =>
      match existing with
      | none => .error (missing gid pk.1)
      | some base =>
        match base[f * i.manifest.subPagesPerFrame + pk.2]? with
        | some data => .ok (pk.1, data)
        | none => .error (.io .other s!"flush: override frame page {pk.1} in group {gid} missing from fetched base")

/-- The pages of the stored object, where the group needs them. -/
def basePages (gid : Nat) : IoResult (Option (List Bytes)) :=
  if i.needsBase staged gid then i.fetchExistingGroupPages gid else .ok none

/-- Overrides for the dirty frames. -/
def overrideGroup (gid : Nat) : IoResult (List FrameWrite) := do
  let existing ← i.basePages staged gid
  (i.dirtyFrames staged gid).mapM fun f => do
    let pages ← i.framePages staged existing gid f
    .ok ⟨gid, f, i.cfg.encodeOverrideFrame (aadOverrideFrame gid f) i.manifest.pageSize pages⟩

/-- The whole group again. -/
def rewrite (gid : Nat) : IoResult Rewrite :=
  rewriteGroup i.cfg i.manifest (i.source staged) gid
    (do let existing ← i.fetchExistingGroupPages gid; .ok (existing.getD [])) (missing gid)

/-- What the flush does with one group. -/
def writeGroup (gid : Nat) : IoResult GroupWrite :=
  if i.useOverride staged gid then do
    let fs ← i.overrideGroup staged gid
    .ok (.frames gid fs)
  else do
    let r ← i.rewrite staged gid
    .ok (.rewrite r)

/-! ### Bundles -/

/-- Interior pages the cache knows, and the index leaves of the dirty groups and of the cache's index
tier. -/
def bundlePlans : BundlePlans :=
  let m := i.manifest
  let live (ps : List Nat) : List Nat := ps.filter (· < m.pageCount)
  let inGroups := live ((i.dirtyGroups staged).flatMap m.groupPageNums)
  let anyBytes : PageMap := fun p => (staged.lookup p).or (i.cache.file p)
  let leavesOf (pages : List (Nat × Bytes)) := pages.filter fun d => isIndexLeaf d.1 d.2
  let dirtyLeaves := leavesOf (readable (i.source staged) inGroups.dedup)
  let tierPages := (live i.indexPages).filter (· ∉ dirtyLeaves.map (·.1))
  { interior := chunkPlan m.pageSize (readable anyBytes (live i.interiorPages).dedup) inGroups
    index := chunkPlan m.pageSize (dirtyLeaves ++ leavesOf (readable anyBytes tierPages.dedup))
      inGroups
    encode := fun aad _ pages => i.cfg.encodeInteriorBundle aad m.pageSize pages }

end FlushInput

/-! ### The writes of all groups -/

namespace GroupWrite

/-- The group that is written. -/
def gid : GroupWrite → Nat
  | .rewrite r => r.gid
  | .frames g _ => g

/-- The new object of the group, if it is written as a whole. -/
def rewrite? : GroupWrite → Option Rewrite
  | .rewrite r => some r
  | .frames _ _ => none

/-- The override frames of the group, if it is not. -/
def frameWrites : GroupWrite → List FrameWrite
  | .rewrite _ => []
  | .frames _ fs => fs

/-- The frames of a group are distinct frames of that group. -/
def Framed : GroupWrite → Prop
  | .rewrite _ => True
  | .frames g fs => (∀ x ∈ fs, x.gid = g) ∧ (fs.map (·.frameIdx)).Nodup

theorem Framed.gid_eq {o : GroupWrite} (h : o.Framed) {x : FrameWrite} (hx : x ∈ o.frameWrites) :
    x.gid = o.gid := by
  cases o with
  | rewrite r => cases hx
  | frames g fs => exact h.1 x hx

theorem gid_rewrite? {o : GroupWrite} {r : Rewrite} (h : o.rewrite? = some r) : r.gid = o.gid := by
  cases o with
  | rewrite r' => cases h; rfl
  | frames g fs => cases h

theorem Framed.nodup {o : GroupWrite} (h : o.Framed) :
    (o.frameWrites.map fun x => (x.gid, x.frameIdx)).Nodup := by
  cases o with
  | rewrite r => exact List.nodup_nil
  | frames g fs =>
    refine List.Nodup.of_map Prod.snd ?_
    rw [List.map_map]
    exact h.2

end GroupWrite

/-- Every group once: the rewritten ones, and the frames of the others. -/
def GroupWrites.ofGroups (os : List GroupWrite) (hnd : (os.map (·.gid)).Nodup)
    (hf : ∀ o ∈ os, o.Framed) : GroupWrites where
  rewrites := os.filterMap (·.rewrite?)
  frames := os.flatMap (·.frameWrites)
  rewrites_nodup := by
    refine hnd.sublist ?_
    rw [List.map_filterMap]
    clear hnd hf
    induction os with
    | nil => exact List.Sublist.refl _
    | cons o os ih =>
      cases o with
      | rewrite r => simpa [GroupWrite.rewrite?, GroupWrite.gid] using ih.cons_cons r.gid
      | frames g fs => simpa [GroupWrite.rewrite?, GroupWrite.gid] using ih.cons g
  frames_nodup := by
    induction os with
    | nil => exact List.nodup_nil
    | cons o os ih =>
      obtain ⟨ho, hnd'⟩ := List.nodup_cons.mp (List.map_cons ▸ hnd)
      have hrest := ih hnd' fun o' ho' => hf o' (List.mem_cons_of_mem o ho')
      rw [List.flatMap_cons, List.map_append]
      refine List.Nodup.append (hf o (List.mem_cons_self ..)).nodup hrest ?_
      -- frames of different groups
      intro gf h1 h2
      obtain ⟨x, hx, rfl⟩ := List.mem_map.mp h1
      obtain ⟨y, hy, he⟩ := List.mem_map.mp h2
      obtain ⟨o', ho', hy'⟩ := List.mem_flatMap.mp hy
      have hgid : y.gid = x.gid := congrArg Prod.fst he
      rw [(hf o (List.mem_cons_self ..)).gid_eq hx,
        (hf o' (List.mem_cons_of_mem o ho')).gid_eq hy'] at hgid
      exact ho (List.mem_map.mpr ⟨o', ho', hgid⟩)
  disjoint := by
    intro r hr x hx he
    obtain ⟨o, ho, hro⟩ := List.mem_filterMap.mp hr
    obtain ⟨o', ho', hxo⟩ := List.mem_flatMap.mp hx
    rw [GroupWrite.gid_rewrite? hro, (hf o' ho').gid_eq hxo] at he
    obtain rfl := List.inj_on_of_nodup_map hnd ho ho' he
    cases o with
    | rewrite r' => cases hxo
    | frames g fs => cases hro

namespace FlushInput

variable {i : FlushInput} {staged : HMap Nat Bytes}

theorem nodup_dirtyFrames (i : FlushInput) (staged : HMap Nat Bytes) (gid : Nat) :
    (i.dirtyFrames staged gid).Nodup := by
  unfold dirtyFrames
  split
  · unfold Manifest.dirtyFramesForGroup
    split
    · exact List.nodup_nil
    · exact (List.perm_insertionSort _ _).nodup_iff.mpr (List.nodup_dedup _)
  · exact List.nodup_nil

theorem overrideGroup_inv {gid : Nat} {fs : List FrameWrite}
    (h : i.overrideGroup staged gid = .ok fs) : ∃ existing, i.basePages staged gid = .ok existing ∧
      fs.map (·.frameIdx) = i.dirtyFrames staged gid ∧
      ∀ x ∈ fs, x.gid = gid ∧ ∃ pages, i.framePages staged existing gid x.frameIdx = .ok pages ∧
        x.encoded = i.cfg.encodeOverrideFrame (aadOverrideFrame gid x.frameIdx)
          i.manifest.pageSize pages := by
  obtain ⟨existing, he, h⟩ := bind_eq_ok.mp h
  refine ⟨existing, he, mapM_map_key (fun f x hx => ?_) h, fun x hx => ?_⟩
  · obtain ⟨pages, -, hx⟩ := bind_eq_ok.mp hx
    cases hx
    rfl
  · obtain ⟨f, -, hfx⟩ := mapM_inv h x hx
    obtain ⟨pages, hp, hfx⟩ := bind_eq_ok.mp hfx
    cases hfx
    exact ⟨rfl, pages, hp, rfl⟩

theorem writeGroup_inv {gid : Nat} {o : GroupWrite} (h : i.writeGroup staged gid = .ok o) :
    (i.useOverride staged gid = true ∧ ∃ fs, i.overrideGroup staged gid = .ok fs ∧
      o = .frames gid fs) ∨
    (i.useOverride staged gid = false ∧ ∃ r, i.rewrite staged gid = .ok r ∧ o = .rewrite r) := by
  unfold writeGroup at h
  split at h
  · rename_i hu
    obtain ⟨fs, hfs, h⟩ := bind_eq_ok.mp h
    cases h
    exact .inl ⟨hu, fs, hfs, rfl⟩
  · rename_i hu
    obtain ⟨r, hr, h⟩ := bind_eq_ok.mp h
    cases h
    exact .inr ⟨by simpa using hu, r, hr, rfl⟩

theorem gid_writeGroup {gid : Nat} {o : GroupWrite} (h : i.writeGroup staged gid = .ok o) :
    o.gid = gid := by
  rcases writeGroup_inv h with ⟨-, fs, -, rfl⟩ | ⟨-, r, hr, rfl⟩
  · rfl
  · exact gid_of_rewriteGroup hr

theorem framed_writeGroup {gid : Nat} {o : GroupWrite} (h : i.writeGroup staged gid = .ok o) :
    o.Framed := by
  rcases writeGroup_inv h with ⟨-, fs, hfs, rfl⟩ | ⟨-, r, hr, rfl⟩
  · obtain ⟨existing, -, hidx, hx⟩ := overrideGroup_inv hfs
    exact ⟨fun x hxm => (hx x hxm).1, hidx ▸ i.nodup_dirtyFrames staged gid⟩
  · trivial

/-- Every dirty group; the first failure fails the whole. -/
def writeGroups (i : FlushInput) (staged : HMap Nat Bytes) : IoResult GroupWrites :=
  match h : (i.dirtyGroups staged).mapM (i.writeGroup staged) with
  | .error e => .error e
  | .ok os => .ok (.ofGroups os
      (by rw [mapM_map_key (fun _ _ => gid_writeGroup) h]; exact List.nodup_dedup _)
      (fun o ho => by
        obtain ⟨g, -, hg⟩ := mapM_inv h o ho
        exact framed_writeGroup hg))

/-- `flush_inner`: the manifest it published and the backend after it, or `none` when no staged page
has a group. -/
def flushInner (i : FlushInput) : IoResult (Option (Manifest × Backend)) := do
  let staged ← mergeStaged i.dir i.flushes
  if i.manifest.pageSize = 0 then .error (.io .invalidData "flush: manifest has page_size=0")
  else if i.dirtyGroups staged = [] then .ok none
  else do
    let changeCounter ← resolveManifestReplayCursor i.cache i.manifest
    let w ← i.writeGroups staged
    let plans := if i.isLocal then none else some (i.bundlePlans staged)
    let p := flushPublication i.manifest changeCounter w plans
    let b ← i.backend.publish p i.gcEnabled
    .ok (some (p.manifest, b))

/-! ### What the flush should preserve -/

/-- The logs the flush was handed. -/
def logs (i : FlushInput) : List StagingLog := i.flushes.filterMap fun f => i.dir.lookup f.version

/-- The staged bytes of a page by the newest log that has it. -/
def newestStaged (i : FlushInput) (p : Nat) : Option Bytes :=
  lastImage (i.logs.insertionSort fun a b => a.version ≤ b.version) p

/-- The bytes of a page before the flush: the newest staged ones, else the cached ones, else the
stored ones. -/
def expectedOver (i : FlushInput) (stored : PageMap) (p : Nat) : Option Bytes :=
  ((i.newestStaged p).or (i.cache.page p)).or (stored p)

/-- The stored bytes are those of the old manifest, overrides applied. -/
def expected (i : FlushInput) (ct : Nat → GroupContent) : Nat → Option Bytes :=
  i.expectedOver (pageBytes i.manifest ct)

/-- When page `p` is read back as `v`. In a group that is rewritten, and in a frame that gets an
override, a slot before the first page past `page_count` comes from the staged bytes that were merged
last, else from the cache, else from the base object (an override that covered it is not consulted),
and the slots after it are zeros; an override is only found when the base object has its frame. Any
other page is read as the old objects have it. -/
def Keeps (i : FlushInput) (staged : HMap Nat Bytes) (ct : Nat → GroupContent) (p : Nat) (v : Bytes) :
    Prop :=
  match i.manifest.pageLocation p with
  | none => v = zeroPage i.manifest
  | some ⟨g, j⟩ =>
    let spf := i.manifest.subPagesPerFrame
    let merged := (i.source staged p).or (storedBase i.manifest ct g)[j]?
    if g ∈ i.dirtyGroups staged then
      if i.useOverride staged g then
        if j / spf ∈ i.dirtyFrames staged g then
          j / spf * spf < (ct g).base.length ∧
            if j % spf < (i.liveFrame g (j / spf)).length then merged = some v
            else v = zeroPage i.manifest
        else coldBytes i.manifest ct p = some v
      else if j < (liveSlots i.manifest g).length then merged = some v
      else v = zeroPage i.manifest
    else coldBytes i.manifest ct p = some v

/-! ### What a successful flush did -/

/-- The writes of the dirty groups. -/
structure Wrote (i : FlushInput) (staged : HMap Nat Bytes) (w : GroupWrites) : Prop where
  rewrites_iff : ∀ g, g ∈ w.rewrites.map (·.gid) ↔
    g ∈ i.dirtyGroups staged ∧ i.useOverride staged g = false
  frames_iff : ∀ g f, (g, f) ∈ w.frames.map (fun x => (x.gid, x.frameIdx)) ↔
    g ∈ i.dirtyGroups staged ∧ i.useOverride staged g = true ∧ f ∈ i.dirtyFrames staged g
  rewrite : ∀ r ∈ w.rewrites, i.rewrite staged r.gid = .ok r
  frame : ∀ x ∈ w.frames, ∃ existing pages, i.basePages staged x.gid = .ok existing ∧
    i.framePages staged existing x.gid x.frameIdx = .ok pages ∧
    x.encoded = i.cfg.encodeOverrideFrame (aadOverrideFrame x.gid x.frameIdx)
      i.manifest.pageSize pages

theorem writeGroups_inv {w : GroupWrites} (h : i.writeGroups staged = .ok w) : Wrote i staged w := by
  unfold writeGroups at h
  split at h
  · cases h
  · rename_i os hos
    cases h
    have hout : ∀ g ∈ i.dirtyGroups staged, ∃ o ∈ os, i.writeGroup staged g = .ok o := by
      intro g hg
      obtain ⟨k, hk⟩ := List.mem_iff_getElem?.mp hg
      obtain ⟨o, ho, hgo⟩ := mapM_getElem? hos hk
      exact ⟨o, List.mem_of_getElem? ho, hgo⟩
    refine ⟨fun g => ⟨fun hg => ?_, fun hg => ?_⟩, fun g f => ⟨fun hx => ?_, fun hg => ?_⟩,
      fun r hr => ?_, fun x hx => ?_⟩
    · obtain ⟨r, hr, rfl⟩ := List.mem_map.mp hg
      obtain ⟨o, ho, hro⟩ := List.mem_filterMap.mp hr
      obtain ⟨g, hg, hgo⟩ := mapM_inv hos o ho
      rcases writeGroup_inv hgo with ⟨-, fs, -, rfl⟩ | ⟨hu, r', hr', rfl⟩
      · cases hro
      · cases hro
        rw [gid_of_rewriteGroup hr']
        exact ⟨hg, hu⟩
    · obtain ⟨o, ho, hgo⟩ := hout g hg.1
      rcases writeGroup_inv hgo with ⟨hu, -⟩ | ⟨-, r, hr, rfl⟩
      · rw [hg.2] at hu
        cases hu
      · exact List.mem_map.mpr ⟨r, List.mem_filterMap.mpr ⟨_, ho, rfl⟩, gid_of_rewriteGroup hr⟩
    · obtain ⟨x, hx, he⟩ := List.mem_map.mp hx
      obtain ⟨o, ho, hxo⟩ := List.mem_flatMap.mp hx
      obtain ⟨g', hg', hgo⟩ := mapM_inv hos o ho
      rcases writeGroup_inv hgo with ⟨hu, fs, hfs, rfl⟩ | ⟨-, r, -, rfl⟩
      · obtain ⟨existing, -, hidx, hall⟩ := overrideGroup_inv hfs
        cases he
        rw [(hall x hxo).1]
        exact ⟨hg', hu, hidx ▸ List.mem_map_of_mem hxo⟩
      · cases hxo
    · obtain ⟨hg, hu, hf⟩ := hg
      obtain ⟨o, ho, hgo⟩ := hout g hg
      rcases writeGroup_inv hgo with ⟨-, fs, hfs, rfl⟩ | ⟨hu', -⟩
      · obtain ⟨existing, -, hidx, hall⟩ := overrideGroup_inv hfs
        rw [← hidx] at hf
        obtain ⟨x, hx, rfl⟩ := List.mem_map.mp hf
        exact List.mem_map.mpr ⟨x, List.mem_flatMap.mpr ⟨_, ho, hx⟩, by rw [(hall x hx).1]⟩
      · rw [hu] at hu'
        cases hu'
    · obtain ⟨o, ho, hro⟩ := List.mem_filterMap.mp hr
      obtain ⟨g, hg, hgo⟩ := mapM_inv hos o ho
      rcases writeGroup_inv hgo with ⟨-, fs, -, rfl⟩ | ⟨-, r', hr', rfl⟩
      · cases hro
      · cases hro
        rw [gid_of_rewriteGroup hr']
        exact hr'
    · obtain ⟨o, ho, hxo⟩ := List.mem_flatMap.mp hx
      obtain ⟨g, hg, hgo⟩ := mapM_inv hos o ho
      rcases writeGroup_inv hgo with ⟨-, fs, hfs, rfl⟩ | ⟨-, r, -, rfl⟩
      · obtain ⟨existing, he, -, hall⟩ := overrideGroup_inv hfs
        obtain ⟨rfl, pages, hp, henc⟩ := hall x hxo
        exact ⟨existing, pages, he, hp, henc⟩
      · cases hxo

theorem flushInner_inv {r : Option (Manifest × Backend)} (h : i.flushInner = .ok r) :
    ∃ staged, mergeStaged i.dir i.flushes = .ok staged ∧
      ((i.dirtyGroups staged = [] ∧ r = none) ∨
        ∃ cc w plans b', Wrote i staged w ∧
          i.backend.publish (flushPublication i.manifest cc w plans) i.gcEnabled = .ok b' ∧
          r = some ((flushPublication i.manifest cc w plans).manifest, b')) := by
  obtain ⟨staged, hs, h⟩ := bind_eq_ok.mp h
  refine ⟨staged, hs, ?_⟩
  split at h
  · cases h
  · split at h
    · rename_i hnil
      cases h
      exact .inl ⟨hnil, rfl⟩
    · obtain ⟨cc, -, h⟩ := bind_eq_ok.mp h
      obtain ⟨w, hw, h⟩ := bind_eq_ok.mp h
      obtain ⟨b', hb, h⟩ := bind_eq_ok.mp h
      cases h
      exact .inr ⟨cc, w, _, b', writeGroups_inv hw, hb, rfl⟩

/-! ### The pages of the new objects -/

theorem source_sized (hsz : i.StagedSized) (hs : mergeStaged i.dir i.flushes = .ok staged) {p : Nat} {d : Bytes}
    (h : i.source staged p = some d) : d.length = i.manifest.pageSize := by
  obtain ⟨logs, hlogs, hlook⟩ := mergeStaged_spec hs
  unfold source at h
  cases hp : staged.lookup p with
  | none =>
    rw [hp, Option.none_or] at h
    exact i.cache.sized_page h
  | some x =>
    rw [hp, Option.some_or] at h
    cases h
    rw [hlook] at hp
    obtain ⟨pre, log, post, rfl, hlog, -⟩ := lastImage_eq_some.mp hp
    have hmem : some log ∈ i.flushes.map fun f => i.dir.lookup f.version := by
      rw [hlogs]
      exact List.mem_map_of_mem (by simp)
    obtain ⟨f, hf, hdir⟩ := List.mem_map.mp hmem
    exact hsz f hf log hdir p _ hlog

theorem fetchExistingGroupPages_inv {ct : Nat → GroupContent} (hc : i.cfg.codecs.Lawful)
    (h : StoredObjects i.cfg i.manifest i.backend ct) {gid : Nat} {existing : Option (List Bytes)}
    (hf : i.fetchExistingGroupPages gid = .ok existing) :
    ∀ (j : Nat) d, (existing.getD [])[j]? = some d →
      (storedBase i.manifest ct gid)[j]? = some d := by
  unfold fetchExistingGroupPages at hf
  split at hf
  · cases hf
    intro j d hd
    cases hd
  · rename_i data hdata
    have hk : (i.manifest.groupKey gid).isSome := by
      cases hk : i.manifest.groupKey gid with
      | none => rw [hk] at hdata; cases hdata
      | some key => rfl
    rw [storedBase, if_pos hk]
    dsimp only at hf
    split at hf
    · rename_i hframes
      obtain ⟨⟨n, ps, bulk⟩, hdec, hf⟩ := bind_eq_ok.mp hf
      dsimp only at hf
      split at hf
      · cases hf
      · rename_i hlen
        cases hf
        intro j d hd
        refine h.decodeBasePages_inv hc (.inr rfl) hdata
          (show decodeBasePages i.cfg i.cfg.dictionary i.manifest gid data = .ok _ by
            rw [decodeBasePages, if_pos hframes, hdec]; rfl) j d ?_
        -- the pages taken are the first of those the bytes hold
        rw [Option.getD_some, List.getElem?_map] at hd
        obtain ⟨k, hk', rfl⟩ := Option.map_eq_some_iff.mp hd
        obtain ⟨hjn, rfl⟩ := List.getElem?_eq_some_iff.mp hk'
        rw [List.length_range] at hjn
        rw [List.getElem?_map, List.getElem?_range (by omega), List.getElem_range]
        rfl
    · rename_i hframes
      obtain ⟨⟨n, ps, pages⟩, hdec, hf⟩ := bind_eq_ok.mp hf
      cases hf
      exact h.decodeBasePages_inv hc (.inr rfl) hdata
        (show decodeBasePages i.cfg i.cfg.dictionary i.manifest gid data = .ok pages by
          rw [decodeBasePages, if_neg hframes, hdec]; rfl)

/-- The pages an override frame holds. -/
def frameContent (i : FlushInput) (staged : HMap Nat Bytes) (ct : Nat → GroupContent) (gid f : Nat) :
    List Bytes :=
  (i.liveFrame gid f).zipIdx.map fun pk => ((i.source staged pk.1).or
    (storedBase i.manifest ct gid)[f * i.manifest.subPagesPerFrame + pk.2]?).getD (zeroPage i.manifest)

theorem getElem?_frameContent {ct : Nat → GroupContent} {gid f k p : Nat}
    (h : (i.liveFrame gid f)[k]? = some p) :
    (i.frameContent staged ct gid f)[k]? = some (((i.source staged p).or
      (storedBase i.manifest ct gid)[f * i.manifest.subPagesPerFrame + k]?).getD
        (zeroPage i.manifest)) := by
  simp [frameContent, List.getElem?_map, List.getElem?_zipIdx, h]

@[simp] theorem length_frameContent (i : FlushInput) (staged : HMap Nat Bytes)
    (ct : Nat → GroupContent) (gid f : Nat) :
    (i.frameContent staged ct gid f).length = (i.liveFrame gid f).length := by
  simp [frameContent]

/-- A frame that could be filled: every page of it had a source, and its bytes are its content. -/
theorem framePages_inv {ct : Nat → GroupContent} (hsz : i.StagedSized)
    (hs : mergeStaged i.dir i.flushes = .ok staged)
    (hbu : ∀ g, Uniform i.manifest.pageSize (storedBase i.manifest ct g))
    {existing : Option (List Bytes)} {gid f : Nat} {pages : List (Nat × Bytes)}
    (hbase : ∀ (j : Nat) d, (existing.getD [])[j]? = some d →
      (storedBase i.manifest ct gid)[j]? = some d)
    (h : i.framePages staged existing gid f = .ok pages) :
    (∀ k p : Nat, (i.liveFrame gid f)[k]? = some p → ((i.source staged p).or
      (storedBase i.manifest ct gid)[f * i.manifest.subPagesPerFrame + k]?).isSome) ∧
    pages.map (fun q => CodecConfig.padPage i.manifest.pageSize (some q.2)) =
      i.frameContent staged ct gid f ∧
    ∀ q ∈ pages, q.2.length ≤ i.manifest.pageSize := by
  -- each page, with the place its bytes came from
  have hone : ∀ k p : Nat, (i.liveFrame gid f)[k]? = some p → ∃ data, pages[k]? = some (p, data) ∧
      (i.source staged p).or (storedBase i.manifest ct gid)[f * i.manifest.subPagesPerFrame + k]? =
        some data ∧ data.length = i.manifest.pageSize := by
    intro k p hk
    obtain ⟨q, hq, hf⟩ := mapM_getElem? h (k := k) (x := (p, k))
      (by simp [List.getElem?_zipIdx, hk])
    dsimp only at hf
    cases hsrc : i.source staged p with
    | some data =>
      rw [hsrc] at hf
      cases hf
      exact ⟨data, hq, Option.some_or, source_sized hsz hs hsrc⟩
    | none =>
      rw [hsrc] at hf
      cases existing with
      | none => cases hf
      | some base =>
        dsimp only at hf
        split at hf
        · rename_i data hdata
          cases hf
          have hb := hbase _ _ hdata
          exact ⟨data, hq, by rw [Option.none_or, hb], hbu gid _ (List.mem_of_getElem? hb)⟩
        · cases hf
  have hlen : pages.length = (i.liveFrame gid f).length := by
    rw [length_of_mapM h, List.length_zipIdx]
  refine ⟨fun k p hk => ?_, List.ext_getElem? fun k => ?_, fun q hq => ?_⟩
  · obtain ⟨data, -, he, -⟩ := hone k p hk
    rw [he]
    rfl
  · rw [List.getElem?_map]
    cases hk : (i.liveFrame gid f)[k]? with
    | none =>
      have hge := List.getElem?_eq_none_iff.mp hk
      rw [List.getElem?_eq_none (by omega), List.getElem?_eq_none (by simpa using hge)]
      rfl
    | some p =>
      obtain ⟨data, hd, he, hsz⟩ := hone k p hk
      rw [hd, getElem?_frameContent hk, he, Option.map_some, CodecConfig.padPage_full hsz,
        Option.getD_some]
  · obtain ⟨k, hk⟩ := List.mem_iff_getElem?.mp hq
    obtain ⟨hlt, -⟩ := List.getElem?_eq_some_iff.mp hk
    obtain ⟨data, hd, -, hsz⟩ := hone k _ (List.getElem?_eq_getElem (by omega))
    rw [hk] at hd
    rw [Option.some.inj hd]
    exact hsz.le

theorem getElem?_liveFrame {gid f k : Nat} (hspf : k < i.manifest.subPagesPerFrame)
    (h : k < (i.liveFrame gid f).length) :
    (i.liveFrame gid f)[k]? =
      (i.manifest.groupPageNums gid)[f * i.manifest.subPagesPerFrame + k]? := by
  have happ := (List.takeWhile_append_dropWhile (p := fun q => decide (q < i.manifest.pageCount))
    (l := i.frameSlots gid f)).symm
  have hslot : (i.liveFrame gid f)[k]? = (i.frameSlots gid f)[k]? := by
    rw [happ]
    exact (List.getElem?_append_left h).symm
  rw [hslot, frameSlots, List.getElem?_take_of_lt hspf, List.getElem?_drop]

/-- The page of a slot of an override frame. -/
theorem frameContent_slot {ct : Nat → GroupContent} {gid j p : Nat} {x : Bytes}
    (hspf : 0 < i.manifest.subPagesPerFrame)
    (hp : (i.manifest.groupPageNums gid)[j]? = some p)
    (hall : ∀ k p : Nat, (i.liveFrame gid (j / i.manifest.subPagesPerFrame))[k]? = some p →
      ((i.source staged p).or (storedBase i.manifest ct gid)[j / i.manifest.subPagesPerFrame *
        i.manifest.subPagesPerFrame + k]?).isSome) :
    ((i.frameContent staged ct gid (j / i.manifest.subPagesPerFrame))[j %
        i.manifest.subPagesPerFrame]?).getD (zeroPage i.manifest) = x ↔
      if j % i.manifest.subPagesPerFrame <
          (i.liveFrame gid (j / i.manifest.subPagesPerFrame)).length then
        (i.source staged p).or (storedBase i.manifest ct gid)[j]? = some x
      else x = zeroPage i.manifest := by
  have hmod := Nat.mod_lt j hspf
  have hdm := Nat.div_add_mod' j i.manifest.subPagesPerFrame
  split
  · rename_i hlt
    have hslot := getElem?_liveFrame hmod hlt
    rw [hdm, hp] at hslot
    obtain ⟨d, hd⟩ := Option.isSome_iff_exists.mp (hall _ p hslot)
    rw [hdm] at hd
    rw [getElem?_frameContent hslot, hdm, hd, Option.getD_some, Option.getD_some, Option.some.injEq]
  · rename_i hlt
    rw [List.getElem?_eq_none (by rw [length_frameContent]; omega)]
    exact eq_comm

/-! ### The image after a flush -/

section Image

variable {ct : Nat → GroupContent} {w : GroupWrites} {cc : Nat} {plans : Option BundlePlans}
  {b' : Backend}

/-- The content of the groups after a flush that wrote `w`. -/
def contentAfterFlush (i : FlushInput) (staged : HMap Nat Bytes) (ct : Nat → GroupContent)
    (w : GroupWrites) : Nat → GroupContent :=
  contentAfter w (fun g => mergedPages i.manifest (i.source staged) (storedBase i.manifest ct g) g)
    (i.frameContent staged ct) ct

/-- The published manifest is laid out as the snapshot. -/
theorem flush_layout (h : i.manifest.Indexed) (cc : Nat) (w : GroupWrites)
    (plans : Option BundlePlans) :
    (∀ p, (flushPublication i.manifest cc w plans).manifest.pageLocation p =
      i.manifest.pageLocation p) ∧
    (∀ g, (flushPublication i.manifest cc w plans).manifest.groupPageNums g =
      i.manifest.groupPageNums g) ∧
    (flushPublication i.manifest cc w plans).manifest.pageCount = i.manifest.pageCount := by
  have hl := Manifest.buildPageIndex_layout (flushManifest i.manifest cc w plans) i.manifest
    rfl rfl rfl rfl
  refine ⟨fun p => (hl.1 p).trans (h.layout.1 p), fun g => (hl.2 g).trans (h.layout.2 g), ?_⟩
  obtain ⟨st, idx, hm⟩ := Manifest.buildPageIndex_eq (flushManifest i.manifest cc w plans)
  exact (congrArg Manifest.pageCount hm).trans rfl

theorem length_liveFrame_le (i : FlushInput) (gid f : Nat) :
    (i.liveFrame gid f).length ≤ (i.manifest.groupPageNums gid).length := by
  have h1 : (i.liveFrame gid f).length ≤ (i.frameSlots gid f).length :=
    (List.takeWhile_prefix _).length_le
  have h2 : (i.frameSlots gid f).length ≤ (i.manifest.groupPageNums gid).length := by
    unfold frameSlots
    rw [List.length_take, List.length_drop]
    omega
  omega

variable (hc : i.cfg.codecs.Lawful) (hst : Stored i.cfg i.manifest i.backend ct)
  (hsz : i.StagedSized) (hs : mergeStaged i.dir i.flushes = .ok staged)

include hc hst hsz hs

/-- A group the flush rewrote. -/
theorem rewrite_inv {r : Rewrite} (hr : i.rewrite staged r.gid = .ok r) :
    (∀ j p : Nat, (liveSlots i.manifest r.gid)[j]? = some p →
      ((i.source staged p).or (storedBase i.manifest ct r.gid)[j]?).isSome) ∧
    RewriteHolds i.cfg i.manifest r
      (mergedPages i.manifest (i.source staged) (storedBase i.manifest ct r.gid) r.gid) := by
  refine rewriteGroup_holds hc hst.toStoredObjects (fun p d => source_sized hsz hs) ?_ hr
  intro pages hp
  obtain ⟨existing, he, hp⟩ := bind_eq_ok.mp hp
  cases hp
  exact fetchExistingGroupPages_inv hc hst.toStoredObjects he

/-- A frame the flush wrote. -/
theorem frame_inv (hw : Wrote i staged w) {x : FrameWrite} (hx : x ∈ w.frames) :
    (∀ k p : Nat, (i.liveFrame x.gid x.frameIdx)[k]? = some p → ((i.source staged p).or
      (storedBase i.manifest ct x.gid)[x.frameIdx * i.manifest.subPagesPerFrame + k]?).isSome) ∧
    i.cfg.HoldsOverride (aadOverrideFrame x.gid x.frameIdx) x.encoded i.manifest.pageSize
      (i.frameContent staged ct x.gid x.frameIdx) := by
  obtain ⟨existing, pages, he, hp, henc⟩ := hw.frame x hx
  have hbase : ∀ (j : Nat) d, (existing.getD [])[j]? = some d →
      (storedBase i.manifest ct x.gid)[j]? = some d := by
    unfold basePages at he
    split at he
    · exact fetchExistingGroupPages_inv hc hst.toStoredObjects he
    · cases he
      intro j d hd
      cases hd
  obtain ⟨hall, hpages, hlen⟩ :=
    framePages_inv hsz hs (uniform_storedBase hst.toStoredObjects) hbase hp
  refine ⟨hall, ?_⟩
  rw [henc, ← hpages]
  exact CodecConfig.encodeOverrideFrame_holds hc _ hlen

variable {gc : Bool} (hwk : WellKeyed i.manifest)
  (hsize : ∀ g, 8 + (i.manifest.groupPageNums g).length * i.manifest.pageSize ≤
    maxTieredDecompressedBytes)

include hwk hsize

/-- The backend after the flush, as pages. -/
theorem stored_after (hw : Wrote i staged w)
    (hpub : i.backend.publish (flushPublication i.manifest cc w plans) gc = .ok b') :
    Stored i.cfg (flushPublication i.manifest cc w plans).manifest b'
      (i.contentAfterFlush staged ct w) := by
  refine (flush_published hwk hpub).stored hst.toStoredObjects hst.nodup (fun r hr => ⟨?_, ?_⟩)
    fun x hx => ⟨(frame_inv hc hst hsz hs hw hx).2, ?_⟩
  · exact (rewrite_inv hc hst hsz hs (hw.rewrite r hr)).2
  · rw [length_mergedPages]
    exact hsize r.gid
  · rw [length_frameContent]
    have hle := Nat.mul_le_mul_right i.manifest.pageSize (i.length_liveFrame_le x.gid x.frameIdx)
    have := hsize x.gid
    omega

omit hsize in
/-- A slot of a rewritten group. -/
theorem slot_rewritten (hw : Wrote i staged w)
    (hpub : i.backend.publish (flushPublication i.manifest cc w plans) gc = .ok b')
    {p g j : Nat} (hslot : (i.manifest.groupPageNums g)[j]? = some p)
    (hg : g ∈ w.rewrites.map (·.gid)) (v : Bytes) :
    slotBytes (flushPublication i.manifest cc w plans).manifest g (i.contentAfterFlush staged ct w g)
        j = some v ↔
      if j < (liveSlots i.manifest g).length then
        (i.source staged p).or (storedBase i.manifest ct g)[j]? = some v
      else v = zeroPage i.manifest := by
  have hpb := flush_published hwk hpub
  have hgp := (flush_layout hst.indexed cc w plans).2.1
  have hj : j < (i.manifest.groupPageNums g).length := (List.getElem?_eq_some_iff.mp hslot).1
  obtain ⟨r, hr, rfl⟩ := List.mem_map.mp hg
  obtain ⟨hall, hholds⟩ := rewrite_inv hc hst hsz hs (hw.rewrite r hr)
  have hreach : ObjectReaches i.manifest.subPagesPerFrame
      (i.manifest.groupPageNums r.gid).length (i.manifest.groupPageNums r.gid).length j := by
    unfold ObjectReaches
    split
    · exact Nat.lt_of_le_of_lt (Nat.div_mul_le_self ..) hj
    · exact Nat.le_refl _
  rw [contentAfterFlush, Published.contentAfter_of_mem hg,
    hpb.slotBytes_rewrite hr hholds (by rw [hgp]; exact hj), hgp, length_mergedPages,
    mergedPages_slot (fun _ => hslot) hall]
  exact and_iff_right hreach

omit hsize in
/-- A slot of a frame that got an override. -/
theorem slot_override (hw : Wrote i staged w)
    (hpub : i.backend.publish (flushPublication i.manifest cc w plans) gc = .ok b')
    {p g j : Nat} (hslot : (i.manifest.groupPageNums g)[j]? = some p)
    (hframes : i.manifest.hasFrames g = true) (hg : g ∉ w.rewrites.map (·.gid))
    (hf : (g, j / i.manifest.subPagesPerFrame) ∈ w.frames.map (fun x => (x.gid, x.frameIdx)))
    (v : Bytes) :
    slotBytes (flushPublication i.manifest cc w plans).manifest g (i.contentAfterFlush staged ct w g)
        j = some v ↔
      j / i.manifest.subPagesPerFrame * i.manifest.subPagesPerFrame < (ct g).base.length ∧
        if j % i.manifest.subPagesPerFrame <
            (i.liveFrame g (j / i.manifest.subPagesPerFrame)).length then
          (i.source staged p).or (storedBase i.manifest ct g)[j]? = some v
        else v = zeroPage i.manifest := by
  have hpb := flush_published hwk hpub
  have hgp := (flush_layout hst.indexed cc w plans).2.1
  have hspf := (hasFrames_iff.mp hframes).1
  obtain ⟨x, hx, he⟩ := List.mem_map.mp hf
  obtain ⟨hxg, hxf⟩ := Prod.mk.inj he
  have hall := (frame_inv hc hst hsz hs hw hx).1
  rw [hxg, hxf] at hall
  rw [hpb.slotBytes_kept hg rfl rfl rfl (hgp g), contentAfterFlush,
    slotBytes_contentAfter_of_mem hframes hg hf]
  split
  · rename_i hlt
    rw [Option.some.injEq, frameContent_slot hspf hslot hall]
    exact (and_iff_right hlt).symm
  · rename_i hlt
    simp [hlt]

omit hc hsz hs hsize in
/-- A page the flush did not touch. -/
theorem slot_kept
    (hpub : i.backend.publish (flushPublication i.manifest cc w plans) gc = .ok b')
    {p g j : Nat} (hp : p < i.manifest.pageCount)
    (hl : i.manifest.pageLocation p = some ⟨g, j⟩) (hg : g ∉ w.rewrites.map (·.gid))
    (hf : (g, j / i.manifest.subPagesPerFrame) ∉ w.frames.map (fun x => (x.gid, x.frameIdx))) :
    coldBytes i.manifest ct p =
      if ((flushPublication i.manifest cc w plans).manifest.groupKey g).isSome then
        slotBytes (flushPublication i.manifest cc w plans).manifest g
          (i.contentAfterFlush staged ct w g) j
      else none := by
  have hpb := flush_published hwk hpub
  have hgp := (flush_layout hst.indexed cc w plans).2.1
  rw [hpb.groupKey, if_neg hg, hpb.slotBytes_kept hg rfl rfl rfl (hgp g), contentAfterFlush,
    slotBytes_contentAfter_of_notMem hg hf]
  simp only [coldBytes, if_neg (Nat.not_le.mpr hp), hl]

/-- One page after the flush. -/
theorem coldRead_after (hw : Wrote i staged w)
    (hpub : i.backend.publish (flushPublication i.manifest cc w plans) gc = .ok b')
    {p : Nat} (hp : p < i.manifest.pageCount) (v : Bytes) :
    coldRead i.cfg (flushPublication i.manifest cc w plans).manifest b' p = .ok v ↔
      i.Keeps staged ct p v := by
  have hstored := stored_after hc hst hsz hs hwk hsize hw hpub
  have hpb := flush_published hwk hpub
  obtain ⟨hloc, -, hpc⟩ := flush_layout hst.indexed cc w plans
  have hz : zeroPage (flushPublication i.manifest cc w plans).manifest = zeroPage i.manifest := by
    rw [zeroPage, zeroPage, hpb.pageSize]
  rw [hstored.coldRead_iff hc, coldBytes, if_neg (by rw [hpc]; omega), hloc p, Keeps]
  cases hl : i.manifest.pageLocation p with
  | none =>
    simp only [Option.some.injEq, hz]
    exact eq_comm
  | some loc =>
    obtain ⟨g, j⟩ := loc
    have hslot : (i.manifest.groupPageNums g)[j]? = some p := hst.indexed.located hl
    dsimp only
    by_cases hg : g ∈ i.dirtyGroups staged
    · rw [if_pos hg]
      cases hu : i.useOverride staged g with
      | false =>
        have hmem : g ∈ w.rewrites.map (·.gid) := (hw.rewrites_iff g).mpr ⟨hg, hu⟩
        have hkey : ((flushPublication i.manifest cc w plans).manifest.groupKey g).isSome := by
          rw [hpb.groupKey, if_pos hmem]
          rfl
        rw [if_pos hkey, slot_rewritten hc hst hsz hs hwk hw hpub hslot hmem]
        rfl
      | true =>
        have hnr : g ∉ w.rewrites.map (·.gid) := by
          intro hmem
          have hfalse := ((hw.rewrites_iff g).mp hmem).2
          rw [hu] at hfalse
          cases hfalse
        rw [if_pos rfl]
        by_cases hf : j / i.manifest.subPagesPerFrame ∈ i.dirtyFrames staged g
        · have hframes : i.manifest.hasFrames g = true := by
            simp only [useOverride, Bool.and_eq_true] at hu
            exact hu.1.1.1
          have hkey : ((flushPublication i.manifest cc w plans).manifest.groupKey g).isSome := by
            rw [hpb.groupKey, if_neg hnr]
            cases hk : i.manifest.groupKey g with
            | none => exact absurd (hst.unkeyed g hk) (hasFrames_iff.mp hframes).2
            | some key => rfl
          rw [if_pos hf, if_pos hkey, slot_override hc hst hsz hs hwk hw hpub hslot hframes hnr
            ((hw.frames_iff g _).mpr ⟨hg, hu, hf⟩)]
        · rw [if_neg hf, slot_kept hst hwk hpub hp hl hnr
            fun hmem => hf ((hw.frames_iff g _).mp hmem).2.2]
    · rw [if_neg hg, slot_kept hst hwk hpub hp hl
        (fun hmem => hg ((hw.rewrites_iff g).mp hmem).1)
        fun hmem => hg ((hw.frames_iff g _).mp hmem).1]

/-- One page after a flush that succeeded, whether or not it found anything to upload. -/
theorem coldRead_flushInner {r : Option (Manifest × Backend)} (hok : i.flushInner = .ok r) :
    (r.getD (i.manifest, i.backend)).1.pageCount = i.manifest.pageCount ∧
    ∀ p < i.manifest.pageCount, ∀ v,
      coldRead i.cfg (r.getD (i.manifest, i.backend)).1 (r.getD (i.manifest, i.backend)).2 p =
        .ok v ↔ i.Keeps staged ct p v := by
  obtain ⟨staged', hs', hcase⟩ := flushInner_inv hok
  obtain rfl : staged' = staged := Except.ok.inj (hs'.symm.trans hs)
  rcases hcase with ⟨hnil, rfl⟩ | ⟨cc, w, plans, b', hw, hpub, rfl⟩
  · -- nothing was uploaded
    refine ⟨rfl, ?_⟩
    intro p hp v
    rw [Option.getD_none, hst.coldRead_iff hc, Keeps, hnil]
    cases hl : i.manifest.pageLocation p with
    | none =>
      simp only [coldBytes, if_neg (Nat.not_le.mpr hp), hl, Option.some.injEq]
      exact eq_comm
    | some loc => exact (if_neg List.not_mem_nil).to_iff.symm
  · refine ⟨(flush_layout hst.indexed cc w plans).2.2, ?_⟩
    intro p hp v
    exact coldRead_after hc hst hsz hs hwk hsize hw hpub hp v

/-- A flush that succeeds leaves a database that reads as the writer had it exactly when every page
keeps its bytes. A flush that finds no group to upload leaves manifest and backend as they are. -/
theorem flush_preserves_image_iff {r : Option (Manifest × Backend)} (hok : i.flushInner = .ok r) :
    (∀ p < (r.getD (i.manifest, i.backend)).1.pageCount, ∀ v, i.expected ct p = some v →
      coldRead i.cfg (r.getD (i.manifest, i.backend)).1 (r.getD (i.manifest, i.backend)).2 p =
        .ok v) ↔
      ∀ p < i.manifest.pageCount, ∀ v, i.expected ct p = some v → i.Keeps staged ct p v := by
  obtain ⟨hcount, hread⟩ := coldRead_flushInner hc hst hsz hs hwk hsize hok
  rw [hcount]
  constructor
  · intro h p hp v hv
    exact (hread p hp v).mp (h p hp v hv)
  · intro h p hp v hv
    exact (hread p hp v).mpr (h p hp v hv)

end Image

/-! ### A flush of the example database -/

namespace Example

/-- The log of a checkpoint that wrote page 0. -/
def log : StagingLog where
  version := 5
  pageSize := 512
  records := [(0, ReadPaths.Example.page 7)]

/-- Page 0 of the example database was checkpointed; page 1 is not cached. -/
def input (x : UInt8) : FlushInput where
  cfg := .plain
  manifest := ReadPaths.Example.manifest
  cache := ReadPaths.Example.firstPage 7
  backend := ReadPaths.Example.backend x
  dir := AList.insert 5 log ∅
  flushes := [⟨5, 512⟩]
  legacyDirtyGroups := []
  overrideThreshold := 0
  isLocal := false
  interiorPages := []
  indexPages := []
  gcEnabled := true

theorem stagedSized (x : UInt8) : (input x).StagedSized := by
  intro f hf l hl p d hd
  rw [List.mem_singleton.mp hf, show (input x).dir = AList.insert 5 log ∅ from rfl,
    AList.lookup_insert] at hl
  cases hl
  by_cases hp : p = 0
  · subst hp
    cases hd
    exact ReadPaths.Example.length_page 7
  · have hnone : log.read.lookup p = none :=
      (AList.lookup_insert_ne hp).trans (AList.lookup_empty p)
    rw [hnone] at hd
    cases hd

theorem size (x : UInt8) (g : Nat) :
    8 + ((input x).manifest.groupPageNums g).length * (input x).manifest.pageSize ≤
      maxTieredDecompressedBytes := by
  have hlen : ((input x).manifest.groupPageNums g).length ≤ 2 := by
    show ([[0, 1]].getD g []).length ≤ 2
    cases g with
    | zero => decide
    | succ g => exact Nat.zero_le _
  show 8 + _ * 512 ≤ 2 ^ 30
  omega

end Example

/-- The override repeats the base page: the image is preserved. -/
theorem flush_preserves_repeated_override : ∃ new b',
    (Example.input 2).flushInner = .ok (some (new, b')) ∧
    ∀ p < new.pageCount, ∀ v, (Example.input 2).expected (ReadPaths.Example.content 2) p = some v →
      coldRead .plain new b' p = .ok v := by
  obtain ⟨⟨new, b'⟩, hok⟩ := exists_ok_some
    (show ((Example.input 2).flushInner.toOption.join).isSome = true by decide +kernel)
  refine ⟨new, b', hok, (flush_preserves_image_iff Codecs.plain_lawful (ReadPaths.Example.stored 2)
    (Example.stagedSized 2) rfl ReadPaths.Example.wellKeyed (Example.size 2) hok).mpr ?_⟩
  intro p hp v hv
  change p < 2 at hp
  obtain rfl | rfl : p = 0 ∨ p = 1 := by omega
  · cases hv
    show some (ReadPaths.Example.page 7) = _
    rfl
  · cases hv
    show none.or _ = _
    rfl

/-- The override changed page 1 and the page is not cached: the flush publishes the base page and
drops the override. -/
theorem flush_drops_override :
    Stored .plain (Example.input 3).manifest (Example.input 3).backend (ReadPaths.Example.content 3) ∧
    ∃ new b', (Example.input 3).flushInner = .ok (some (new, b')) ∧
      ¬ ∀ p < new.pageCount, ∀ v,
        (Example.input 3).expected (ReadPaths.Example.content 3) p = some v →
          coldRead .plain new b' p = .ok v := by
  obtain ⟨⟨new, b'⟩, hok⟩ := exists_ok_some
    (show ((Example.input 3).flushInner.toOption.join).isSome = true by decide +kernel)
  refine ⟨ReadPaths.Example.stored 3, new, b', hok, fun h => ?_⟩
  obtain ⟨staged, hs, ⟨-, hnone⟩ | ⟨cc, w, plans, b'', hw, hpub, he⟩⟩ := flushInner_inv hok
  · cases hnone
  · obtain ⟨rfl, rfl⟩ := Prod.mk.inj (Option.some.inj he)
    have hread := h 1 (by
      rw [(flush_layout (ReadPaths.Example.stored 3).indexed cc w plans).2.2]
      decide) _ rfl
    obtain rfl : staged = _ := Except.ok.inj (hs.symm.trans rfl)
    have hkeeps := (coldRead_after Codecs.plain_lawful (ReadPaths.Example.stored 3)
      (Example.stagedSized 3) hs ReadPaths.Example.wellKeyed (Example.size 3) hw hpub (p := 1) (by decide) _).mp hread
    have hbase : ([some (ReadPaths.Example.page 1), some (ReadPaths.Example.page 2)].map
        (CodecConfig.padPage 512))[1]? =
          some (CodecConfig.padPage 512 (some (ReadPaths.Example.page 3))) := hkeeps
    revert hbase
    decide

end FlushInput

end Turbolite
