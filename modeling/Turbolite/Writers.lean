import Turbolite.Grouping
import Turbolite.Publish

/-!
# Turbolite.Writers

The four writers of the backend: `flush_inner`, the durable `sync`, `compact_overrides_inner` and
`rotate_encryption_key`. Each is given the objects it encoded and returns its `Publication`: the
uploads, the new manifest and the keys it deletes. Each of them `Publishes` from the manifest it
started with.
-/

namespace Turbolite

open Blocks

namespace GroupWrites

/-- Rewritten groups only. -/
def ofRewrites (rs : List Rewrite) (h : (rs.map (·.gid)).Nodup) : GroupWrites where
  rewrites := rs
  frames := []
  rewrites_nodup := h
  frames_nodup := List.nodup_nil
  disjoint := by simp

@[simp] theorem ofRewrites_frames (rs : List Rewrite) (h : (rs.map (·.gid)).Nodup) :
    (ofRewrites rs h).frames = [] := rfl

@[simp] theorem ofRewrites_rewrites (rs : List Rewrite) (h : (rs.map (·.gid)).Nodup) :
    (ofRewrites rs h).rewrites = rs := rfl

end GroupWrites

/-! ### The publications -/

/-- The interior and index bundles of a publication. -/
structure BundlePlans where
  interior : ChunkPlan
  index : ChunkPlan
  encode : Bytes → Nat → List (Nat × Bytes) → Bytes

/-- What a publication does to both kinds of bundles; local mode leaves them alone. -/
def publishBundles (plans : Option BundlePlans) (v : Nat) (m : Manifest) :
    ChunkResult × ChunkResult :=
  match plans with
  | none => (carryChunks m.interiorChunkKeys, carryChunks m.indexChunkKeys)
  | some b =>
    (publishChunks .interior (fun c => b.encode (aadInteriorBundle c) c) v m.interiorChunkKeys
      b.interior,
     publishChunks .index (fun c => b.encode (aadIndexBundle c) c) v m.indexChunkKeys b.index)

/-- The manifest `flush_inner` builds, before its index. -/
def flushManifest (snap : Manifest) (changeCounter : Nat) (w : GroupWrites)
    (plans : Option BundlePlans) : Manifest :=
  let v := snap.version + 1
  { snap with
    version := v
    changeCounter := changeCounter
    pageGroupKeys := w.newKeys snap v
    interiorChunkKeys := (publishBundles plans v snap).1.keys
    indexChunkKeys := (publishBundles plans v snap).2.keys
    frameTables := w.newFrameTables snap
    subframeOverrides := w.newOverrides snap v
    pageIndex := ∅ }

/-- `flush_inner`, from the encoded groups on. -/
def flushPublication (snap : Manifest) (changeCounter : Nat) (w : GroupWrites)
    (plans : Option BundlePlans) : Publication :=
  let v := snap.version + 1
  let bundles := publishBundles plans v snap
  { uploads := w.uploads v ++ bundles.1.uploads ++ bundles.2.uploads
    manifest := (flushManifest snap changeCounter w plans).buildPageIndex
    replaced := w.replacedGroups snap ++ (w.replacedFrames snap ++ w.drainedKeys snap) ++
      bundles.1.replaced ++ bundles.2.replaced }

/-- The manifest the durable `sync` builds, before its index. The keys and frame tables come from the
manifest the groups were encoded under, the rest from the one that is current after the upload
(`old`). -/
def syncManifest (snap old : Manifest) (ppg pendingPageCount changeCounter : Nat)
    (dbHeader : Option Bytes) (w : GroupWrites) (plans : BundlePlans) : Manifest :=
  let v := snap.version + 1
  { old with
    version := v
    changeCounter := changeCounter
    pageCount := max old.pageCount pendingPageCount
    pagesPerGroup := ppg
    pageGroupKeys := w.newKeys snap v
    interiorChunkKeys := (publishBundles (some plans) v snap).1.keys
    indexChunkKeys := (publishBundles (some plans) v snap).2.keys
    frameTables := w.newFrameTables snap
    subPagesPerFrame := snap.subPagesPerFrame
    subframeOverrides := w.drainOverrides old.subframeOverrides
    pageIndex := ∅
    dbHeader := dbHeader }

/-- The durable `sync`, from the encoded groups on. -/
def syncPublication (snap old : Manifest) (ppg pendingPageCount changeCounter : Nat)
    (dbHeader : Option Bytes) (w : GroupWrites) (plans : BundlePlans) : Publication :=
  let v := snap.version + 1
  let bundles := publishBundles (some plans) v snap
  { uploads := w.uploads v ++ bundles.1.uploads ++ bundles.2.uploads
    manifest :=
      (syncManifest snap old ppg pendingPageCount changeCounter dbHeader w plans).buildPageIndex
    replaced := w.replacedGroups snap ++ w.drainedKeys old ++
      bundles.1.replaced ++ bundles.2.replaced }

/-- `compact_overrides_inner`, from the encoded groups on: the results go into the manifest that is
current after the upload. -/
def compactPublication (snap current : Manifest) (w : GroupWrites) : Publication :=
  let v := snap.version + 1
  { uploads := w.uploads v
    manifest := { current with
      version := v
      pageGroupKeys := w.newKeys current v
      frameTables := w.newFrameTables current
      subframeOverrides := w.drainOverrides current.subframeOverrides }
    replaced := w.replacedGroups snap ++ w.drainedKeys snap }

/-- The groups that have an object. -/
def Manifest.keyedGroups (m : Manifest) : List Nat :=
  (List.range m.pageGroupKeys.length).filter fun gid => (m.groupKey gid).isSome

theorem Manifest.nodup_keyedGroups (m : Manifest) : m.keyedGroups.Nodup :=
  List.nodup_range.filter _

/-- The objects of a rotation: every group again, under the new key. -/
def rotatedGroups (m : Manifest) (recode : Nat → Bytes × Option (List FrameEntry)) : GroupWrites :=
  .ofRewrites (m.keyedGroups.map fun gid => ⟨gid, (recode gid).1, (recode gid).2⟩)
    (by rw [List.map_map]; simpa [Function.comp_def] using m.nodup_keyedGroups)

@[simp] theorem GroupWrites.frames_rotatedGroups (m : Manifest)
    (recode : Nat → Bytes × Option (List FrameEntry)) : (rotatedGroups m recode).frames = [] := rfl

/-- `rotate_encryption_key`, from the re-encrypted objects on. Overrides keep their objects. -/
def rotatePublication (m : Manifest) (recode : Nat → Bytes × Option (List FrameEntry))
    (recodeInterior recodeIndex : Nat → Bytes) : Publication :=
  let v := m.version + 1
  let w := rotatedGroups m recode
  let interior := rekeyChunks .interior recodeInterior v m.interiorChunkKeys
  let index := rekeyChunks .index recodeIndex v m.indexChunkKeys
  { uploads := w.uploads v ++ interior.uploads ++ index.uploads
    manifest := { m with
      version := v
      pageGroupKeys := w.newKeys m v
      frameTables := w.newFrameTables m
      interiorChunkKeys := interior.keys
      indexChunkKeys := index.keys }
    replaced := w.replacedGroups m ++ interior.replaced ++ index.replaced }

/-! ### Slots that the index and the layout do not touch -/

@[simp] theorem Manifest.keyAt_buildPageIndex (m : Manifest) (s : Slot) :
    m.buildPageIndex.keyAt s = m.keyAt s := by
  unfold buildPageIndex
  dsimp only
  split <;> rfl

@[simp] theorem Manifest.version_buildPageIndex (m : Manifest) :
    m.buildPageIndex.version = m.version := by
  unfold buildPageIndex
  dsimp only
  split <;> rfl

theorem Manifest.keyAt_assignNewPagesToGroups (m : Manifest) (unassigned : List Nat) (ppg : Nat)
    (s : Slot) : (m.assignNewPagesToGroups unassigned ppg).keyAt s = m.keyAt s := by
  obtain ⟨n, gps, idx, h⟩ := m.assignNewPagesToGroups_eq unassigned ppg
  rw [h]
  rfl

theorem Manifest.version_assignNewPagesToGroups (m : Manifest) (unassigned : List Nat) (ppg : Nat) :
    (m.assignNewPagesToGroups unassigned ppg).version = m.version := by
  obtain ⟨n, gps, idx, h⟩ := m.assignNewPagesToGroups_eq unassigned ppg
  rw [h]

theorem Manifest.version_rewalk (m : Manifest) (n : Nat) (w : Walk) (ppg : Nat) :
    (m.rewalk n w ppg).version = m.version := by
  unfold rewalk
  rw [version_buildPageIndex]

theorem Manifest.keyAt_rewalk (m : Manifest) (n : Nat) (w : Walk) (ppg : Nat) (s : Slot) :
    (m.rewalk n w ppg).keyAt s = none := by
  unfold rewalk
  rw [keyAt_buildPageIndex]
  cases s <;> rfl

/-! ### Every writer publishes from its base -/

theorem Publishes.congr {base base' : Manifest} {p : Publication} (h : Publishes base p)
    (hv : base'.version = base.version) (hk : SameKeys base' base) : Publishes base' p := by
  have hfun : base'.keyAt = base.keyAt := funext hk
  exact ⟨by rw [h.version, hv], by rw [hfun]; exact h.slots⟩

/-- After a VACUUM was detected no slot names an object, and every key of the base is replaced. -/
theorem Publishes.of_cleared {base snap : Manifest} {p : Publication} (h : Publishes snap p)
    (hv : base.version = snap.version) (hk : ∀ s, snap.keyAt s = none) :
    Publishes base { p with replaced := base.referencedKeys ++ p.replaced } where
  version := by rw [h.version, hv]
  slots :=
    { slot := fun s hs => by
        rcases h.slots.slot s hs with hkeep | hnone | hfresh
        · exact .inr (.inl (hkeep.trans (hk s)))
        · exact .inr (.inl hnone)
        · exact .inr (.inr hfresh)
      fresh := h.slots.fresh
      replaced := fun k hmem => by
        rcases List.mem_append.mp hmem with hb | hr
        · obtain ⟨s, hs⟩ := Manifest.mem_referencedKeys.mp hb
          refine ⟨s, hs, ?_⟩
          rcases h.slots.slot s trivial with hkeep | hnone | hfresh
          · exact .inl (hkeep.trans (hk s))
          · exact .inl hnone
          · exact .inr hfresh.1
        · -- nothing else is replaced: the snapshot names nothing
          obtain ⟨s, hs, -⟩ := h.slots.replaced k hr
          rw [hk s] at hs
          cases hs }

theorem publishBundles_slots (plans : Option BundlePlans) (v : Nat) (m : Manifest)
    {new : Slot → Option ObjectKey}
    (hint : ∀ c, new (.interior c) = (publishBundles plans v m).1.keys.lookup c)
    (hidx : ∀ c, new (.index c) = (publishBundles plans v m).2.keys.lookup c) :
    SlotsPublish (fun s => (∃ c, s = .interior c) ∨ ∃ c, s = .index c) m.keyAt new v
      ((publishBundles plans v m).1.uploads.map (·.1) ++
        (publishBundles plans v m).2.uploads.map (·.1))
      ((publishBundles plans v m).1.replaced ++ (publishBundles plans v m).2.replaced) := by
  cases plans with
  | none =>
    refine SlotsPublish.carry fun s hs => ?_
    rcases hs with ⟨c, rfl⟩ | ⟨c, rfl⟩
    · exact hint c
    · exact hidx c
  | some b =>
    refine SlotsPublish.append (SlotsPublish.publishChunks (fun c => rfl) hint)
      (SlotsPublish.publishChunks (fun c => rfl) hidx) fun s hs => hs

theorem uploads_keys (w : GroupWrites) (v : Nat) : (w.uploads v).map (·.1) =
    (w.rewrites.map fun r => ObjectKey.pageGroup r.gid v) ++
      w.frames.map fun f => ObjectKey.overrideFrame f.gid f.frameIdx v := by
  simp [GroupWrites.uploads, Function.comp_def]

theorem slot_cases (s : Slot) : ((∃ g, s = .group g) ∨ ∃ g f, s = .override g f) ∨
    (∃ c, s = .interior c) ∨ ∃ c, s = .index c := by
  cases s with
  | group g => exact .inl (.inl ⟨g, rfl⟩)
  | interior c => exact .inr (.inl ⟨c, rfl⟩)
  | index c => exact .inr (.inr ⟨c, rfl⟩)
  | override g f => exact .inl (.inr ⟨g, f, rfl⟩)

/-- The groups and overrides of a publication that drains the rewritten groups; the overrides may be
read from a manifest that names the same ones. -/
theorem groupWrites_slots (w : GroupWrites) {m : Manifest} (m' : Manifest) {v : Nat}
    {new : Slot → Option ObjectKey}
    (hm : ∀ g f, m.keyAt (.override g f) = m'.keyAt (.override g f))
    (hg : ∀ g, new (.group g) = (w.newKeys m v).getD g none)
    (ho : ∀ g f, new (.override g f) = if g ∈ w.rewrites.map (·.gid) then none
      else if (g, f) ∈ w.frames.map (fun x => (x.gid, x.frameIdx)) then
        some (.overrideFrame g f v)
      else m'.keyAt (.override g f)) :
    SlotsPublish (fun s => (∃ g, s = .group g) ∨ ∃ g f, s = .override g f) m.keyAt new v
      ((w.uploads v).map (·.1))
      (w.replacedGroups m ++ (w.replacedFrames m' ++ w.drainedKeys m')) := by
  rw [uploads_keys]
  exact SlotsPublish.append (SlotsPublish.groups w (fun g => rfl) hg)
    (SlotsPublish.overrides hm ho) fun s hs => hs

/-- The overrides of a rewritten group are drained, the others stay. -/
theorem keyAt_drained {w : GroupWrites} (hw : w.frames = []) (old : Manifest) {m : Manifest}
    (ho : m.subframeOverrides = w.drainOverrides old.subframeOverrides) (g f v : Nat) :
    m.keyAt (.override g f) = if g ∈ w.rewrites.map (·.gid) then none
      else if (g, f) ∈ w.frames.map (fun x => (x.gid, x.frameIdx)) then
        some (.overrideFrame g f v)
      else old.keyAt (.override g f) := by
  have hdrain : m.overrides g = if g ∈ w.rewrites.map (·.gid) then ∅ else old.overrides g := by
    show m.subframeOverrides.getD g ∅ = _
    rw [ho]
    exact w.drainOverrides_getD old.subframeOverrides g
  simp only [hw, List.map_nil, List.not_mem_nil, if_false]
  show ((m.overrides g).lookup f).map (·.key) = _
  rw [hdrain]
  split <;> rfl

theorem Publishes.of_parts {base : Manifest} {p : Publication} {us us' rs rs' : List ObjectKey}
    (hv : p.manifest.version = base.version + 1) (hu : p.uploads.map (·.1) = us ++ us')
    (hr : p.replaced = rs ++ rs')
    (hg : SlotsPublish (fun s => (∃ g, s = .group g) ∨ ∃ g f, s = .override g f) base.keyAt
      p.manifest.keyAt (base.version + 1) us rs)
    (hb : SlotsPublish (fun s => (∃ c, s = .interior c) ∨ ∃ c, s = .index c) base.keyAt
      p.manifest.keyAt (base.version + 1) us' rs') : Publishes base p := by
  refine ⟨hv, ?_⟩
  rw [hv, hu, hr]
  exact hg.append hb fun s _ => slot_cases s

theorem flushPublication_keyAt_override (snap : Manifest) (changeCounter : Nat) (w : GroupWrites)
    (plans : Option BundlePlans) (g f : Nat) :
    (flushPublication snap changeCounter w plans).manifest.keyAt (.override g f) =
      if g ∈ w.rewrites.map (·.gid) then none
      else if (g, f) ∈ w.frames.map (fun x => (x.gid, x.frameIdx)) then
        some (.overrideFrame g f (snap.version + 1))
      else snap.keyAt (.override g f) := by
  simp only [flushPublication, Manifest.keyAt_buildPageIndex]
  show (((w.newOverrides snap (snap.version + 1)).getD g ∅).lookup f).map (·.key) = _
  rw [GroupWrites.newOverrides_getD]
  split
  · rfl
  · split
    · rename_i hmem
      obtain ⟨x, hx, he⟩ := List.mem_map.mp hmem
      cases he
      rw [GroupWrites.foldl_insertFrame_of_mem w.frames_nodup hx]
      rfl
    · rename_i hmem
      rw [GroupWrites.foldl_insertFrame_of_notMem hmem]
      rfl

theorem flushPublication_publishes (snap : Manifest) (changeCounter : Nat) (w : GroupWrites)
    (plans : Option BundlePlans) :
    Publishes snap (flushPublication snap changeCounter w plans) := by
  refine Publishes.of_parts (Manifest.version_buildPageIndex _)
    (by simp only [flushPublication, List.map_append, List.append_assoc])
    (by simp only [flushPublication, List.append_assoc])
    (groupWrites_slots w snap (fun _ _ => rfl) (fun g => ?_)
      fun g f => flushPublication_keyAt_override snap changeCounter w plans g f)
    (publishBundles_slots plans _ _ (fun c => ?_) fun c => ?_)
  all_goals exact Manifest.keyAt_buildPageIndex _ _

theorem GroupWrites.replacedFrames_of_nil {w : GroupWrites} (hw : w.frames = []) (m : Manifest) :
    w.replacedFrames m = [] := by
  simp [replacedFrames, hw]

/-- The sync publishes from its snapshot when no key changed while it uploaded. -/
theorem syncPublication_publishes {snap old : Manifest} (hold : SameKeys old snap)
    (ppg pendingPageCount changeCounter : Nat) (dbHeader : Option Bytes) {w : GroupWrites}
    (hw : w.frames = []) (plans : BundlePlans) :
    Publishes snap
      (syncPublication snap old ppg pendingPageCount changeCounter dbHeader w plans) := by
  refine Publishes.of_parts (Manifest.version_buildPageIndex _)
    (by simp only [syncPublication, List.map_append, List.append_assoc])
    (by simp only [syncPublication, List.append_assoc, GroupWrites.replacedFrames_of_nil hw,
      List.nil_append])
    (groupWrites_slots w old (fun g f => (hold (.override g f)).symm)
      (fun g => Manifest.keyAt_buildPageIndex _ _)
      fun g f => (Manifest.keyAt_buildPageIndex _ _).trans (keyAt_drained hw old rfl g f _))
    (publishBundles_slots (some plans) _ _ (fun c => ?_) fun c => ?_)
  all_goals exact Manifest.keyAt_buildPageIndex _ _

/-- Compaction publishes from its snapshot when no key changed while it uploaded. -/
theorem compactPublication_publishes {snap current : Manifest} (hold : SameKeys current snap)
    {w : GroupWrites} (hw : w.frames = []) :
    Publishes snap (compactPublication snap current w) := by
  refine Publishes.of_parts rfl (List.append_nil _).symm
    (by simp only [compactPublication, GroupWrites.replacedFrames_of_nil hw, List.nil_append,
      List.append_nil])
    (groupWrites_slots w snap (fun _ _ => rfl) (fun g => ?_) fun g f => ?_)
    (SlotsPublish.carry fun s hs => ?_)
  · have hg : current.groupKey g = snap.groupKey g := hold (.group g)
    show (w.newKeys current (snap.version + 1)).getD g none = _
    rw [GroupWrites.newKeys_getD, GroupWrites.newKeys_getD, hg]
  · rw [keyAt_drained hw current rfl g f (snap.version + 1), hold (.override g f)]
  · rcases hs with ⟨c, rfl⟩ | ⟨c, rfl⟩
    · exact hold (.interior c)
    · exact hold (.index c)

theorem rotatePublication_publishes (m : Manifest)
    (recode : Nat → Bytes × Option (List FrameEntry)) (recodeInterior recodeIndex : Nat → Bytes) :
    Publishes m (rotatePublication m recode recodeInterior recodeIndex) := by
  -- the overrides stay where they are
  have hgroups : SlotsPublish (fun s => (∃ g, s = .group g) ∨ ∃ g f, s = .override g f) m.keyAt
      (rotatePublication m recode recodeInterior recodeIndex).manifest.keyAt (m.version + 1)
      (((rotatedGroups m recode).uploads (m.version + 1)).map (·.1))
      ((rotatedGroups m recode).replacedGroups m) := by
    have hcarry : SlotsPublish (fun s => ∃ g f, s = .override g f) m.keyAt
        (rotatePublication m recode recodeInterior recodeIndex).manifest.keyAt (m.version + 1)
        [] [] := by
      refine SlotsPublish.carry fun s hs => ?_
      obtain ⟨g, f, rfl⟩ := hs
      rfl
    have hall := SlotsPublish.append (SlotsPublish.groups (rotatedGroups m recode)
      (fun g => rfl) fun g => rfl) hcarry fun s hs => hs
    rw [List.append_nil, List.append_nil] at hall
    rw [uploads_keys, GroupWrites.frames_rotatedGroups, List.map_nil, List.append_nil]
    exact hall
  refine Publishes.of_parts rfl ?_ ?_ hgroups
    (SlotsPublish.append (SlotsPublish.rekeyChunks recodeInterior (fun c => rfl)
      fun c => rfl) (SlotsPublish.rekeyChunks recodeIndex (fun c => rfl) fun c => rfl)
      fun s hs => hs)
  · simp only [rotatePublication, List.map_append, List.append_assoc]
  · simp only [rotatePublication, List.append_assoc]

end Turbolite
