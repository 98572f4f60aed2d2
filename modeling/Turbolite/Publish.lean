import Turbolite.Storage

/-!
# Turbolite.Publish

How a new version of the database is written. Flush, durable sync, override compaction and key
rotation all upload objects under keys of the next version, store a manifest that names them, and
delete the objects they replaced. This module holds the part they share: which slot of the manifest
names which object (`Manifest.keyAt`), the edits of the key vectors and bundle maps, and
`Publishes`, what a new manifest may do to the slots of the one it was built from.
-/

namespace Turbolite

open Blocks

/-! ### Slots -/

/-- A place in the manifest that can name an object. -/
inductive Slot where
  | group (gid : Nat)
  | interior (chunkId : Nat)
  | index (chunkId : Nat)
  | override (gid frameIdx : Nat)
  deriving DecidableEq, Repr

/-- The key a writer gives the object of a slot at a version. -/
def Slot.key : Slot → Nat → ObjectKey
  | .group gid, v => .pageGroup gid v
  | .interior c, v => .interiorChunk c v
  | .index c, v => .indexChunk c v
  | .override gid f, v => .overrideFrame gid f v

@[simp] theorem Slot.version_key (s : Slot) (v : Nat) : (s.key v).version? = some v := by
  cases s <;> rfl

theorem Slot.key_injective {s t : Slot} {v w : Nat} (h : s.key v = t.key w) : s = t := by
  cases s <;> cases t <;> simp_all [Slot.key]

namespace Manifest

/-- The object a slot names. -/
def keyAt (m : Manifest) : Slot → Option ObjectKey
  | .group gid => m.groupKey gid
  | .interior c => m.interiorChunkKeys.lookup c
  | .index c => m.indexChunkKeys.lookup c
  | .override gid f => ((m.overrides gid).lookup f).map (·.key)

/-- `add_manifest_keys_to_set`: every key the manifest names. -/
def referencedKeys (m : Manifest) : List ObjectKey :=
  m.pageGroupKeys.filterMap id ++ m.interiorChunkKeys.entries.map (·.2) ++
    m.indexChunkKeys.entries.map (·.2) ++
    m.subframeOverrides.flatMap fun ovs => ovs.entries.map (·.2.key)

theorem mem_values_iff {β : Type} {l : HMap Nat β} {b : β} :
    b ∈ l.entries.map (·.2) ↔ ∃ a, l.lookup a = some b := by
  simp only [List.mem_map]
  constructor
  · rintro ⟨⟨a, c⟩, hmem, rfl⟩
    exact ⟨a, AList.mem_lookup_iff.mpr (by simpa using hmem)⟩
  · rintro ⟨a, ha⟩
    exact ⟨⟨a, b⟩, by simpa using AList.mem_lookup_iff.mp ha, rfl⟩

theorem mem_referencedKeys {m : Manifest} {k : ObjectKey} :
    k ∈ m.referencedKeys ↔ ∃ s, m.keyAt s = some k := by
  simp only [referencedKeys, List.mem_append, List.mem_filterMap, id, List.mem_flatMap,
    mem_values_iff]
  constructor
  · rintro (((⟨o, hmem, rfl⟩ | ⟨c, hc⟩) | ⟨c, hc⟩) | ⟨ovs, hovs, hk⟩)
    · obtain ⟨gid, hg⟩ := List.mem_iff_getElem?.mp hmem
      exact ⟨.group gid, by simp [keyAt, groupKey, hg]⟩
    · exact ⟨.interior c, hc⟩
    · exact ⟨.index c, hc⟩
    · obtain ⟨gid, hg⟩ := List.mem_iff_getElem?.mp hovs
      obtain ⟨⟨f, ov⟩, hmem, rfl⟩ := List.mem_map.mp hk
      have hl : ovs.lookup f = some ov := AList.mem_lookup_iff.mpr (by simpa using hmem)
      exact ⟨.override gid f, by simp [keyAt, overrides, hg, hl]⟩
  · rintro ⟨s, hs⟩
    cases s with
    | group gid =>
      refine .inl (.inl (.inl ⟨some k, ?_, rfl⟩))
      simp only [keyAt, groupKey, List.getD_eq_getElem?_getD] at hs
      cases hg : m.pageGroupKeys[gid]? with
      | none => rw [hg] at hs; cases hs
      | some o =>
        rw [hg] at hs
        exact List.mem_iff_getElem?.mpr ⟨gid, hg.trans (congrArg some hs)⟩
    | interior c => exact .inl (.inl (.inr ⟨c, hs⟩))
    | index c => exact .inl (.inr ⟨c, hs⟩)
    | override gid f =>
      right
      obtain ⟨ov, hov, rfl⟩ := Option.map_eq_some_iff.mp hs
      simp only [overrides, List.getD_eq_getElem?_getD] at hov
      cases hg : m.subframeOverrides[gid]? with
      | none =>
        rw [hg] at hov
        have hnone : (none : Option SubframeOverride) = some ov := hov
        cases hnone
      | some ovs =>
        rw [hg] at hov
        refine ⟨ovs, List.mem_iff_getElem?.mpr ⟨gid, hg⟩, List.mem_map.mpr ⟨⟨f, ov⟩, ?_, rfl⟩⟩
        simpa using AList.mem_lookup_iff.mp hov

end Manifest

/-! ### Group objects -/

/-- One group encoded whole; a seekable object comes with its frame table. -/
structure Rewrite where
  gid : Nat
  encoded : Bytes
  frameTable : Option (List FrameEntry)

/-- One frame encoded on its own. -/
structure FrameWrite where
  gid : Nat
  frameIdx : Nat
  encoded : Bytes

/-- The group objects of a publication. The writers loop over a set of groups, and a group is
either rewritten or gets override frames. -/
structure GroupWrites where
  rewrites : List Rewrite
  frames : List FrameWrite := []
  rewrites_nodup : (rewrites.map (·.gid)).Nodup
  frames_nodup : (frames.map fun f => (f.gid, f.frameIdx)).Nodup
  disjoint : ∀ r ∈ rewrites, ∀ f ∈ frames, r.gid ≠ f.gid

namespace GroupWrites

variable (w : GroupWrites) (m : Manifest) (v : Nat)

/-- The objects that are uploaded for the new version. -/
def uploads : List (ObjectKey × Bytes) :=
  w.rewrites.map (fun r => (.pageGroup r.gid v, r.encoded)) ++
    w.frames.map fun f => (.overrideFrame f.gid f.frameIdx v, f.encoded)

/-- `new_keys`. -/
def newKeys : List (Option ObjectKey) :=
  growSets none m.pageGroupKeys (w.rewrites.map fun r => (r.gid, some (.pageGroup r.gid v)))

/-- `new_frame_tables`: only a seekable object replaces the group's table. -/
def newFrameTables : List (List FrameEntry) :=
  growSets [] m.frameTables (w.rewrites.filterMap fun r => r.frameTable.map fun ft => (r.gid, ft))

/-- Insert one override entry, growing the vector to the group. -/
def insertFrame (ovs : List (HMap Nat SubframeOverride)) (f : FrameWrite) :
    List (HMap Nat SubframeOverride) :=
  growSet ∅ ovs f.gid ((ovs.getD f.gid ∅).insert f.frameIdx
    ⟨.overrideFrame f.gid f.frameIdx v, ⟨0, f.encoded.length⟩⟩)

/-- `drain` of the overrides of the rewritten groups. -/
def drainOverrides (ovs : List (HMap Nat SubframeOverride)) : List (HMap Nat SubframeOverride) :=
  w.rewrites.foldl (fun ovs r => ovs.set r.gid ∅) ovs

/-- The flush's override vector: new frames, padding to the key vector, drain. -/
def newOverrides : List (HMap Nat SubframeOverride) :=
  let ovs := w.frames.foldl (insertFrame v) m.subframeOverrides
  w.drainOverrides (ovs ++ List.replicate ((w.newKeys m v).length - ovs.length) ∅)

/-- The objects the rewritten groups had. -/
def replacedGroups : List ObjectKey := w.rewrites.filterMap fun r => m.groupKey r.gid

/-- The overrides the new frames take the place of. -/
def replacedFrames : List ObjectKey :=
  w.frames.filterMap fun f => m.keyAt (.override f.gid f.frameIdx)

/-- Every override of a rewritten group. -/
def drainedKeys : List ObjectKey :=
  w.rewrites.flatMap fun r => (m.overrides r.gid).entries.map (·.2.key)

/-! ### The edited vectors, slot by slot -/

variable {w m v}

theorem newKeys_getD (w : GroupWrites) (m : Manifest) (v gid : Nat) :
    (w.newKeys m v).getD gid none =
      if gid ∈ w.rewrites.map (·.gid) then some (.pageGroup gid v) else m.groupKey gid := by
  have hmap : (w.rewrites.map fun r => (r.gid, some (ObjectKey.pageGroup r.gid v))).map (·.1) =
      w.rewrites.map (·.gid) := by simp
  split
  · rename_i hmem
    obtain ⟨r, hr, rfl⟩ := List.mem_map.mp hmem
    refine getD_growSets_of_mem none (hmap ▸ w.rewrites_nodup) ?_
    exact List.mem_map.mpr ⟨r, hr, rfl⟩
  · rename_i hmem
    exact getD_growSets_of_notMem none (hmap ▸ hmem)

theorem newFrameTables_getD_of_mem {r : Rewrite} (hr : r ∈ w.rewrites) {ft : List FrameEntry}
    (hft : r.frameTable = some ft) : (w.newFrameTables m).getD r.gid [] = ft := by
  refine getD_growSets_of_mem [] ?_ (List.mem_filterMap.mpr ⟨r, hr, by rw [hft]; rfl⟩)
  refine (w.rewrites_nodup).sublist ?_
  rw [List.map_filterMap]
  have hsub : ∀ rs : List Rewrite, (rs.filterMap fun r =>
      (r.frameTable.map fun ft => (r.gid, ft)).map (·.1)).Sublist (rs.map (·.gid)) := by
    intro rs
    induction rs with
    | nil => exact List.Sublist.refl _
    | cons x rs ih =>
      cases hx : x.frameTable with
      | none => simpa [hx] using ih.cons x.gid
      | some ft' => simpa [hx] using ih.cons_cons x.gid
  exact hsub w.rewrites

theorem newFrameTables_getD_of_notMem {gid : Nat} (h : gid ∉ w.rewrites.map (·.gid)) :
    (w.newFrameTables m).getD gid [] = m.frameTable gid := by
  refine getD_growSets_of_notMem [] fun hmem => h ?_
  obtain ⟨⟨g, ft⟩, hg, rfl⟩ := List.mem_map.mp hmem
  obtain ⟨r, hr, hrg⟩ := List.mem_filterMap.mp hg
  obtain ⟨ft', -, he⟩ := Option.map_eq_some_iff.mp hrg
  exact List.mem_map.mpr ⟨r, hr, congrArg Prod.fst he⟩

theorem getD_append_replicate {α : Type} (d : α) (xs : List α) (n i : Nat) :
    (xs ++ List.replicate n d).getD i d = xs.getD i d := by
  simp only [List.getD_eq_getElem?_getD, List.getElem?_append]
  split
  · rfl
  · rename_i h
    rw [List.getElem?_eq_none (Nat.le_of_not_lt h), List.getElem?_replicate]
    split <;> rfl

theorem drainOverrides_getD (w : GroupWrites) (ovs : List (HMap Nat SubframeOverride)) (gid : Nat) :
    (w.drainOverrides ovs).getD gid ∅ =
      if gid ∈ w.rewrites.map (·.gid) then ∅ else ovs.getD gid ∅ := by
  have hgen : ∀ (rs : List Rewrite) (ovs : List (HMap Nat SubframeOverride)),
      (rs.foldl (fun ovs r => ovs.set r.gid ∅) ovs).getD gid ∅ =
        if gid ∈ rs.map (·.gid) then ∅ else ovs.getD gid ∅ := by
    intro rs
    induction rs with
    | nil => intro ovs; simp
    | cons r rs ih =>
      intro ovs
      rw [List.foldl_cons, ih, List.map_cons]
      by_cases hr : gid = r.gid
      · subst hr
        have hself : (ovs.set r.gid ∅).getD r.gid ∅ = (∅ : HMap Nat SubframeOverride) := by
          rw [List.getD_eq_getElem?_getD, List.getElem?_set]
          simp only [if_true]
          split <;> rfl
        rw [hself, if_pos (List.mem_cons_self ..)]
        split <;> rfl
      · have hne : (ovs.set r.gid ∅).getD gid ∅ = ovs.getD gid ∅ := by
          rw [List.getD_eq_getElem?_getD, List.getElem?_set_ne (Ne.symm hr),
            List.getD_eq_getElem?_getD]
        simp only [hne, List.mem_cons, hr, false_or]
  exact hgen w.rewrites ovs

theorem foldl_insertFrame_of_notMem {fs : List FrameWrite} {ovs : List (HMap Nat SubframeOverride)}
    {gid f : Nat} (h : (gid, f) ∉ fs.map fun x => (x.gid, x.frameIdx)) :
    ((fs.foldl (insertFrame v) ovs).getD gid ∅).lookup f = (ovs.getD gid ∅).lookup f := by
  induction fs generalizing ovs with
  | nil => rfl
  | cons x fs ih =>
    simp only [List.map_cons, List.mem_cons, not_or] at h
    rw [List.foldl_cons, ih h.2, insertFrame, getD_growSet]
    split
    · rename_i hx
      subst hx
      refine AList.lookup_insert_ne fun hf => h.1 ?_
      rw [hf]
    · rfl

theorem foldl_insertFrame_of_mem {fs : List FrameWrite}
    (hnd : (fs.map fun x => (x.gid, x.frameIdx)).Nodup) {ovs : List (HMap Nat SubframeOverride)}
    {x : FrameWrite} (hx : x ∈ fs) :
    ((fs.foldl (insertFrame v) ovs).getD x.gid ∅).lookup x.frameIdx =
      some ⟨.overrideFrame x.gid x.frameIdx v, ⟨0, x.encoded.length⟩⟩ := by
  induction fs generalizing ovs with
  | nil => cases hx
  | cons y fs ih =>
    obtain ⟨hy, hnd'⟩ := List.nodup_cons.mp hnd
    rw [List.foldl_cons]
    rcases List.mem_cons.mp hx with rfl | hx
    · rw [foldl_insertFrame_of_notMem hy, insertFrame, getD_growSet, if_pos rfl,
        AList.lookup_insert]
    · exact ih hnd' hx

/-- The flush's override vector at a frame. -/
theorem newOverrides_getD (w : GroupWrites) (m : Manifest) (v gid : Nat) :
    (w.newOverrides m v).getD gid ∅ = if gid ∈ w.rewrites.map (·.gid) then ∅
      else (w.frames.foldl (insertFrame v) m.subframeOverrides).getD gid ∅ := by
  rw [newOverrides, drainOverrides_getD, getD_append_replicate]

end GroupWrites

/-! ### Bundles -/

/-- Pages of the interior (or index leaf) bundles, one sorted list a chunk, and the chunks to
encode again. -/
structure ChunkPlan where
  chunks : List (Nat × List (Nat × Bytes))
  dirty : List Nat
  nodup : (chunks.map (·.1)).Nodup

/-- What happens to one kind of bundle: objects to upload, the new map, keys to delete. -/
structure ChunkResult where
  uploads : List (ObjectKey × Bytes)
  keys : HMap Nat ObjectKey
  replaced : List ObjectKey

/-- A chunk is encoded again when it is dirty or has no object yet. -/
def ChunkPlan.reencodes (p : ChunkPlan) (old : HMap Nat ObjectKey) (c : Nat) : Bool :=
  decide (c ∈ p.dirty) || (old.lookup c).isNone

/-- Insert one key a chunk. -/
def insertKeys (g : Nat → ObjectKey) (ids : List Nat) (keys : HMap Nat ObjectKey) :
    HMap Nat ObjectKey :=
  ids.foldl (fun keys c => keys.insert c (g c)) keys

theorem lookup_insertKeys (g : Nat → ObjectKey) (ids : List Nat) (keys : HMap Nat ObjectKey)
    (c : Nat) : (insertKeys g ids keys).lookup c = if c ∈ ids then some (g c) else keys.lookup c := by
  induction ids generalizing keys with
  | nil => simp [insertKeys]
  | cons x ids ih =>
    have hcons : insertKeys g (x :: ids) keys = insertKeys g ids (keys.insert x (g x)) := rfl
    rw [hcons, ih]
    by_cases hmem : c ∈ ids
    · rw [if_pos hmem, if_pos (List.mem_cons_of_mem x hmem)]
    · by_cases hx : c = x
      · subst hx
        rw [if_neg hmem, if_pos (List.mem_cons_self ..), AList.lookup_insert]
      · have hcons : c ∉ x :: ids := by simp [hx, hmem]
        rw [if_neg hmem, if_neg hcons, AList.lookup_insert_ne hx]

/-- Chunked bundles: dirty and new chunks are encoded, clean ones carry their key forward, and a
chunk that has no pages left is dropped. -/
def publishChunks (slot : Nat → Slot) (encode : Nat → List (Nat × Bytes) → Bytes) (v : Nat)
    (old : HMap Nat ObjectKey) (p : ChunkPlan) : ChunkResult where
  uploads := p.chunks.filterMap fun c =>
    if p.reencodes old c.1 then some ((slot c.1).key v, encode c.1 c.2) else none
  keys := insertKeys (fun c => if p.reencodes old c then (slot c).key v
    else (old.lookup c).getD ((slot c).key v)) (p.chunks.map (·.1)) ∅
  replaced :=
    p.chunks.filterMap (fun c => if p.reencodes old c.1 then old.lookup c.1 else none) ++
    old.entries.filterMap fun o => if o.1 ∈ p.chunks.map (·.1) then none else some o.2

/-- Bundles whose bytes are written again under the next version, chunk by chunk. -/
def rekeyChunks (slot : Nat → Slot) (recode : Nat → Bytes) (v : Nat) (old : HMap Nat ObjectKey) :
    ChunkResult where
  uploads := old.keys.map fun c => ((slot c).key v, recode c)
  keys := insertKeys (fun c => (slot c).key v) old.keys old
  replaced := old.entries.map (·.2)

/-- Bundles left as they are. -/
def carryChunks (old : HMap Nat ObjectKey) : ChunkResult := ⟨[], old, []⟩

theorem publishChunks_lookup (slot : Nat → Slot) (encode : Nat → List (Nat × Bytes) → Bytes)
    (v : Nat) (old : HMap Nat ObjectKey) (p : ChunkPlan) (c : Nat) :
    (publishChunks slot encode v old p).keys.lookup c =
      if c ∈ p.chunks.map (·.1) then
        if p.reencodes old c then some ((slot c).key v) else old.lookup c
      else none := by
  simp only [publishChunks, lookup_insertKeys, AList.lookup_empty]
  split
  · cases hre : p.reencodes old c with
    | true => rfl
    | false =>
      -- a clean chunk has an object already
      simp only [ChunkPlan.reencodes, Bool.or_eq_false_iff] at hre
      cases ho : old.lookup c with
      | none => rw [ho] at hre; cases hre.2
      | some k => rfl
  · rfl

/-! ### What a publication may change -/

/-- Objects to upload, the manifest that names them, and the keys to delete once it is stored. -/
structure Publication where
  uploads : List (ObjectKey × Bytes)
  manifest : Manifest
  replaced : List ObjectKey

/-- Two manifests that name the same objects. -/
def SameKeys (m m' : Manifest) : Prop := ∀ s, m.keyAt s = m'.keyAt s

/-- What may happen to the slots of a kind `P`: a slot keeps its object, loses it, or names a new one
that is uploaded; a replaced key is one whose slot no longer names it. -/
structure SlotsPublish (P : Slot → Prop) (old new : Slot → Option ObjectKey) (v : Nat)
    (uploads replaced : List ObjectKey) : Prop where
  slot : ∀ s, P s → new s = old s ∨ new s = none ∨ (new s = some (s.key v) ∧ s.key v ∈ uploads)
  fresh : ∀ k ∈ uploads, k.version? = some v
  replaced : ∀ k ∈ replaced, ∃ s, old s = some k ∧ (new s = none ∨ new s = some (s.key v))

/-- A publication seen from the manifest it was built from. -/
structure Publishes (base : Manifest) (p : Publication) : Prop where
  version : p.manifest.version = base.version + 1
  slots : SlotsPublish (fun _ => True) base.keyAt p.manifest.keyAt p.manifest.version
    (p.uploads.map (·.1)) p.replaced

namespace SlotsPublish

variable {P Q R : Slot → Prop} {old new : Slot → Option ObjectKey} {v : Nat}
  {us us' rs rs' : List ObjectKey}

theorem append (h : SlotsPublish P old new v us rs) (h' : SlotsPublish Q old new v us' rs')
    (hR : ∀ s, R s → P s ∨ Q s) : SlotsPublish R old new v (us ++ us') (rs ++ rs') where
  slot s hs := by
    have hmono : ∀ {xs : List ObjectKey}, xs ⊆ us ++ us' →
        (new s = old s ∨ new s = none ∨ (new s = some (s.key v) ∧ s.key v ∈ xs)) →
        new s = old s ∨ new s = none ∨ (new s = some (s.key v) ∧ s.key v ∈ us ++ us') := by
      intro xs hxs hslot
      exact hslot.imp_right (Or.imp_right (And.imp_right (fun hk => hxs hk)))
    rcases hR s hs with hP | hQ
    · exact hmono (List.subset_append_left ..) (h.slot s hP)
    · exact hmono (List.subset_append_right ..) (h'.slot s hQ)
  fresh k hk := (List.mem_append.mp hk).elim (h.fresh k) (h'.fresh k)
  replaced k hk := (List.mem_append.mp hk).elim (h.replaced k) (h'.replaced k)

theorem carry (h : ∀ s, P s → new s = old s) : SlotsPublish P old new v [] [] where
  slot s hs := .inl (h s hs)
  fresh _ hk := absurd hk List.not_mem_nil
  replaced _ hk := absurd hk List.not_mem_nil

/-- Bundles encoded again where they are dirty. -/
theorem publishChunks {slot : Nat → Slot} {encode : Nat → List (Nat × Bytes) → Bytes}
    {keys : HMap Nat ObjectKey} {p : ChunkPlan} (hold : ∀ c, old (slot c) = keys.lookup c)
    (hnew : ∀ c, new (slot c) = (Turbolite.publishChunks slot encode v keys p).keys.lookup c) :
    SlotsPublish (fun s => ∃ c, s = slot c) old new v
      ((Turbolite.publishChunks slot encode v keys p).uploads.map (·.1))
      (Turbolite.publishChunks slot encode v keys p).replaced where
  slot s := by
    rintro ⟨c, rfl⟩
    rw [hnew, publishChunks_lookup]
    split
    · rename_i hmem
      cases hre : p.reencodes keys c with
      | true =>
        obtain ⟨x, hx, rfl⟩ := List.mem_map.mp hmem
        refine .inr (.inr ⟨rfl, List.mem_map.mpr ⟨((slot x.1).key v, encode x.1 x.2), ?_, rfl⟩⟩)
        exact List.mem_filterMap.mpr ⟨x, hx, if_pos hre⟩
      | false => exact .inl (hold c).symm
    · exact .inr (.inl rfl)
  fresh k hk := by
    obtain ⟨u, hu, rfl⟩ := List.mem_map.mp hk
    obtain ⟨c, -, hc⟩ := List.mem_filterMap.mp hu
    split at hc
    · cases hc
      exact Slot.version_key ..
    · cases hc
  replaced k hk := by
    rcases List.mem_append.mp hk with hk | hk
    · obtain ⟨c, hc, hck⟩ := List.mem_filterMap.mp hk
      split at hck
      · rename_i hre
        refine ⟨slot c.1, (hold c.1).trans hck, .inr ?_⟩
        rw [hnew, publishChunks_lookup, if_pos (List.mem_map_of_mem hc), if_pos hre]
      · cases hck
    · obtain ⟨o, ho, hok⟩ := List.mem_filterMap.mp hk
      split at hok
      · cases hok
      · rename_i hc
        cases hok
        refine ⟨slot o.1, (hold o.1).trans (AList.mem_lookup_iff.mpr ho), .inl ?_⟩
        rw [hnew, publishChunks_lookup, if_neg hc]

/-- Bundles all written again. -/
theorem rekeyChunks {slot : Nat → Slot} (recode : Nat → Bytes) {keys : HMap Nat ObjectKey}
    (hold : ∀ c, old (slot c) = keys.lookup c)
    (hnew : ∀ c, new (slot c) = (Turbolite.rekeyChunks slot recode v keys).keys.lookup c) :
    SlotsPublish (fun s => ∃ c, s = slot c) old new v
      ((Turbolite.rekeyChunks slot recode v keys).uploads.map (·.1))
      (Turbolite.rekeyChunks slot recode v keys).replaced where
  slot s := by
    rintro ⟨c, rfl⟩
    rw [hnew, hold]
    simp only [Turbolite.rekeyChunks, lookup_insertKeys]
    split
    · rename_i hmem
      exact .inr (.inr ⟨rfl, List.mem_map.mpr ⟨_, List.mem_map_of_mem hmem, rfl⟩⟩)
    · exact .inl rfl
  fresh k hk := by
    obtain ⟨u, hu, rfl⟩ := List.mem_map.mp hk
    obtain ⟨c, -, rfl⟩ := List.mem_map.mp hu
    exact Slot.version_key ..
  replaced k hk := by
    obtain ⟨c, hc⟩ := Manifest.mem_values_iff.mp hk
    refine ⟨slot c, (hold c).trans hc, .inr ?_⟩
    have hmem : c ∈ keys.keys := AList.mem_keys.mp (AList.lookup_isSome.mp (by rw [hc]; rfl))
    rw [hnew]
    simp only [Turbolite.rekeyChunks, lookup_insertKeys, if_pos hmem]

/-- Group objects. -/
theorem groups (w : GroupWrites) {m : Manifest} (hold : ∀ g, old (.group g) = m.groupKey g)
    (hnew : ∀ g, new (.group g) = (w.newKeys m v).getD g none) :
    SlotsPublish (fun s => ∃ g, s = .group g) old new v
      (w.rewrites.map fun r => .pageGroup r.gid v) (w.replacedGroups m) where
  slot s := by
    rintro ⟨g, rfl⟩
    rw [hnew, GroupWrites.newKeys_getD]
    split
    · rename_i hmem
      obtain ⟨r, hr, rfl⟩ := List.mem_map.mp hmem
      exact .inr (.inr ⟨rfl, List.mem_map.mpr ⟨r, hr, rfl⟩⟩)
    · exact .inl (hold g).symm
  fresh k hk := by
    obtain ⟨r, -, rfl⟩ := List.mem_map.mp hk
    rfl
  replaced k hk := by
    obtain ⟨r, hr, hk⟩ := List.mem_filterMap.mp hk
    refine ⟨.group r.gid, (hold r.gid).trans hk, .inr ?_⟩
    rw [hnew, GroupWrites.newKeys_getD, if_pos (List.mem_map_of_mem hr)]
    rfl

/-- Overrides: new frames, and none left in a rewritten group. -/
theorem overrides {w : GroupWrites} {m : Manifest}
    (hold : ∀ g f, old (.override g f) = m.keyAt (.override g f))
    (hnew : ∀ g f, new (.override g f) = if g ∈ w.rewrites.map (·.gid) then none
      else if (g, f) ∈ w.frames.map (fun x => (x.gid, x.frameIdx)) then
        some (.overrideFrame g f v)
      else m.keyAt (.override g f)) :
    SlotsPublish (fun s => ∃ g f, s = .override g f) old new v
      (w.frames.map fun f => .overrideFrame f.gid f.frameIdx v)
      (w.replacedFrames m ++ w.drainedKeys m) where
  slot s := by
    rintro ⟨g, f, rfl⟩
    rw [hnew]
    split
    · exact .inr (.inl rfl)
    · split
      · rename_i hmem
        obtain ⟨x, hx, he⟩ := List.mem_map.mp hmem
        cases he
        exact .inr (.inr ⟨rfl, List.mem_map.mpr ⟨x, hx, rfl⟩⟩)
      · exact .inl (hold g f).symm
  fresh k hk := by
    obtain ⟨f, -, rfl⟩ := List.mem_map.mp hk
    rfl
  replaced k hk := by
    rcases List.mem_append.mp hk with hk | hk
    · obtain ⟨x, hx, hk⟩ := List.mem_filterMap.mp hk
      refine ⟨.override x.gid x.frameIdx, (hold _ _).trans hk, ?_⟩
      rw [hnew]
      split
      · exact .inl rfl
      · rw [if_pos (List.mem_map.mpr ⟨x, hx, rfl⟩)]
        exact .inr rfl
    · obtain ⟨r, hr, hk⟩ := List.mem_flatMap.mp hk
      obtain ⟨⟨f, ov⟩, hmem, rfl⟩ := List.mem_map.mp hk
      refine ⟨.override r.gid f, (hold _ _).trans ?_, .inl ?_⟩
      · have hl : (m.overrides r.gid).lookup f = some ov :=
          AList.mem_lookup_iff.mpr (by simpa using hmem)
        simp [Manifest.keyAt, hl]
      · rw [hnew, if_pos (List.mem_map_of_mem hr)]

end SlotsPublish

/-! ### Storing the manifest of a publication -/

/-- A manifest as the writers leave it: no object is named twice, and no key is of a later version. -/
structure WellKeyed (m : Manifest) : Prop where
  injective : ∀ s t k, m.keyAt s = some k → m.keyAt t = some k → s = t
  version : ∀ s k, m.keyAt s = some k → ∃ v ≤ m.version, k.version? = some v

section Store

variable {m base : Manifest} {p : Publication}

/-- A key of the new manifest was stored before, or is one of the uploads. -/
theorem keyAt_publication (hp : Publishes base p) (hv : base.version = m.version)
    (hk : SameKeys base m) {s : Slot} {k : ObjectKey} (h : p.manifest.keyAt s = some k) :
    m.keyAt s = some k ∨ (k = s.key (m.version + 1) ∧ k ∈ p.uploads.map (·.1)) := by
  rcases hp.slots.slot s trivial with hkeep | hnone | ⟨hfresh, hmem⟩
  · left
    rw [← hk s, ← hkeep, h]
  · rw [hnone] at h
    cases h
  · right
    rw [hp.version, hv] at hfresh hmem
    rw [hfresh] at h
    cases h
    exact ⟨rfl, hmem⟩

theorem WellKeyed.publish (hw : WellKeyed m) (hp : Publishes base p)
    (hv : base.version = m.version) (hk : SameKeys base m) : WellKeyed p.manifest where
  injective s t k hs ht := by
    -- a key that was stored before is older than the new ones
    have hage : ∀ s t : Slot, m.keyAt s = some k → k = t.key (m.version + 1) → False := by
      intro s t hs ht
      obtain ⟨v, hle, hkv⟩ := hw.version s k hs
      rw [ht, Slot.version_key] at hkv
      cases hkv
      omega
    rcases keyAt_publication hp hv hk hs with hs | ⟨hs, -⟩ <;>
      rcases keyAt_publication hp hv hk ht with ht | ⟨ht, -⟩
    · exact hw.injective s t k hs ht
    · exact (hage s t hs ht).elim
    · exact (hage t s ht hs).elim
    · exact Slot.key_injective (hs.symm.trans ht)
  version s k hs := by
    rw [hp.version, hv]
    rcases keyAt_publication hp hv hk hs with hs | ⟨rfl, -⟩
    · obtain ⟨v, hle, hkv⟩ := hw.version s k hs
      exact ⟨v, Nat.le_succ_of_le hle, hkv⟩
    · exact ⟨m.version + 1, Nat.le_refl _, Slot.version_key ..⟩

/-- What is old and not named stays so. -/
theorem not_referenced_publish (hp : Publishes base p) (hv : base.version = m.version)
    (hk : SameKeys base m) {k : ObjectKey} (href : k ∉ m.referencedKeys)
    (hup : k ∉ p.uploads.map (·.1)) : k ∉ p.manifest.referencedKeys := by
  intro hmem
  obtain ⟨s, hs⟩ := Manifest.mem_referencedKeys.mp hmem
  rcases keyAt_publication hp hv hk hs with hs | ⟨-, hs⟩
  · exact href (Manifest.mem_referencedKeys.mpr ⟨s, hs⟩)
  · exact hup hs

/-- A replaced key is not named any more, in its own slot or in another one. -/
theorem not_referenced_replaced (hw : WellKeyed m) (hp : Publishes base p)
    (hv : base.version = m.version) (hk : SameKeys base m) {k : ObjectKey} (h : k ∈ p.replaced) :
    k ∉ p.manifest.referencedKeys ∧ ∃ v ≤ m.version, k.version? = some v := by
  obtain ⟨s, hs, hgone⟩ := hp.slots.replaced k h
  have hold : m.keyAt s = some k := (hk s).symm.trans hs
  obtain ⟨v, hle, hkv⟩ := hw.version s k hold
  refine ⟨fun hmem => ?_, v, hle, hkv⟩
  obtain ⟨t, ht⟩ := Manifest.mem_referencedKeys.mp hmem
  rcases keyAt_publication hp hv hk ht with ht' | ⟨rfl, -⟩
  · -- named in the slot it had: that slot lost it
    obtain rfl := hw.injective s t k hold ht'
    rcases hgone with hgone | hgone
    · rw [hgone] at ht
      cases ht
    · rw [hgone] at ht
      cases ht
      rw [Slot.version_key, hp.version] at hkv
      cases hkv
      omega
  · rw [Slot.version_key] at hkv
    cases hkv
    omega

end Store

/-! ### The backend after a publication -/

/-- Upload, store the manifest, and delete what was replaced when the handle collects garbage. -/
def Backend.publish (b : Backend) (p : Publication) (gcEnabled : Bool) : IoResult Backend := do
  let stored ← (b.putPageGroups p.uploads).putManifest p.manifest
  .ok (if gcEnabled then stored.deleteObjects p.replaced else stored)

namespace Backend

variable {b b' : Backend} {base : Manifest} {p : Publication} {gcEnabled : Bool} {k : ObjectKey}

theorem putPageGroups_of_notMem {us : List (ObjectKey × Bytes)} (h : k ∉ us.map (·.1)) :
    (b.putPageGroups us).objects k = b.objects k := by
  induction us generalizing b with
  | nil => rfl
  | cons u us ih =>
    simp only [List.map_cons, List.mem_cons, not_or] at h
    have hcons : b.putPageGroups (u :: us) =
        ({ b with objects := Function.update b.objects u.1 (some u.2) } : Backend).putPageGroups us :=
      rfl
    rw [hcons, ih h.2]
    exact Function.update_of_ne h.1 _ _

theorem putPageGroups_of_mem {us : List (ObjectKey × Bytes)} {data : Bytes} (h : (k, data) ∈ us)
    (huniq : ∀ d, (k, d) ∈ us → d = data) : (b.putPageGroups us).objects k = some data := by
  induction us generalizing b with
  | nil => cases h
  | cons u us ih =>
    have hcons : b.putPageGroups (u :: us) =
        ({ b with objects := Function.update b.objects u.1 (some u.2) } : Backend).putPageGroups us :=
      rfl
    rw [hcons]
    by_cases hmem : k ∈ us.map (·.1)
    · -- a later upload of the key has the same bytes
      obtain ⟨⟨k', d⟩, hd, rfl⟩ := List.mem_map.mp hmem
      obtain rfl := huniq d (List.mem_cons_of_mem u hd)
      exact ih hd fun d' hd' => huniq d' (List.mem_cons_of_mem u hd')
    · rw [putPageGroups_of_notMem hmem]
      rcases List.mem_cons.mp h with rfl | h
      · exact Function.update_self ..
      · exact absurd (List.mem_map.mpr ⟨_, h, rfl⟩) hmem

/-- A manifest that was accepted: it is newer than the one it replaces, and no object changes. -/
theorem putManifest_inv {m : Manifest} (h : b.putManifest m = .ok b') :
    b' = { b with manifest := some m } ∧ ∀ old, b.manifest = some old → old.version < m.version := by
  unfold putManifest at h
  split at h
  · rename_i old hold
    split at h
    · cases h
    · rename_i hlt
      cases h
      refine ⟨rfl, ?_⟩
      intro old' hold'
      obtain rfl : old = old' := Option.some.inj (hold.symm.trans hold')
      exact Nat.lt_of_not_le hlt
  · rename_i hnone
    cases h
    refine ⟨rfl, ?_⟩
    intro old hold
    rw [hnone] at hold
    cases hold

theorem publish_objects (h : b.publish p gcEnabled = .ok b') (k : ObjectKey) :
    b'.objects k = if gcEnabled = true ∧ k ∈ p.replaced then none
      else (b.putPageGroups p.uploads).objects k := by
  obtain ⟨stored, hs, hb⟩ := Results.bind_eq_ok.mp h
  have hobj : stored.objects = (b.putPageGroups p.uploads).objects := by
    rw [(putManifest_inv hs).1]
  cases hb
  cases gcEnabled with
  | false => simp [hobj]
  | true => simp [deleteObjects, hobj]

/-- A publication newer than the stored manifest is accepted. -/
theorem publish_ok (h : ∀ old, b.manifest = some old → old.version < p.manifest.version) :
    ∃ b', b.publish p gcEnabled = .ok b' := by
  have hput : ∃ stored, (b.putPageGroups p.uploads).putManifest p.manifest = .ok stored := by
    have hm : (b.putPageGroups p.uploads).manifest = b.manifest := rfl
    unfold putManifest
    rw [hm]
    split
    · rename_i old hold
      exact ⟨_, if_neg (Nat.not_le_of_lt (h old hold))⟩
    · exact ⟨_, rfl⟩
  obtain ⟨stored, hs⟩ := hput
  exact ⟨_, Results.bind_eq_ok.mpr ⟨stored, hs, rfl⟩⟩

/-- The check of the manifest put only looks at the two versions. -/
theorem publish_of_version {b₂ : Backend} {p₂ : Publication} (h : b.publish p gcEnabled = .ok b')
    (hb : b₂.manifest = b.manifest) (hv : p₂.manifest.version = p.manifest.version) :
    ∃ b₃, b₂.publish p₂ gcEnabled = .ok b₃ := by
  obtain ⟨stored, hs, -⟩ := Results.bind_eq_ok.mp h
  refine publish_ok fun old hold => ?_
  rw [hv]
  exact (putManifest_inv hs).2 old (hb ▸ hold)

/-- What the new manifest names is not deleted. -/
theorem publish_objects_of_keyAt (hp : Publishes base p) (hw : WellKeyed base)
    (h : b.publish p gcEnabled = .ok b') {s : Slot} (hs : p.manifest.keyAt s = some k) :
    b'.objects k = (b.putPageGroups p.uploads).objects k := by
  rw [publish_objects h]
  refine if_neg fun hrep => ?_
  exact (not_referenced_replaced hw hp rfl (fun _ => rfl) hrep.2).1
    (Manifest.mem_referencedKeys.mpr ⟨s, hs⟩)

/-- An object that keeps its slot keeps its bytes. -/
theorem publish_objects_of_kept (hp : Publishes base p) (hw : WellKeyed base)
    (h : b.publish p gcEnabled = .ok b') {s : Slot} (hs : p.manifest.keyAt s = some k)
    (hold : base.keyAt s = some k) : b'.objects k = b.objects k := by
  rw [publish_objects_of_keyAt hp hw h hs]
  refine putPageGroups_of_notMem fun hmem => ?_
  obtain ⟨v, hle, hkv⟩ := hw.version s k hold
  have hnew := hp.slots.fresh k hmem
  rw [hkv, hp.version] at hnew
  cases hnew
  omega

/-- A new object holds what was uploaded under its key. -/
theorem publish_objects_of_upload (hp : Publishes base p) (hw : WellKeyed base)
    (h : b.publish p gcEnabled = .ok b') {s : Slot} (hs : p.manifest.keyAt s = some k) {data : Bytes}
    (hmem : (k, data) ∈ p.uploads) (huniq : ∀ d, (k, d) ∈ p.uploads → d = data) :
    b'.objects k = some data := by
  rw [publish_objects_of_keyAt hp hw h hs]
  exact putPageGroups_of_mem hmem huniq

end Backend

end Turbolite
