import Turbolite.GroupMerge

/-!
# Turbolite.StoredState

The backend after a flush or a durable sync, in terms of pages. `Published` collects what the two
publications have in common, slot by slot; `Published.stored` turns it into a statement about the
content of the groups: a rewritten group holds the merged pages and no overrides, a group with new
override frames holds those over what it had, and every other group holds what it had.
-/

namespace Turbolite

open Blocks Results ReadPaths

/-- The object of a rewritten group under a manifest that names it. -/
theorem RewriteHolds.holdsGroup {cfg : CodecConfig} {m new : Manifest} {b' : Backend} {r : Rewrite}
    {pages : List Bytes} {key : ObjectKey} (h : RewriteHolds cfg m r pages)
    (hps : new.pageSize = m.pageSize) (hspf : new.subPagesPerFrame = m.subPagesPerFrame)
    (hkey : new.groupKey r.gid = some key) (hobj : b'.objects key = some r.encoded)
    (hft : ∀ ft, r.frameTable = some ft → new.frameTable r.gid = ft)
    (hov : ∀ f, (new.overrides r.gid).lookup f = none)
    (hsize : 8 + pages.length * m.pageSize ≤ maxTieredDecompressedBytes) :
    HoldsGroup cfg new b' r.gid ⟨pages, fun _ => none⟩ ∨
      HoldsNothing new b' r.gid ⟨pages, fun _ => none⟩ := by
  have hover : ∀ f, HoldsOver cfg new b' r.gid f ((new.overrides r.gid).lookup f) none := by
    intro f
    rw [hov f]
    rfl
  rcases Nat.eq_zero_or_pos m.subPagesPerFrame with h0 | h0
  · obtain ⟨-, hl⟩ := h.legacy h0
    have hf : new.hasFrames r.gid = false := by simp [Manifest.hasFrames, hspf, h0]
    refine .inl ⟨⟨_, _, hkey, hobj, fun ht => ?_, fun _ => ?_⟩, ?_, hover⟩
    · rw [hf] at ht; cases ht
    · rw [hps]; exact hl hsize
    · rw [hps]; exact hsize
  · obtain ⟨ft, hft', hs⟩ := h.seekable h0
    have hnew : new.frameTable r.gid = ft := hft ft hft'
    by_cases hnil : pages = []
    · -- no pages, no frames: the object is empty
      have hft0 : ft = [] := by
        rw [← List.length_eq_zero_iff, hs.length, hnil, List.length_nil, divCeil_zero]
      refine .inr ⟨⟨_, hkey, ?_⟩, by rw [hnew, hft0], hnil⟩
      rw [hobj, h.empty h0 hnil]
    · have hf : new.hasFrames r.gid = true := by
        rw [hasFrames_iff, hspf, hnew]
        refine ⟨h0, fun hft0 => hnil ?_⟩
        have hlen := hs.length
        rw [hft0, List.length_nil] at hlen
        rw [← List.length_eq_zero_iff]
        by_contra hpos
        have := (lt_divCeil_iff (n := pages.length) (i := 0) h0).mpr (by omega)
        omega
      refine .inl ⟨⟨_, _, hkey, hobj, fun _ => ?_, fun ht => ?_⟩, ?_, hover⟩
      · rw [hps, hspf, hnew]; exact hs
      · rw [hf] at ht; cases ht
      · rw [hps]; exact hsize

/-- A manifest and backend that take the place of `snap` and `b`, with the objects of `w` new at
version `v`. -/
structure Published (snap new : Manifest) (b b' : Backend) (w : GroupWrites) (v : Nat) : Prop where
  pageSize : new.pageSize = snap.pageSize
  subPagesPerFrame : new.subPagesPerFrame = snap.subPagesPerFrame
  groupPages : new.groupPages = snap.groupPages
  indexed : new.Indexed
  groupKey : ∀ g, new.groupKey g =
    if g ∈ w.rewrites.map (·.gid) then some (.pageGroup g v) else snap.groupKey g
  frameTable : ∀ g, g ∉ w.rewrites.map (·.gid) → new.frameTable g = snap.frameTable g
  frameTable_rewrite : ∀ r ∈ w.rewrites,
    new.frameTable r.gid = r.frameTable.getD (snap.frameTable r.gid)
  override_kept : ∀ g f, g ∉ w.rewrites.map (·.gid) →
    (g, f) ∉ w.frames.map (fun x => (x.gid, x.frameIdx)) →
    (new.overrides g).lookup f = (snap.overrides g).lookup f
  override_frame : ∀ x ∈ w.frames, (new.overrides x.gid).lookup x.frameIdx =
    some ⟨.overrideFrame x.gid x.frameIdx v, ⟨0, x.encoded.length⟩⟩
  override_drained : ∀ g f, g ∈ w.rewrites.map (·.gid) → (new.overrides g).lookup f = none
  kept : ∀ s k, snap.keyAt s = some k → new.keyAt s = some k → b'.objects k = b.objects k
  uploaded : ∀ r ∈ w.rewrites, b'.objects (.pageGroup r.gid v) = some r.encoded
  uploaded_frame : ∀ x ∈ w.frames,
    b'.objects (.overrideFrame x.gid x.frameIdx v) = some x.encoded

/-- The content of the groups after the writes. -/
def contentAfter (w : GroupWrites) (pages : Nat → List Bytes) (framePages : Nat → Nat → List Bytes)
    (ct : Nat → GroupContent) : Nat → GroupContent := fun g =>
  if g ∈ w.rewrites.map (·.gid) then ⟨pages g, fun _ => none⟩
  else ⟨(ct g).base, fun f => if (g, f) ∈ w.frames.map (fun x => (x.gid, x.frameIdx)) then
    some (framePages g f) else (ct g).overFrames f⟩

namespace Published

variable {cfg : CodecConfig} {snap new : Manifest} {b b' : Backend} {w : GroupWrites} {v : Nat}
  {pages : Nat → List Bytes} {framePages : Nat → Nat → List Bytes} {ct : Nat → GroupContent}

theorem contentAfter_of_mem {g : Nat} (h : g ∈ w.rewrites.map (·.gid)) :
    contentAfter w pages framePages ct g = ⟨pages g, fun _ => none⟩ := by
  rw [contentAfter, if_pos h]

theorem contentAfter_of_notMem {g : Nat} (h : g ∉ w.rewrites.map (·.gid)) :
    contentAfter w pages framePages ct g = ⟨(ct g).base, fun f =>
      if (g, f) ∈ w.frames.map (fun x => (x.gid, x.frameIdx)) then some (framePages g f)
      else (ct g).overFrames f⟩ := by
  rw [contentAfter, if_neg h]

/-- A rewritten group. -/
theorem holds_rewrite (h : Published snap new b b' w v) {r : Rewrite} (hr : r ∈ w.rewrites)
    (hh : RewriteHolds cfg snap r (pages r.gid))
    (hsize : 8 + (pages r.gid).length * snap.pageSize ≤ maxTieredDecompressedBytes) :
    HoldsGroup cfg new b' r.gid ⟨pages r.gid, fun _ => none⟩ ∨
      HoldsNothing new b' r.gid ⟨pages r.gid, fun _ => none⟩ := by
  have hmem : r.gid ∈ w.rewrites.map (·.gid) := List.mem_map_of_mem hr
  refine hh.holdsGroup h.pageSize h.subPagesPerFrame (by rw [h.groupKey, if_pos hmem])
    (h.uploaded r hr) (fun ft hft => ?_) (fun f => h.override_drained r.gid f hmem) hsize
  rw [h.frameTable_rewrite r hr, hft]
  rfl

/-- A new override frame holds its pages. -/
def FrameHolds (cfg : CodecConfig) (m : Manifest) (x : FrameWrite) (pages : List Bytes) : Prop :=
  cfg.HoldsOverride (aadOverrideFrame x.gid x.frameIdx) x.encoded m.pageSize pages ∧
    pages.length * m.pageSize ≤ maxTieredDecompressedBytes

/-- A group that is not rewritten, with its new override frames. -/
theorem holds_kept (h : Published snap new b b' w v) {g : Nat} (hg : g ∉ w.rewrites.map (·.gid))
    (hh : HoldsGroup cfg snap b g (ct g))
    (hframes : ∀ x ∈ w.frames, FrameHolds cfg snap x (framePages x.gid x.frameIdx)) :
    HoldsGroup cfg new b' g (contentAfter w pages framePages ct g) := by
  obtain ⟨key, data, hk, hd, hs, hl⟩ := hh.base
  have hkey : new.groupKey g = some key := by rw [h.groupKey, if_neg hg, hk]
  have hft : new.frameTable g = snap.frameTable g := h.frameTable g hg
  have hf : new.hasFrames g = snap.hasFrames g := by
    simp only [Manifest.hasFrames, h.subPagesPerFrame, hft]
  have hobj : b'.objects key = some data := by
    rw [h.kept (.group g) key hk hkey, hd]
  rw [contentAfter_of_notMem hg]
  refine ⟨⟨key, data, hkey, hobj, fun ht => ?_, fun ht => ?_⟩, ?_, fun f => ?_⟩
  · rw [h.pageSize, h.subPagesPerFrame, hft]
    exact hs (hf ▸ ht)
  · rw [h.pageSize]
    exact hl (hf ▸ ht)
  · rw [h.pageSize]
    exact hh.size
  · dsimp only
    split
    · rename_i hmem
      obtain ⟨x, hx, he⟩ := List.mem_map.mp hmem
      cases he
      obtain ⟨hho, hsz⟩ := hframes x hx
      rw [h.override_frame x hx]
      refine ⟨x.encoded, framePages x.gid x.frameIdx, h.uploaded_frame x hx, rfl, ?_, ?_⟩
      · rw [h.pageSize]; exact hho
      · rw [h.pageSize]; exact hsz
    · rename_i hmem
      have hov := hh.overFrames f
      have hlook := h.override_kept g f hg hmem
      rw [hlook]
      cases hl : (snap.overrides g).lookup f with
      | none =>
        rw [hl] at hov
        exact hov
      | some ovr =>
        rw [hl] at hov
        obtain ⟨od, os, hod, hos, hho, hsz⟩ := hov
        have hsnap : snap.keyAt (.override g f) = some ovr.key := by
          simp [Manifest.keyAt, hl]
        have hnew : new.keyAt (.override g f) = some ovr.key := by
          simp [Manifest.keyAt, hlook, hl]
        refine ⟨od, os, ?_, hos, ?_, ?_⟩
        · rw [h.kept _ _ hsnap hnew, hod]
        · rw [h.pageSize]; exact hho
        · rw [h.pageSize]; exact hsz

/-- The backend after the writes holds the content after the writes. -/
theorem stored (h : Published snap new b b' w v) (hst : StoredObjects cfg snap b ct)
    (hnd : ∀ g ∈ snap.groupPages, g.Nodup)
    (hrewrites : ∀ r ∈ w.rewrites, RewriteHolds cfg snap r (pages r.gid) ∧
      8 + (pages r.gid).length * snap.pageSize ≤ maxTieredDecompressedBytes)
    (hframes : ∀ x ∈ w.frames, FrameHolds cfg snap x (framePages x.gid x.frameIdx)) :
    Stored cfg new b' (contentAfter w pages framePages ct) where
  pageSize_pos := h.pageSize ▸ hst.pageSize_pos
  pageSize_lt := h.pageSize ▸ hst.pageSize_lt
  indexed := h.indexed
  nodup := h.groupPages ▸ hnd
  legacy h0 g := by
    rw [h.subPagesPerFrame] at h0
    by_cases hg : g ∈ w.rewrites.map (·.gid)
    · obtain ⟨r, hr, rfl⟩ := List.mem_map.mp hg
      rw [h.frameTable_rewrite r hr, ((hrewrites r hr).1.legacy h0).1]
      exact hst.legacy h0 r.gid
    · rw [h.frameTable g hg]
      exact hst.legacy h0 g
  unkeyed g hk := by
    rw [h.groupKey] at hk
    split at hk
    · cases hk
    · rename_i hg
      rw [h.frameTable g hg]
      exact hst.unkeyed g hk
  holds g hk := by
    by_cases hg : g ∈ w.rewrites.map (·.gid)
    · obtain ⟨r, hr, rfl⟩ := List.mem_map.mp hg
      rw [contentAfter_of_mem hg]
      exact h.holds_rewrite hr (hrewrites r hr).1 (hrewrites r hr).2
    · rw [h.groupKey, if_neg hg] at hk
      rcases hst.holds g hk with hh | hh
      · exact .inl (h.holds_kept hg hh hframes)
      · obtain ⟨key, hkey, hobj⟩ := hh.object
        have hnew : new.groupKey g = some key := by rw [h.groupKey, if_neg hg, hkey]
        refine .inr ⟨⟨key, hnew, ?_⟩, by rw [h.frameTable g hg]; exact hh.frameTable, ?_⟩
        · rw [h.kept (.group g) key hkey hnew, hobj]
        · rw [contentAfter_of_notMem hg]
          exact hh.base

end Published

/-! ### Reading a rewritten group -/

/-- An object of `n` pages reaches slot `j` of a group that lists `listed` pages: its frame exists, or
the object has a page for every page listed. -/
def ObjectReaches (spf listed n j : Nat) : Prop :=
  if 0 < spf then j / spf * spf < n else listed ≤ n

instance (spf listed n j : Nat) : Decidable (ObjectReaches spf listed n j) :=
  inferInstanceAs (Decidable (if 0 < spf then j / spf * spf < n else listed ≤ n))

theorem Published.slotBytes_rewrite {cfg : CodecConfig} {snap new : Manifest} {b b' : Backend}
    {w : GroupWrites} {v : Nat} {pages : List Bytes} (h : Published snap new b b' w v) {r : Rewrite}
    (hr : r ∈ w.rewrites) (hh : RewriteHolds cfg snap r pages) {j : Nat}
    (hj : j < (new.groupPageNums r.gid).length) (x : Bytes) :
    slotBytes new r.gid ⟨pages, fun _ => none⟩ j = some x ↔
      ObjectReaches snap.subPagesPerFrame (new.groupPageNums r.gid).length pages.length j ∧
        (pages[j]?).getD (zeroPage snap) = x := by
  have hzero : zeroPage new = zeroPage snap := by rw [zeroPage, zeroPage, h.pageSize]
  rcases Nat.eq_zero_or_pos snap.subPagesPerFrame with h0 | h0
  · have hf : new.hasFrames r.gid = false := by
      simp [Manifest.hasFrames, h.subPagesPerFrame, h0]
    simp only [slotBytes, hf, Bool.false_eq_true, if_false, ObjectReaches, h0, Nat.lt_irrefl]
    split
    · rename_i hle
      rw [List.getElem?_eq_getElem (by omega)]
      simp [hle]
    · rename_i hle
      simp [hle]
  · obtain ⟨ft, hft, hs⟩ := hh.seekable h0
    have hnew : new.frameTable r.gid = ft := by rw [h.frameTable_rewrite r hr, hft]; rfl
    have hlen := hs.length
    simp only [ObjectReaches, if_pos h0]
    by_cases hnil : pages = []
    · -- an empty object has no frame, and less than the group lists
      have hf : new.hasFrames r.gid = false := by
        have hft0 : ft = [] := by
          rw [← List.length_eq_zero_iff, hlen, hnil, List.length_nil, divCeil_zero]
        simp [Manifest.hasFrames, hnew, hft0]
      have hle : ¬ (new.groupPageNums r.gid).length ≤ 0 := by omega
      simp [slotBytes, hf, hnil, hle]
    · have hpos : 0 < pages.length := List.length_pos_iff.mpr hnil
      have hf : new.hasFrames r.gid = true := by
        rw [hasFrames_iff, h.subPagesPerFrame, hnew]
        refine ⟨h0, fun hft0 => ?_⟩
        rw [hft0, List.length_nil] at hlen
        have := (lt_divCeil_iff (n := pages.length) (i := 0) h0).mpr (by omega)
        omega
      simp only [slotBytes, hf, if_true, h.subPagesPerFrame, GroupContent.frame, hzero,
        getElem?_block_div h0]
      split
      · rename_i hlt
        simp [hlt]
      · rename_i hlt
        simp [hlt]

/-- The page of a slot after a rewrite. -/
theorem mergedPages_slot {m : Manifest} {source : PageMap} {base : List Bytes} {gid j p : Nat}
    {x : Bytes} (hp : j < (m.groupPageNums gid).length → (m.groupPageNums gid)[j]? = some p)
    (hall : ∀ j p : Nat, (liveSlots m gid)[j]? = some p → ((source p).or base[j]?).isSome) :
    ((mergedPages m source base gid)[j]?).getD (zeroPage m) = x ↔
      if j < (liveSlots m gid).length then (source p).or base[j]? = some x else x = zeroPage m := by
  have hle := length_liveSlots_le m gid
  split
  · rename_i hj
    have hslot := hp (by omega)
    rw [getElem?_mergedPages hslot, mergedPage, if_pos hj, Option.getD_some]
    obtain ⟨d, hd⟩ := Option.isSome_iff_exists.mp
      (hall j p ((getElem?_liveSlots hj).trans hslot))
    rw [hd, Option.getD_some, Option.some.injEq]
  · rename_i hj
    have hzero : ((mergedPages m source base gid)[j]?).getD (zeroPage m) = zeroPage m := by
      rcases Nat.lt_or_ge j (m.groupPageNums gid).length with hlt | hge
      · rw [getElem?_mergedPages (hp hlt), mergedPage, if_neg hj]
        rfl
      · rw [List.getElem?_eq_none (by rw [length_mergedPages]; exact hge)]
        rfl
    rw [hzero]
    exact eq_comm

/-- A page whose local bytes can only be `x`. -/
theorem or_eq_some_iff_of_eq {a b : Option Bytes} {x : Bytes} (h : ∀ d, a = some d → d = x) :
    a.or b = some x ↔ (a = none → b = some x) := by
  cases a with
  | none => exact ⟨fun hb _ => hb, fun hb => hb rfl⟩
  | some d => exact ⟨fun _ hn => (by cases hn), fun _ => congrArg some (h d rfl)⟩

/-! ### Reading a group that was not rewritten -/

section Kept

variable {snap new : Manifest} {b b' : Backend} {w : GroupWrites} {v g : Nat}
  {pages : Nat → List Bytes} {framePages : Nat → Nat → List Bytes} {ct : Nat → GroupContent}

theorem Published.slotBytes_kept {layout : Manifest} (h : Published snap new b b' w v)
    (hg : g ∉ w.rewrites.map (·.gid)) (hft : layout.frameTable g = snap.frameTable g)
    (hspf : layout.subPagesPerFrame = snap.subPagesPerFrame)
    (hps : layout.pageSize = snap.pageSize)
    (hgp : new.groupPageNums g = layout.groupPageNums g) (c : GroupContent) (j : Nat) :
    slotBytes new g c j = slotBytes layout g c j := by
  have hspf' : new.subPagesPerFrame = layout.subPagesPerFrame := by rw [h.subPagesPerFrame, hspf]
  refine slotBytes_congr ?_ hspf' (by rw [h.pageSize, hps]) hgp c j
  rw [Manifest.hasFrames, Manifest.hasFrames, hspf', h.frameTable g hg, hft]

/-- A frame without a new override. -/
theorem slotBytes_contentAfter_of_notMem {m : Manifest} {j : Nat}
    (hg : g ∉ w.rewrites.map (·.gid))
    (hf : (g, j / m.subPagesPerFrame) ∉ w.frames.map (fun x => (x.gid, x.frameIdx))) :
    slotBytes m g (contentAfter w pages framePages ct g) j = slotBytes m g (ct g) j := by
  rw [Published.contentAfter_of_notMem hg]
  simp only [slotBytes, GroupContent.frame, if_neg hf]

/-- A frame with a new override. -/
theorem slotBytes_contentAfter_of_mem {m : Manifest} {j : Nat} (hframes : m.hasFrames g = true)
    (hg : g ∉ w.rewrites.map (·.gid))
    (hf : (g, j / m.subPagesPerFrame) ∈ w.frames.map (fun x => (x.gid, x.frameIdx))) :
    slotBytes m g (contentAfter w pages framePages ct g) j =
      if j / m.subPagesPerFrame * m.subPagesPerFrame < (ct g).base.length then
        some (((framePages g (j / m.subPagesPerFrame))[j % m.subPagesPerFrame]?).getD (zeroPage m))
      else none := by
  rw [Published.contentAfter_of_notMem hg]
  simp only [slotBytes, GroupContent.frame, if_pos hf, hframes, if_true]

end Kept

/-! ### The objects of a publication -/

/-- Every upload beyond `w`'s is a bundle. -/
def OnlyBundles (us : List (ObjectKey × Bytes)) : Prop :=
  ∀ u ∈ us, (∃ c v, u.1 = .interiorChunk c v) ∨ ∃ c v, u.1 = .indexChunk c v

theorem onlyBundles_publishBundles (plans : Option BundlePlans) (v : Nat) (m : Manifest) :
    OnlyBundles ((publishBundles plans v m).1.uploads ++ (publishBundles plans v m).2.uploads) := by
  cases plans with
  | none => exact fun u hu => absurd hu List.not_mem_nil
  | some p =>
    intro u hu
    rcases List.mem_append.mp hu with hu | hu
    · obtain ⟨c, -, hc⟩ := List.mem_filterMap.mp hu
      split at hc
      · cases hc
        exact .inl ⟨_, _, rfl⟩
      · cases hc
    · obtain ⟨c, -, hc⟩ := List.mem_filterMap.mp hu
      split at hc
      · cases hc
        exact .inr ⟨_, _, rfl⟩
      · cases hc

theorem GroupWrites.eq_of_mem_uploads {w : GroupWrites} {v : Nat} {us : List (ObjectKey × Bytes)}
    (hus : OnlyBundles us) {r : Rewrite} (hr : r ∈ w.rewrites) {d : Bytes}
    (h : (ObjectKey.pageGroup r.gid v, d) ∈ w.uploads v ++ us) : d = r.encoded := by
  rcases List.mem_append.mp h with h | h
  · rcases List.mem_append.mp h with h | h
    · obtain ⟨r', hr', he⟩ := List.mem_map.mp h
      simp only [Prod.mk.injEq, ObjectKey.pageGroup.injEq] at he
      rw [← he.2, List.inj_on_of_nodup_map w.rewrites_nodup hr' hr he.1.1]
    · obtain ⟨x, -, he⟩ := List.mem_map.mp h
      cases he
  · rcases hus _ h with ⟨c, v', he⟩ | ⟨c, v', he⟩ <;> cases he

theorem GroupWrites.eq_of_mem_uploads_frame {w : GroupWrites} {v : Nat}
    {us : List (ObjectKey × Bytes)} (hus : OnlyBundles us) {x : FrameWrite} (hx : x ∈ w.frames)
    {d : Bytes} (h : (ObjectKey.overrideFrame x.gid x.frameIdx v, d) ∈ w.uploads v ++ us) :
    d = x.encoded := by
  rcases List.mem_append.mp h with h | h
  · rcases List.mem_append.mp h with h | h
    · obtain ⟨r, -, he⟩ := List.mem_map.mp h
      cases he
    · obtain ⟨x', hx', he⟩ := List.mem_map.mp h
      simp only [Prod.mk.injEq, ObjectKey.overrideFrame.injEq] at he
      rw [← he.2, List.inj_on_of_nodup_map w.frames_nodup hx' hx (by rw [he.1.1, he.1.2.1])]
  · rcases hus _ h with ⟨c, v', he⟩ | ⟨c, v', he⟩ <;> cases he

section Objects

variable {m snap : Manifest} {p : Publication} {b b' : Backend} {gcEnabled : Bool} {w : GroupWrites}
  {v : Nat} {us : List (ObjectKey × Bytes)}

theorem objects_kept (hp : Publishes m p) (hw : WellKeyed m)
    (hpub : b.publish p gcEnabled = .ok b')
    (hsnap : ∀ s k, snap.keyAt s = some k → m.keyAt s = some k) {s : Slot} {k : ObjectKey}
    (hs : snap.keyAt s = some k) (hn : p.manifest.keyAt s = some k) :
    b'.objects k = b.objects k :=
  Backend.publish_objects_of_kept hp hw hpub hn (hsnap s k hs)

theorem objects_rewrite (hp : Publishes m p) (hw : WellKeyed m)
    (hpub : b.publish p gcEnabled = .ok b') (hu : p.uploads = w.uploads v ++ us)
    (hus : OnlyBundles us) {r : Rewrite} (hr : r ∈ w.rewrites)
    (hkey : p.manifest.groupKey r.gid = some (.pageGroup r.gid v)) :
    b'.objects (.pageGroup r.gid v) = some r.encoded := by
  refine Backend.publish_objects_of_upload (s := .group r.gid) hp hw hpub hkey ?_ fun d hd => ?_
  · rw [hu]
    exact List.mem_append_left _ (List.mem_append_left _ (List.mem_map.mpr ⟨r, hr, rfl⟩))
  · rw [hu] at hd
    exact GroupWrites.eq_of_mem_uploads hus hr hd

theorem objects_frame (hp : Publishes m p) (hw : WellKeyed m)
    (hpub : b.publish p gcEnabled = .ok b') (hu : p.uploads = w.uploads v ++ us)
    (hus : OnlyBundles us) {x : FrameWrite} (hx : x ∈ w.frames)
    (hkey : p.manifest.keyAt (.override x.gid x.frameIdx) =
      some (.overrideFrame x.gid x.frameIdx v)) :
    b'.objects (.overrideFrame x.gid x.frameIdx v) = some x.encoded := by
  refine Backend.publish_objects_of_upload hp hw hpub hkey ?_ fun d hd => ?_
  · rw [hu]
    exact List.mem_append_left _ (List.mem_append_right _ (List.mem_map.mpr ⟨x, hx, rfl⟩))
  · rw [hu] at hd
    exact GroupWrites.eq_of_mem_uploads_frame hus hx hd

end Objects

theorem GroupWrites.frameTable_rewrite (w : GroupWrites) (m : Manifest) {r : Rewrite}
    (hr : r ∈ w.rewrites) :
    (w.newFrameTables m).getD r.gid [] = r.frameTable.getD (m.frameTable r.gid) := by
  cases hft : r.frameTable with
  | some ft => exact GroupWrites.newFrameTables_getD_of_mem hr hft
  | none =>
    refine getD_growSets_of_notMem [] fun hmem => ?_
    obtain ⟨⟨g, ft⟩, hg, he⟩ := List.mem_map.mp hmem
    obtain ⟨r', hr', hrg⟩ := List.mem_filterMap.mp hg
    obtain ⟨ft', hft', he'⟩ := Option.map_eq_some_iff.mp hrg
    cases he'
    rw [List.inj_on_of_nodup_map w.rewrites_nodup hr' hr he, hft] at hft'
    cases hft'

/-! ### Flush and sync -/

theorem flush_published {snap : Manifest} {changeCounter : Nat} {w : GroupWrites}
    {plans : Option BundlePlans} {b b' : Backend} {gcEnabled : Bool} (hw : WellKeyed snap)
    (hpub : b.publish (flushPublication snap changeCounter w plans) gcEnabled = .ok b') :
    Published snap (flushPublication snap changeCounter w plans).manifest b b' w
      (snap.version + 1) := by
  have hp := flushPublication_publishes snap changeCounter w plans
  have hu : (flushPublication snap changeCounter w plans).uploads = w.uploads (snap.version + 1) ++
      ((publishBundles plans (snap.version + 1) snap).1.uploads ++
        (publishBundles plans (snap.version + 1) snap).2.uploads) := List.append_assoc ..
  have hus := onlyBundles_publishBundles plans (snap.version + 1) snap
  have hidx : (flushPublication snap changeCounter w plans).manifest.Indexed :=
    Manifest.indexed_buildPageIndex _
  obtain ⟨st, idx, hman⟩ : ∃ st idx, (flushPublication snap changeCounter w plans).manifest =
      { flushManifest snap changeCounter w plans with strategy := st, pageIndex := idx } :=
    Manifest.buildPageIndex_eq _
  -- a group written anew has the key of this version
  have hgk : ∀ g, (flushPublication snap changeCounter w plans).manifest.groupKey g =
      if g ∈ w.rewrites.map (·.gid) then some (.pageGroup g (snap.version + 1))
      else snap.groupKey g := by
    intro g
    rw [hman]
    exact w.newKeys_getD snap _ g
  -- and no overrides; the others get the frames written for them
  have hov : ∀ g, (flushPublication snap changeCounter w plans).manifest.overrides g =
      if g ∈ w.rewrites.map (·.gid) then ∅ else
        (w.frames.foldl (GroupWrites.insertFrame (snap.version + 1)) snap.subframeOverrides).getD
          g ∅ := by
    intro g
    rw [hman]
    exact w.newOverrides_getD snap _ g
  -- no group is written both whole and by frames
  have hframe : ∀ x ∈ w.frames, x.gid ∉ w.rewrites.map (·.gid) := by
    intro x hx hmem
    obtain ⟨r, hr, he⟩ := List.mem_map.mp hmem
    exact w.disjoint r hr x hx he
  have hovx : ∀ x ∈ w.frames,
      ((flushPublication snap changeCounter w plans).manifest.overrides x.gid).lookup x.frameIdx =
        some ⟨.overrideFrame x.gid x.frameIdx (snap.version + 1), ⟨0, x.encoded.length⟩⟩ := by
    intro x hx
    rw [hov, if_neg (hframe x hx)]
    exact GroupWrites.foldl_insertFrame_of_mem w.frames_nodup hx
  exact
    { pageSize := by rw [hman]; rfl
      subPagesPerFrame := by rw [hman]; rfl
      groupPages := by rw [hman]; rfl
      indexed := hidx
      groupKey := hgk
      frameTable := fun g hg => by
        rw [hman]
        exact GroupWrites.newFrameTables_getD_of_notMem hg
      frameTable_rewrite := fun r hr => by
        rw [hman]
        exact w.frameTable_rewrite snap hr
      override_kept := fun g f hg hf => by
        rw [hov, if_neg hg]
        exact GroupWrites.foldl_insertFrame_of_notMem hf
      override_frame := hovx
      override_drained := fun g f hg => by
        rw [hov, if_pos hg]
        rfl
      kept := fun s k hs hn => objects_kept hp hw hpub (fun _ _ h => h) hs hn
      uploaded := fun r hr => objects_rewrite hp hw hpub hu hus hr
        (by rw [hgk, if_pos (List.mem_map_of_mem hr)])
      uploaded_frame := fun x hx => objects_frame hp hw hpub hu hus hx
        (by show ((_ : HMap Nat SubframeOverride).lookup _).map _ = _; rw [hovx x hx]; rfl) }

/-- A sync over a snapshot that names nothing the manifest `m` it started from does not name. -/
theorem sync_published {m snap : Manifest} {ppg pendingPageCount changeCounter : Nat}
    {dbHeader : Option Bytes} {w : GroupWrites} (hframes : w.frames = []) {plans : BundlePlans}
    {p : Publication} {b b' : Backend} {gcEnabled : Bool} (hw : WellKeyed m)
    (hsnap : ∀ s k, snap.keyAt s = some k → m.keyAt s = some k) (hp : Publishes m p)
    (hm : p.manifest = (syncPublication snap snap ppg pendingPageCount changeCounter dbHeader w
      plans).manifest)
    (hups : p.uploads = (syncPublication snap snap ppg pendingPageCount changeCounter dbHeader w
      plans).uploads)
    (hpub : b.publish p gcEnabled = .ok b') :
    Published snap p.manifest b b' w (snap.version + 1) := by
  have hu : p.uploads = w.uploads (snap.version + 1) ++
      ((publishBundles (some plans) (snap.version + 1) snap).1.uploads ++
        (publishBundles (some plans) (snap.version + 1) snap).2.uploads) :=
    hups.trans (List.append_assoc ..)
  have hus := onlyBundles_publishBundles (some plans) (snap.version + 1) snap
  have hidx : p.manifest.Indexed := by
    rw [hm]
    exact Manifest.indexed_buildPageIndex _
  obtain ⟨st, idx, hman⟩ : ∃ st idx, p.manifest =
      { syncManifest snap snap ppg pendingPageCount changeCounter dbHeader w plans with
        strategy := st
        pageIndex := idx } := by
    rw [hm]
    exact Manifest.buildPageIndex_eq _
  have hgk : ∀ g, p.manifest.groupKey g =
      if g ∈ w.rewrites.map (·.gid) then some (.pageGroup g (snap.version + 1))
      else snap.groupKey g := by
    intro g
    rw [hman]
    exact w.newKeys_getD snap _ g
  have hov : ∀ g, p.manifest.overrides g =
      if g ∈ w.rewrites.map (·.gid) then ∅ else snap.overrides g := by
    intro g
    rw [hman]
    exact w.drainOverrides_getD snap.subframeOverrides g
  exact
    { pageSize := by rw [hman]; rfl
      subPagesPerFrame := by rw [hman]; rfl
      groupPages := by rw [hman]; rfl
      indexed := hidx
      groupKey := hgk
      frameTable := fun g hg => by
        rw [hman]
        exact GroupWrites.newFrameTables_getD_of_notMem hg
      frameTable_rewrite := fun r hr => by
        rw [hman]
        exact w.frameTable_rewrite snap hr
      override_kept := fun g f hg _ => by rw [hov, if_neg hg]
      override_frame := fun x hx => by rw [hframes] at hx; cases hx
      override_drained := fun g f hg => by
        rw [hov, if_pos hg]
        rfl
      kept := fun s k hs hn => objects_kept hp hw hpub hsnap hs hn
      uploaded := fun r hr => objects_rewrite hp hw hpub hu hus hr
        (by rw [hgk, if_pos (List.mem_map_of_mem hr)])
      uploaded_frame := fun x hx => by rw [hframes] at hx; cases hx }

end Turbolite
