import Turbolite.Checkpoint
import Turbolite.PathBytes

/-!
# Turbolite.Truncation

What a shrink leaves readable. `set_len` and the end of a replay drop the pages from the new end on
and close the gaps in the lists; the objects stay as they were uploaded. A page that is still there
is read from the slot its rank among the survivors names, and after a replay under the group id that
is left when emptied groups are gone. A path that decodes whole objects bounds their frames by the pages
the group still lists. `truncation_keeps_survivors_iff` says, for each path, when these are the same bytes.
-/

namespace Turbolite.ReadPaths

open Blocks Results

namespace Truncation

/-! ### Where the survivors are -/

/-- The slot of a survivor: pages before it that are still there. -/
def slotAfter (m : Manifest) (n : Nat) (loc : PageLocation) : Nat :=
  ((m.groupPageNums loc.groupId).take loc.index).countP (· < n)

/-- The id of a group after a replay: groups before it that still list a page. -/
def groupAfter (m : Manifest) (n gid : Nat) : Nat :=
  (m.groupPages.take gid).countP fun g => g.any (· < n)

theorem getElem?_filterMap {α β : Type} {f : α → Option β} {l : List α} {j : Nat} {x : α} {y : β}
    (h : l[j]? = some x) (hf : f x = some y) :
    (l.filterMap f)[((l.take j).filterMap f).length]? = some y := by
  obtain ⟨hj, rfl⟩ := List.getElem?_eq_some_iff.mp h
  have hsplit : l = l.take j ++ l[j] :: l.drop (j + 1) := by simp
  have hmap : l.filterMap f = (l.take j).filterMap f ++ y :: (l.drop (j + 1)).filterMap f := by
    conv_lhs => rw [hsplit]
    rw [List.filterMap_append, List.filterMap_cons_some hf]
  rw [hmap, List.getElem?_append_right (Nat.le_refl _), Nat.sub_self]
  rfl

theorem getElem?_filter_countP {l : List Nat} {q : Nat → Bool} {j p : Nat} (h : l[j]? = some p)
    (hq : q p = true) : (l.filter q)[(l.take j).countP q]? = some p := by
  have hguard : Option.guard q p = some p := by simp [Option.guard, hq]
  have hmap := getElem?_filterMap h hguard
  rwa [List.filterMap_eq_filter, ← List.countP_eq_length_filter] at hmap

/-- A page is located in the last group that lists it. -/
theorem lookup_pageIndexOf_iff {gps : List (List Nat)} (hnd : ∀ g ∈ gps, g.Nodup) {p : Nat}
    {loc : PageLocation} : (Manifest.pageIndexOf gps).lookup p = some loc ↔
      (gps.getD loc.groupId [])[loc.index]? = some p ∧
        ∀ k, loc.groupId < k → p ∉ gps.getD k [] := by
  induction gps using List.reverseRecOn with
  | nil => simp [Manifest.pageIndexOf, Manifest.slotEntries]
  | append_singleton gps g ih =>
    have hkeys : ((g.zipIdx.map fun q => (q.1, (⟨gps.length, q.2⟩ : PageLocation))).map (·.1)) = g := by
      rw [List.map_map]
      exact List.zipIdx_map_fst ..
    -- the last group is entered last, so its slots win
    have hidx : Manifest.pageIndexOf (gps ++ [g]) =
        (g.zipIdx.map fun q => (q.1, (⟨gps.length, q.2⟩ : PageLocation))).foldl
          (fun idx e => idx.insert e.1 e.2) (Manifest.pageIndexOf gps) := by
      rw [Manifest.pageIndexOf, Manifest.slotEntries_append, List.foldl_append]
      simp [Manifest.pageIndexOf]
    rw [hidx, Manifest.lookup_foldl_insert_iff (by rw [hkeys]; exact hnd g (by simp)), hkeys,
      ih fun g' hg' => hnd g' (by simp [hg'])]
    have hlt : ∀ k < gps.length, (gps ++ [g]).getD k [] = gps.getD k [] := fun k hk => by
      rw [List.getD_eq_getElem?_getD, List.getElem?_append_left hk, List.getD_eq_getElem?_getD]
    have hlast : (gps ++ [g]).getD gps.length [] = g := by simp [List.getD_eq_getElem?_getD]
    have hpast : ∀ k, gps.length ≤ k → gps.getD k [] = [] := fun k hk => by
      rw [List.getD_eq_getElem?_getD, List.getElem?_eq_none hk]
      rfl
    have hpast' : ∀ k, gps.length < k → (gps ++ [g]).getD k [] = [] := fun k hk => by
      rw [List.getD_eq_getElem?_getD, List.getElem?_eq_none (by rw [List.length_append]; exact hk)]
      rfl
    have hmem : (p, loc) ∈ (g.zipIdx.map fun q => (q.1, (⟨gps.length, q.2⟩ : PageLocation))) ↔
        loc.groupId = gps.length ∧ g[loc.index]? = some p := by
      simp only [List.mem_map, List.mem_zipIdx_iff_getElem?, Prod.exists, Prod.mk.injEq]
      constructor
      · rintro ⟨q, j, hj, rfl, rfl⟩
        exact ⟨rfl, hj⟩
      · rintro ⟨hg, hj⟩
        exact ⟨p, loc.index, hj, rfl, by rw [← hg]⟩
    rw [hmem]
    constructor
    · rintro (⟨hg, hj⟩ | ⟨hp, hj, hlater⟩)
      · rw [hg, hlast]
        exact ⟨hj, fun k hk => by rw [hpast' k hk]; exact List.not_mem_nil⟩
      · have hg : loc.groupId < gps.length := by
          by_contra hge
          rw [hpast _ (Nat.le_of_not_lt hge)] at hj
          cases hj
        refine ⟨by rw [hlt _ hg]; exact hj, fun k hk => ?_⟩
        rcases lt_trichotomy k gps.length with hk' | rfl | hk'
        · rw [hlt k hk']
          exact hlater k hk
        · rw [hlast]
          exact hp
        · rw [hpast' k hk']
          exact List.not_mem_nil
    · rintro ⟨hj, hlater⟩
      -- a slot of an earlier group, of the last one, or of none
      rcases lt_trichotomy loc.groupId gps.length with hg | hg | hg
      · right
        rw [hlt _ hg] at hj
        refine ⟨hlast ▸ hlater _ hg, hj, fun k hk => ?_⟩
        rcases Nat.lt_or_ge k gps.length with hk' | hk'
        · exact hlt k hk' ▸ hlater k hk
        · rw [hpast k hk']
          exact List.not_mem_nil
      · rw [hg, hlast] at hj
        exact .inl ⟨hg, hj⟩
      · rw [hpast' _ hg] at hj
        cases hj

/-- Where a page is when the groups become `gps`: in the last of them that lists it. -/
theorem lookup_map_of_moved {gps gps' : List (List Nat)} (hnd : ∀ g ∈ gps, g.Nodup)
    (hnd' : ∀ g ∈ gps', g.Nodup) {f : PageLocation → PageLocation} {p : Nat}
    (hslot : ∀ loc : PageLocation, (gps.getD loc.groupId [])[loc.index]? = some p →
      (gps'.getD (f loc).groupId [])[(f loc).index]? = some p)
    (hlater : ∀ loc : PageLocation, (gps.getD loc.groupId [])[loc.index]? = some p →
      (∀ k, loc.groupId < k → p ∉ gps.getD k []) → ∀ k, (f loc).groupId < k → p ∉ gps'.getD k [])
    (hback : (∃ k, p ∈ gps'.getD k []) → ∃ k, p ∈ gps.getD k []) :
    (Manifest.pageIndexOf gps').lookup p = ((Manifest.pageIndexOf gps).lookup p).map f := by
  cases hl : (Manifest.pageIndexOf gps).lookup p with
  | some loc =>
    obtain ⟨hj, hk⟩ := (lookup_pageIndexOf_iff hnd).mp hl
    exact (lookup_pageIndexOf_iff hnd').mpr ⟨hslot loc hj, hlater loc hj hk⟩
  | none =>
    rw [Option.map_none]
    by_contra hne
    obtain ⟨loc, hloc⟩ := Option.ne_none_iff_exists'.mp hne
    have hj := ((lookup_pageIndexOf_iff hnd').mp hloc).1
    obtain ⟨k, hmem⟩ := hback ⟨_, List.mem_of_getElem? hj⟩
    obtain ⟨i, hi⟩ := List.mem_iff_getElem?.mp hmem
    have hsome := Manifest.pageIndexOf_complete hi
    rw [hl] at hsome
    cases hsome

variable {m : Manifest} {n p : Nat}

theorem getD_map_filter (gps : List (List Nat)) (n k : Nat) :
    (gps.map fun g => g.filter (· < n)).getD k [] = (gps.getD k []).filter (· < n) := by
  simp only [List.getD_eq_getElem?_getD, List.getElem?_map]
  cases gps[k]? <;> rfl

/-- `set_len` to fewer pages. -/
theorem setLen_of_lt (hst : m.strategy = .bTreeAware) (hn : n < m.pageCount) :
    m.setLen n = { m with
      pageCount := n
      groupPages := m.groupPages.map fun g => g.filter (· < n)
      pageIndex := Manifest.pageIndexOf (m.groupPages.map fun g => g.filter (· < n)) } := by
  unfold Manifest.setLen Manifest.setLenFrom
  split
  · rename_i hp
    rw [hst] at hp
    cases hp
  · rw [if_pos hn]
    exact Manifest.buildPageIndex_eq_of_bTreeAware hst

/-- After `set_len`: the same group, the rank among the survivors. -/
theorem pageLocation_setLen (hidx : m.Indexed) (hnd : ∀ g ∈ m.groupPages, g.Nodup)
    (hst : m.strategy = .bTreeAware) (hn : n < m.pageCount) (hp : p < n) :
    (m.setLen n).pageLocation p =
      (m.pageLocation p).map fun loc => ⟨loc.groupId, slotAfter m n loc⟩ := by
  rw [setLen_of_lt hst hn]
  simp only [Manifest.pageLocation, hst, hidx.bTreeAware hst]
  refine lookup_map_of_moved hnd (fun g hg => ?_) (fun loc hj => ?_) (fun loc hj hk k hlt hmem => ?_) ?_
  · obtain ⟨g', hg', rfl⟩ := List.mem_map.mp hg
    exact (hnd g' hg').filter _
  · rw [getD_map_filter, slotAfter, Manifest.groupPageNums_bTreeAware hst]
    exact getElem?_filter_countP hj (decide_eq_true hp)
  · rw [getD_map_filter] at hmem
    exact hk k hlt (List.mem_filter.mp hmem).1
  · rintro ⟨k, hmem⟩
    rw [getD_map_filter] at hmem
    exact ⟨k, (List.mem_filter.mp hmem).1⟩

/-! ### Groups of a replay -/

theorem length_filterMap_keptGroups (gps : List (List Nat)) (n g : Nat) :
    ((gps.zipIdx.take g).filterMap fun x =>
      if x.1.filter (· < n) = [] then none else some (x.2, x.1.filter (· < n))).length =
      (gps.take g).countP fun x => x.any (· < n) := by
  have hfst : gps.take g = (gps.zipIdx.take g).map (·.1) := by
    rw [List.map_take]
    exact congrArg (List.take g) (List.zipIdx_map_fst ..).symm
  rw [List.length_filterMap_eq_countP, hfst, List.countP_map]
  refine List.countP_congr fun x _ => ?_
  by_cases hx : x.1.filter (· < n) = []
  · have hany : x.1.any (· < n) = false := by
      rw [List.any_eq_false]
      exact List.filter_eq_nil_iff.mp hx
    simp [hx, hany]
  · have hany : x.1.any (· < n) = true := by
      rw [List.any_eq_true]
      obtain ⟨q, hq⟩ := List.exists_mem_of_ne_nil _ hx
      exact ⟨q, List.mem_filter.mp hq⟩
    simp only [if_neg hx, Option.isSome_some, Function.comp_apply, hany]

/-- A group that lists a survivor is kept, at its new id. -/
theorem getElem?_keptGroups {g : Nat} {grp : List Nat} (hg : m.groupPages[g]? = some grp)
    (hne : grp.filter (· < n) ≠ []) :
    (m.keptGroups n)[groupAfter m n g]? = some (g, grp.filter (· < n)) := by
  have hz : m.groupPages.zipIdx[g]? = some (grp, g) := by
    rw [List.getElem?_zipIdx, hg]
    simp
  have hmap := getElem?_filterMap hz (f := fun x =>
    if x.1.filter (· < n) = [] then none else some (x.2, x.1.filter (· < n))) (if_neg hne)
  rwa [length_filterMap_keptGroups] at hmap

theorem mem_keptGroups {x : Nat × List Nat} (h : x ∈ m.keptGroups n) :
    x.2 = (m.groupPages.getD x.1 []).filter (· < n) := by
  obtain ⟨⟨grp, k⟩, hmem, heq⟩ := List.mem_filterMap.mp h
  dsimp only at heq
  split at heq
  · cases heq
  · cases heq
    rw [List.getD_eq_getElem?_getD, List.mem_zipIdx_iff_getElem?.mp hmem]
    rfl

/-- Kept groups stay in order. -/
theorem pairwise_keptGroups (m : Manifest) (n : Nat) :
    (m.keptGroups n).Pairwise fun a b => a.1 < b.1 := by
  have hidx : m.groupPages.zipIdx.Pairwise fun a b => a.2 < b.2 := by
    rw [← List.pairwise_map, List.zipIdx_map_snd]
    exact List.pairwise_lt_range'
  refine hidx.filterMap _ fun a b hab x hx y hy => ?_
  dsimp only at hx hy
  split at hx
  · cases hx
  · split at hy
    · cases hy
    · cases hx
      cases hy
      exact hab

/-- `set_replay_page_count` to fewer pages. -/
theorem setReplayPageCount_of_lt (hst : m.strategy = .bTreeAware) (hn : n < m.pageCount) :
    m.setReplayPageCount m.pageCount n = { m with
      pageCount := n
      groupPages := (m.keptGroups n).map (·.2)
      pageGroupKeys := (m.keptGroups n).map fun g => m.groupKey g.1
      frameTables := (m.keptGroups n).map fun g => m.frameTable g.1
      subframeOverrides := (m.keptGroups n).map fun g => m.overrides g.1
      pageIndex := Manifest.pageIndexOf ((m.keptGroups n).map (·.2)) } := by
  unfold Manifest.setReplayPageCount
  split
  · rename_i hp
    rw [hst] at hp
    cases hp
  · rw [if_pos hn.le]
    exact Manifest.buildPageIndex_eq_of_bTreeAware hst

/-- The group of a survivor is kept. -/
theorem kept_of_located {loc : PageLocation} (hp : p < n)
    (hj : (m.groupPages.getD loc.groupId [])[loc.index]? = some p) :
    (m.keptGroups n)[groupAfter m n loc.groupId]? =
      some (loc.groupId, (m.groupPages.getD loc.groupId []).filter (· < n)) := by
  cases hg : m.groupPages[loc.groupId]? with
  | none =>
    rw [List.getD_eq_getElem?_getD, hg] at hj
    cases hj
  | some grp =>
    rw [List.getD_eq_getElem?_getD, hg, Option.getD_some] at hj ⊢
    refine getElem?_keptGroups hg fun hnil => ?_
    have hmem : p ∈ grp.filter (· < n) :=
      List.mem_filter.mpr ⟨List.mem_of_getElem? hj, decide_eq_true hp⟩
    rw [hnil] at hmem
    cases hmem

/-- A page of a kept group is a page of the group it was. -/
theorem mem_getD_keptGroups {k : Nat} (h : p ∈ ((m.keptGroups n).map (·.2)).getD k []) :
    ∃ x, (m.keptGroups n)[k]? = some x ∧ p ∈ m.groupPages.getD x.1 [] := by
  rw [List.getD_eq_getElem?_getD, List.getElem?_map] at h
  cases hx : (m.keptGroups n)[k]? with
  | none =>
    rw [hx] at h
    cases h
  | some x =>
    rw [hx] at h
    have hmem : p ∈ x.2 := h
    rw [mem_keptGroups (List.mem_of_getElem? hx)] at hmem
    exact ⟨x, rfl, (List.mem_filter.mp hmem).1⟩

/-- After a replay: the group's new id, the rank among the survivors. -/
theorem pageLocation_setReplayPageCount (hidx : m.Indexed) (hnd : ∀ g ∈ m.groupPages, g.Nodup)
    (hst : m.strategy = .bTreeAware) (hn : n < m.pageCount) (hp : p < n) :
    (m.setReplayPageCount m.pageCount n).pageLocation p = (m.pageLocation p).map fun loc =>
      ⟨groupAfter m n loc.groupId, slotAfter m n loc⟩ := by
  rw [setReplayPageCount_of_lt hst hn]
  simp only [Manifest.pageLocation, hst, hidx.bTreeAware hst]
  refine lookup_map_of_moved hnd (fun g hg => ?_) (fun loc hj => ?_) (fun loc hj hk k hlt hmem => ?_) ?_
  · obtain ⟨x, hx, rfl⟩ := List.mem_map.mp hg
    rw [mem_keptGroups hx, List.getD_eq_getElem?_getD]
    cases hgrp : m.groupPages[x.1]? with
    | none => exact List.nodup_nil
    | some grp => exact (hnd grp (List.mem_of_getElem? hgrp)).filter _
  · rw [List.getD_eq_getElem?_getD, List.getElem?_map, kept_of_located hp hj, slotAfter,
      Manifest.groupPageNums_bTreeAware hst]
    exact getElem?_filter_countP hj (decide_eq_true hp)
  · -- a later kept group was a later group
    obtain ⟨x, hx, hpx⟩ := mem_getD_keptGroups hmem
    obtain ⟨hk1, he1⟩ := List.getElem?_eq_some_iff.mp (kept_of_located hp hj)
    obtain ⟨hk2, he2⟩ := List.getElem?_eq_some_iff.mp hx
    have hord := List.pairwise_iff_getElem.mp (pairwise_keptGroups m n) _ _ hk1 hk2 hlt
    rw [he1, he2] at hord
    exact hk x.1 hord hpx
  · rintro ⟨k, hmem⟩
    obtain ⟨x, -, hpx⟩ := mem_getD_keptGroups hmem
    exact ⟨x.1, hpx⟩

/-! ### Reading a group under another id -/

variable {m' : Manifest} {cfg : CodecConfig} {b : Backend} {g g' : Nat} {ct : GroupContent}

/-- Group `g'` of the new manifest is group `g` of the old one. -/
structure Moved (m m' : Manifest) (g g' : Nat) : Prop where
  key : m'.groupKey g' = m.groupKey g
  frameTable : m'.frameTable g' = m.frameTable g
  overrides : m'.overrides g' = m.overrides g
  pageSize : m'.pageSize = m.pageSize
  subPagesPerFrame : m'.subPagesPerFrame = m.subPagesPerFrame

theorem Moved.hasFrames (h : Moved m m' g g') : m'.hasFrames g' = m.hasFrames g := by
  simp only [Manifest.hasFrames, h.frameTable, h.subPagesPerFrame]

/-- The id still opens what was sealed under the old one. -/
def SameIdentity (cfg : CodecConfig) (g g' : Nat) : Prop :=
  cfg.encryptionKey = none ∨ aadPageGroup g' = aadPageGroup g

theorem aadOverrideFrame_eq_iff {f : Nat} :
    aadOverrideFrame g' f = aadOverrideFrame g f ↔ aadPageGroup g' = aadPageGroup g := by
  simp only [aadOverrideFrame, aadPageGroup, List.cons.injEq, true_and]
  constructor
  · intro h
    exact List.append_inj_left h (by simp)
  · intro h
    rw [h]

theorem opens_of_identity {aad aad' data raw : Bytes} (h : cfg.Opens aad data raw)
    (haad : cfg.encryptionKey = none ∨ aad' = aad) : cfg.Opens aad' data raw := by
  rcases haad with hkey | rfl
  · simp only [CodecConfig.Opens, CodecConfig.decryptIfNeeded, hkey] at h ⊢
    exact h
  · exact h

/-- A sealed frame does not open under another identity. -/
theorem openFrame_other (hbind : cfg.BindsAad) {aad aad' data raw : Bytes}
    (h : cfg.Opens aad data raw) (haad : ¬ (cfg.encryptionKey = none ∨ aad' = aad))
    (dict : Option Bytes) (cap : Nat) : ∃ e, cfg.openFrame dict aad' data cap = .error e := by
  obtain ⟨hkey, hne⟩ := not_or.mp haad
  obtain ⟨key, hk⟩ := Option.ne_none_iff_exists'.mp hkey
  obtain ⟨plain, hd, -⟩ := h
  simp only [CodecConfig.decryptIfNeeded, hk] at hd
  cases hx : cfg.codecs.decrypt key aad data with
  | none => rw [hx] at hd; cases hd
  | some x =>
    cases hy : cfg.codecs.decrypt key aad' data with
    | some y => exact absurd (hbind key hk aad' aad data y x hy hx) hne
    | none =>
      refine ⟨.io .invalidData "GCM decryption failed", ?_⟩
      simp only [CodecConfig.openFrame, CodecConfig.decryptIfNeeded, hk, hy, error_bind]

theorem holdsGroup_moved (h : HoldsGroup cfg m b g ct) (hm : Moved m m' g g')
    (hid : SameIdentity cfg g g') : HoldsGroup cfg m' b g' ct := by
  obtain ⟨⟨key, data, hk, hd, hs, hl⟩, hsize, hover⟩ := h
  refine ⟨⟨key, data, hm.key.trans hk, hd, fun hf => ?_, fun hf => ?_⟩, ?_, fun f => ?_⟩
  · have hseek := hs (hm.hasFrames ▸ hf)
    rw [hm.frameTable, hm.pageSize, hm.subPagesPerFrame]
    refine ⟨hseek.uniform, hseek.length, fun f e he => ?_⟩
    obtain ⟨hle, hop⟩ := hseek.frame f e he
    exact ⟨hle, opens_of_identity hop hid⟩
  · have hleg := hl (hm.hasFrames ▸ hf)
    rw [hm.pageSize]
    exact ⟨hleg.uniform, hleg.length_lt, hleg.pageSize_lt, opens_of_identity hleg.opens hid⟩
  · rw [hm.pageSize]
    exact hsize
  · have ho := hover f
    rw [hm.overrides]
    cases hl : (m.overrides g).lookup f with
    | none =>
      rw [hl] at ho
      exact ho
    | some ovr =>
      rw [hl] at ho
      obtain ⟨od, os, hod, hos, hho, hsz⟩ := ho
      refine ⟨od, os, hod, hos, ?_, ?_⟩
      · rw [hm.pageSize]
        exact ⟨hho.uniform, opens_of_identity hho.opens (hid.imp id aadOverrideFrame_eq_iff.mpr)⟩
      · rw [hm.pageSize]
        exact hsz

/-- Under another identity the frame path opens none of the group's objects. -/
theorem coldRead_other (hbind : cfg.BindsAad) (h : HoldsGroup cfg m b g ct) (hm : Moved m m' g g')
    (hid : ¬ SameIdentity cfg g g') {j : Nat} (hpc : p < m'.pageCount)
    (hloc : m'.pageLocation p = some ⟨g', j⟩)
    (hbase : m.hasFrames g = true → j / m.subPagesPerFrame * m.subPagesPerFrame < ct.base.length)
    (v : Bytes) : coldRead cfg m' b p ≠ .ok v := by
  obtain ⟨⟨key, data, hk, hd, hs, hl⟩, -, hover⟩ := h
  have hfull : m.hasFrames g = false → fullGroupRead cfg m' b g' p ≠ .ok v := by
    intro hf hr
    obtain ⟨e, he⟩ := openFrame_other hbind (hl hf).opens hid cfg.dictionary maxTieredDecompressedBytes
    obtain ⟨ws, hws, -⟩ := bind_eq_ok.mp hr
    simp only [fullGroupInstall, hm.key, hk, Option.bind_some, Backend.getPageGroup, hd, decodeBase,
      hm.hasFrames, hf, Bool.false_eq_true, if_false, CodecConfig.decodePageGroupBulk, he,
      error_bind] at hws
    cases hws
  intro hr
  simp only [coldRead, if_neg (Nat.not_le.mpr hpc), hloc, hm.hasFrames] at hr
  cases hf : m.hasFrames g with
  | false =>
    simp only [hf, Bool.false_eq_true, if_false] at hr
    exact hfull hf hr
  | true =>
    simp only [hf, if_true] at hr
    obtain ⟨r, hrange, -⟩ := bind_eq_ok.mp hr
    obtain ⟨hspf, -⟩ := hasFrames_iff.mp hf
    have hseek := hs hf
    have hframe : j / m.subPagesPerFrame < (m.frameTable g).length := by
      rw [hseek.length, lt_divCeil_iff hspf]
      exact hbase hf
    have hentry := List.getElem?_eq_getElem hframe
    simp only [rangeRead, hm.frameTable, hm.subPagesPerFrame, hentry] at hrange
    obtain ⟨fetched, hfetch, hopen⟩ := bind_eq_ok.mp hrange
    have ho := hover (j / m.subPagesPerFrame)
    simp only [fetchFrame, hm.overrides] at hfetch
    cases hlk : (m.overrides g).lookup (j / m.subPagesPerFrame) with
    | some ovr =>
      rw [hlk] at ho
      obtain ⟨od, os, hod, -, hho, -⟩ := ho
      obtain ⟨e, he⟩ := openFrame_other hbind hho.opens
        (fun hor => hid (hor.imp id aadOverrideFrame_eq_iff.mp)) cfg.dictionary maxTieredDecompressedBytes
      simp only [hlk, Backend.getPageGroup, hod] at hfetch
      cases hfetch
      simp only [CodecConfig.decodeSeekableSubchunk, he, error_bind] at hopen
      cases hopen
    | none =>
      obtain ⟨hle, hop⟩ := hseek.frame _ _ hentry
      obtain ⟨e, he⟩ := openFrame_other hbind hop hid cfg.dictionary maxTieredDecompressedBytes
      have hrange := Backend.rangeGet_eq hd hle
      simp only [hlk, Manifest.getElem?_pageGroupKeys (hm.key.trans hk), hrange, ok_bind,
        Option.map_some] at hfetch
      cases hfetch
      simp only [CodecConfig.decodeSeekableSubchunk, he, error_bind] at hopen
      cases hopen

/-- Nor do they decode as a whole. -/
theorem decodeBase_other (hbind : cfg.BindsAad) (h : HoldsGroup cfg m b g ct) (hm : Moved m m' g g')
    (hid : ¬ SameIdentity cfg g g') {data : Bytes}
    (hdata : (m'.groupKey g').bind b.getPageGroup = some data) :
    ∃ e, decodeBase cfg m' g' data = .error e := by
  obtain ⟨⟨key, obj, hk, hd, hs, hl⟩, -, -⟩ := h
  simp only [hm.key, hk, Option.bind_some, Backend.getPageGroup, hd, Option.some.injEq] at hdata
  subst hdata
  cases hdec : decodeBase cfg m' g' obj with
  | error e => exact ⟨e, rfl⟩
  | ok out =>
    unfold decodeBase at hdec
    rw [hm.hasFrames] at hdec
    cases hf : m.hasFrames g with
    | false =>
      obtain ⟨e, he⟩ := openFrame_other hbind (hl hf).opens hid cfg.dictionary maxTieredDecompressedBytes
      simp only [hf, Bool.false_eq_true, if_false, CodecConfig.decodePageGroupBulk, he,
        error_bind] at hdec
      cases hdec
    | true =>
      -- the first frame does not open
      obtain ⟨entry, hentry⟩ := List.exists_mem_of_ne_nil _ (hasFrames_iff.mp hf).2
      obtain ⟨f, hframe⟩ := List.mem_iff_getElem?.mp hentry
      obtain ⟨hle, hop⟩ := (hs hf).frame f entry hframe
      simp only [hf, if_true, CodecConfig.decodePageGroupSeekableFull, hm.frameTable] at hdec
      obtain ⟨frames, hframes, -⟩ := bind_eq_ok.mp hdec
      obtain ⟨raw, -, hraw⟩ := ok_of_mapM hframes hentry
      unfold CodecConfig.openEntry at hraw
      rw [if_neg (Nat.not_lt.mpr hle)] at hraw
      obtain ⟨e, he⟩ := openFrame_other hbind hop hid cfg.dictionary
        (CodecConfig.frameCap m'.pageSize (min (m'.groupPageNums g').length m'.pageCount))
      rw [he] at hraw
      cases hraw

/-! ### A page that moved -/

section

variable {cts : Nat → GroupContent} {loc loc' : PageLocation} {v : Bytes}

theorem slotAfter_le (m : Manifest) (n : Nat) (loc : PageLocation) : slotAfter m n loc ≤ loc.index :=
  List.countP_le_length.trans (List.length_take_le _ _)

/-- What a path delivers depends on the format, the frames and the contents. -/
theorem delivers_moved (hm : Moved m m' g g') (len count : Nat) (j : Nat) (path : Path) :
    Delivers m' g' len count ct j v path ↔ Delivers m g len count ct j v path := by
  have hwhole : wholePages m' g' len count ct = wholePages m g len count ct := by
    simp only [wholePages, hm.hasFrames]
  have hfits : WholeFits m' g' len count ct ↔ WholeFits m g len count ct := by
    simp only [WholeFits, hm.hasFrames, hm.subPagesPerFrame, hm.pageSize]
  have hcover : coveringFrames m' len ct = coveringFrames m len ct := by
    funext f
    simp only [coveringFrames, hm.subPagesPerFrame]
  have hover : ∀ f os total, OverrideFits m' len f os total ↔ OverrideFits m len f os total := by
    intro f os total
    constructor
    · intro hf
      exact ⟨hm.subPagesPerFrame ▸ hf.start, hm.subPagesPerFrame ▸ hf.covers,
        hm.subPagesPerFrame ▸ hf.inside⟩
    · intro hf
      exact ⟨hm.subPagesPerFrame.symm ▸ hf.start, hm.subPagesPerFrame.symm ▸ hf.covers,
        hm.subPagesPerFrame.symm ▸ hf.inside⟩
  cases path with
  | frames =>
    simp only [Delivers, hm.hasFrames]
    split
    · rename_i hf
      simp only [slotBytes, hm.hasFrames, hm.subPagesPerFrame, zeroPage, hm.pageSize, hf, if_true]
    · rfl
  | scan => simp only [Delivers, hwhole, hfits]
  | localGroups => simp only [Delivers, hwhole, hfits, hcover, hm.subPagesPerFrame]
  | prefetch => simp only [Delivers, hwhole, hfits, hover, hm.subPagesPerFrame]

/-- A page whose group moved from `g` to `g'` and whose slot is now the earlier `j'`. -/
theorem read_moved (hc : cfg.codecs.Lawful) (hbind : cfg.BindsAad) (h : Stored cfg m b cts)
    (hpc : p < m.pageCount) (hloc : m.pageLocation p = some loc) (hpc' : p < m'.pageCount)
    (hloc' : m'.pageLocation p = some loc') (hslot : (m'.groupPageNums loc'.groupId)[loc'.index]? = some p)
    (hnd : (m'.groupPageNums loc'.groupId).Nodup) (hle : loc'.index ≤ loc.index)
    (hm : Moved m m' loc.groupId loc'.groupId) {path : Path}
    (hbefore : path.read cfg m b p = .ok v) :
    path.read cfg m' b p = .ok v ↔ SameIdentity cfg loc.groupId loc'.groupId ∧
      Delivers m loc.groupId (m'.groupPageNums loc'.groupId).length m'.pageCount (cts loc.groupId)
        loc'.index v path := by
  obtain ⟨hg, hdelivers⟩ := h.slot_of_read hc hpc hloc hbefore
  have hfmt : m'.subPagesPerFrame = 0 → m'.frameTable loc'.groupId = [] := by
    rw [hm.subPagesPerFrame, hm.frameTable]
    exact (h.legacy · loc.groupId)
  by_cases hid : SameIdentity cfg loc.groupId loc'.groupId
  · rw [(holdsGroup_moved hg hm hid).read_iff (hm.pageSize ▸ h.pageSize_pos) hfmt hnd hpc' hloc' hslot
      path, delivers_moved hm]
    exact ⟨fun hv => ⟨hid, hv⟩, fun hv => hv.2⟩
  · refine iff_of_false ?_ fun hv => hid hv.1
    have hwhole : ∀ path : Path, path ≠ .frames → path.read cfg m' b p ≠ .ok v := fun path hne =>
      read_undecoded hfmt hpc' hloc' (fun _ hdata => decodeBase_other hbind hg hm hid hdata) path
        (fun heq => absurd heq hne) v
    cases path with
    | frames =>
      refine coldRead_other hbind hg hm hid hpc' hloc' (fun hf => ?_) v
      simp only [Delivers, hf, if_true, slotBytes] at hdelivers
      split at hdelivers
      · rename_i hlt
        exact lt_of_le_of_lt (Nat.mul_le_mul_right _ (Nat.div_le_div_right hle)) hlt
      · cases hdelivers
    | scan => exact hwhole .scan (fun heq => by cases heq)
    | localGroups => exact hwhole .localGroups (fun heq => by cases heq)
    | prefetch => exact hwhole .prefetch (fun heq => by cases heq)

/-- What the path makes of the slot a page ends up in, in a group that lists the survivors only, is what
the page was read as. -/
def SlotKeeps (path : Path) (m : Manifest) (cts : Nat → GroupContent) (n : Nat) (loc : PageLocation)
    (v : Bytes) : Prop :=
  Delivers m loc.groupId ((m.groupPageNums loc.groupId).filter (· < n)).length n (cts loc.groupId)
    (slotAfter m n loc) v path

theorem read_unlocated (hpc : p < m.pageCount) (hloc : m.pageLocation p = none) (path : Path) :
    path.read cfg m b p = .ok (zeroPage m) := by
  cases path with
  | frames => simp only [Path.read, coldRead, if_neg (Nat.not_le.mpr hpc), hloc]
  | scan => simp only [Path.read, scanRead, if_neg (Nat.not_le.mpr hpc), hloc]
  | localGroups => simp only [Path.read, localRead, if_neg (Nat.not_le.mpr hpc), hloc]
  | prefetch => simp only [Path.read, prefetchRead, if_neg (Nat.not_le.mpr hpc), hloc]

theorem getD_kept_filter (hp : p < n) (hst : m.strategy = .bTreeAware)
    (hj : (m.groupPages.getD loc.groupId [])[loc.index]? = some p) :
    ((m.keptGroups n).map (·.2)).getD (groupAfter m n loc.groupId) [] =
      (m.groupPageNums loc.groupId).filter (· < n) := by
  rw [List.getD_eq_getElem?_getD, List.getElem?_map, kept_of_located hp hj,
    Manifest.groupPageNums_bTreeAware hst]
  rfl

/-- One page after `set_len`. -/
theorem read_setLen (hc : cfg.codecs.Lawful) (hbind : cfg.BindsAad) (h : Stored cfg m b cts)
    (hst : m.strategy = .bTreeAware) (hn : n < m.pageCount) (hp : p < n)
    {path : Path} (hbefore : path.read cfg m b p = .ok v) :
    path.read cfg (m.setLen n) b p = .ok v ↔
      ∀ loc, m.pageLocation p = some loc → SlotKeeps path m cts n loc v := by
  have hmap := pageLocation_setLen h.indexed h.nodup hst hn hp
  have hpc : p < m.pageCount := hp.trans hn
  have hnew := setLen_of_lt hst hn
  have hpc' : p < (m.setLen n).pageCount := by rw [hnew]; exact hp
  cases hloc : m.pageLocation p with
  | none =>
    rw [hloc] at hmap
    rw [read_unlocated hpc hloc path] at hbefore
    have hzero : zeroPage (m.setLen n) = zeroPage m := by rw [hnew]; rfl
    rw [read_unlocated hpc' hmap path, hzero]
    exact ⟨(fun _ loc hl => by cases hl), fun _ => hbefore⟩
  | some loc =>
    rw [hloc, Option.map_some] at hmap
    have hgroup : (m.setLen n).groupPageNums loc.groupId =
        (m.groupPageNums loc.groupId).filter (· < n) := by
      rw [Manifest.groupPageNums_bTreeAware hst, ← getD_map_filter, hnew]
      simp only [Manifest.groupPageNums, hst]
    have hslot := getElem?_filter_countP (q := (· < n)) (h.indexed.located hloc) (decide_eq_true hp)
    have hcount : (m.setLen n).pageCount = n := by rw [hnew]
    rw [read_moved hc hbind h hpc hloc hpc' hmap (by rw [hgroup]; exact hslot)
      (by rw [hgroup]; exact (Manifest.nodup_groupPageNums h.nodup _).filter _) (slotAfter_le m n loc)
      (by rw [hnew]; exact ⟨rfl, rfl, rfl, rfl, rfl⟩) hbefore]
    dsimp only
    rw [hgroup, hcount]
    constructor
    · rintro ⟨-, hv⟩ loc' hl
      cases hl
      exact hv
    · intro hv
      exact ⟨.inr rfl, hv loc rfl⟩

theorem postManifest_of_lt {r : Replay} (hr : r.newPageCount m = n) (hn : n < m.pageCount) :
    ∃ hd v cc, r.postManifest m = { m.setReplayPageCount m.pageCount n with
      dbHeader := hd, version := v, changeCounter := cc } := by
  have hgrown : (if n ≠ m.pageCount then m.setReplayPageCount m.pageCount n else m) =
      m.setReplayPageCount m.pageCount n := if_pos hn.ne
  unfold Replay.postManifest
  dsimp only
  rw [hr, hgrown]
  exact ⟨_, _, _, rfl⟩

/-- One page after a replay. -/
theorem read_postManifest (hc : cfg.codecs.Lawful) (hbind : cfg.BindsAad)
    (h : Stored cfg m b cts) (hst : m.strategy = .bTreeAware) {r : Replay}
    (hr : r.newPageCount m = n) (hn : n < m.pageCount) (hp : p < n)
    {path : Path} (hbefore : path.read cfg m b p = .ok v) :
    path.read cfg (r.postManifest m) b p = .ok v ↔
      ∀ loc, m.pageLocation p = some loc →
        SameIdentity cfg loc.groupId (groupAfter m n loc.groupId) ∧ SlotKeeps path m cts n loc v := by
  have hmap := pageLocation_setReplayPageCount h.indexed h.nodup hst hn hp
  have hpc : p < m.pageCount := hp.trans hn
  obtain ⟨hd, v', cc, hpost⟩ := postManifest_of_lt hr hn
  have hnew := setReplayPageCount_of_lt hst hn
  have hpc' : p < (r.postManifest m).pageCount := by rw [hpost, hnew]; exact hp
  have hmap' : (r.postManifest m).pageLocation p =
      (m.setReplayPageCount m.pageCount n).pageLocation p := by rw [hpost]; rfl
  rw [hmap] at hmap'
  cases hloc : m.pageLocation p with
  | none =>
    rw [hloc] at hmap'
    rw [read_unlocated hpc hloc path] at hbefore
    have hzero : zeroPage (r.postManifest m) = zeroPage m := by rw [hpost, hnew]; rfl
    rw [read_unlocated hpc' hmap' path, hzero]
    exact ⟨(fun _ loc hl => by cases hl), fun _ => hbefore⟩
  | some loc =>
    rw [hloc, Option.map_some] at hmap'
    have hj := h.indexed.located hloc
    rw [Manifest.groupPageNums_bTreeAware hst] at hj
    have hkept := kept_of_located hp hj
    have hgroup : (r.postManifest m).groupPageNums (groupAfter m n loc.groupId) =
        (m.groupPageNums loc.groupId).filter (· < n) := by
      rw [← getD_kept_filter hp hst hj, hpost, hnew]
      simp only [Manifest.groupPageNums, hst]
    have hmoved : Moved m (r.postManifest m) loc.groupId (groupAfter m n loc.groupId) := by
      rw [hpost, hnew]
      refine ⟨?_, ?_, ?_, rfl, rfl⟩
      · simp only [Manifest.groupKey, List.getD_eq_getElem?_getD, List.getElem?_map, hkept]
        rfl
      · simp only [Manifest.frameTable, List.getD_eq_getElem?_getD, List.getElem?_map, hkept]
        rfl
      · simp only [Manifest.overrides, List.getD_eq_getElem?_getD, List.getElem?_map, hkept]
        rfl
    have hslot := getElem?_filter_countP (q := (· < n)) (h.indexed.located hloc) (decide_eq_true hp)
    have hcount : (r.postManifest m).pageCount = n := by rw [hpost, hnew]
    rw [read_moved hc hbind h hpc hloc hpc' hmap' (by rw [hgroup]; exact hslot)
      (by rw [hgroup]; exact (Manifest.nodup_groupPageNums h.nodup _).filter _) (slotAfter_le m n loc)
      hmoved hbefore]
    dsimp only
    rw [hgroup, hcount]
    constructor
    · intro hv loc' hl
      cases hl
      exact hv
    · intro hv
      exact hv loc rfl

end

end Truncation

open Truncation in
/-- Pages that survive a shrink and are not cached are read as before, on each path, exactly when each of
them moves to a slot that the path reads as the same bytes, in a group that lists the survivors only; a
replay must also leave the id of an encrypted group alone. -/
theorem truncation_keeps_survivors_iff {cfg : CodecConfig} {m : Manifest} {b : Backend}
    {cts : Nat → GroupContent} (hc : cfg.codecs.Lawful) (hbind : cfg.BindsAad)
    (h : Stored cfg m b cts) (hst : m.strategy = .bTreeAware) {n : Nat} (hn : n < m.pageCount)
    (path : Path) (cached : Nat → Prop) :
    ((∀ p < n, ¬ cached p → ∀ v, path.read cfg m b p = .ok v →
        path.read cfg (m.setLen n) b p = .ok v) ↔
      ∀ p < n, ¬ cached p → ∀ v, path.read cfg m b p = .ok v →
        ∀ loc, m.pageLocation p = some loc → SlotKeeps path m cts n loc v) ∧
    ∀ r : Replay, r.newPageCount m = n →
      ((∀ p < n, ¬ cached p → ∀ v, path.read cfg m b p = .ok v →
          path.read cfg (r.postManifest m) b p = .ok v) ↔
        ∀ p < n, ¬ cached p → ∀ v, path.read cfg m b p = .ok v →
          ∀ loc, m.pageLocation p = some loc →
            SameIdentity cfg loc.groupId (groupAfter m n loc.groupId) ∧
              SlotKeeps path m cts n loc v) := by
  refine ⟨?_, fun r hr => ?_⟩
  · exact forall₅_congr fun p hp _ v hv => read_setLen hc hbind h hst hn hp hv
  · exact forall₅_congr fun p hp _ v hv => read_postManifest hc hbind h hst hr hn hp hv

namespace Example

/-- A replay that ends with one page. -/
def shrink : Replay := ⟨some 1, 1, none, none⟩

/-- The same objects, listed the other way round. -/
def reversed : Manifest := { manifest with
  groupPages := [[1, 0]]
  pageIndex := Manifest.pageIndexOf [[1, 0]] }

theorem stored_reversed (x : UInt8) : Stored .plain reversed (backend x) (content x) where
  toStoredObjects := (stored x).toStoredObjects.of_layout 2 [[1, 0]] (Manifest.pageIndexOf [[1, 0]])
  indexed := ⟨fun h => absurd h (by decide), fun _ _ => rfl⟩
  nodup := by decide

/-- Both pages in one frame. -/
def pair : Bytes × List FrameEntry :=
  CodecConfig.plain.encodePageGroupSeekable (aadPageGroup 0) 512 2 [some (page 1), some (page 2)]

/-- A database of two pages a frame, without overrides. -/
def paired : Manifest := { manifest with
  frameTables := [pair.2]
  subPagesPerFrame := 2
  subframeOverrides := [] }

/-- A store with the group of both pages. -/
def pairedBackend : Backend where
  objects := fun
    | .pageGroup 0 1 => some pair.1
    | _ => none

/-- The two pages as they are decoded. -/
def pairedContent : Nat → GroupContent := fun _ =>
  { base := [some (page 1), some (page 2)].map (CodecConfig.padPage 512), overFrames := fun _ => none }

theorem stored_paired : Stored .plain paired pairedBackend pairedContent where
  pageSize_pos := by decide
  pageSize_lt := by decide
  legacy h := absurd h (by decide)
  unkeyed gid h := by
    cases gid with
    | zero => exact absurd (show some _ = none from h) (by simp)
    | succ g => rfl
  holds gid h := by
    cases gid with
    | zero =>
      refine .inl ⟨⟨.pageGroup 0 1, pair.1, rfl, rfl, fun _ => ?_, fun hf => absurd hf (by decide)⟩,
        show 8 + 2 * 512 ≤ 2 ^ 30 by decide, fun f => rfl⟩
      refine CodecConfig.encodePageGroupSeekable_holds Codecs.plain_lawful _ fun data hd => ?_
      simp only [List.mem_cons, Option.some.injEq, List.not_mem_nil, or_false] at hd
      rcases hd with rfl | rfl <;> exact (length_page _).le
    | succ g => exact absurd (show (none : Option ObjectKey).isSome = true from h) (by simp)
  indexed := ⟨fun h => absurd h (by decide), fun _ _ => rfl⟩
  nodup := by decide

/-- The worker delivers page 0 where only it is left. -/
theorem first_page_kept : Truncation.SlotKeeps .prefetch manifest (content 3) 1 ⟨0, 0⟩ (page 1) := by
  refine ⟨fun _ => by decide, fun _ f os hos => ?_, by decide +kernel⟩
  have hf : f = 1 := by
    by_contra hne
    simp [content, hne] at hos
  subst hf
  obtain rfl := Option.some.inj hos
  exact ⟨by decide, by decide, by decide⟩

end Example

/-- The last page is cut off: the prefetch worker finds page 0 where it was. -/
theorem truncation_keeps_first_page :
    Path.prefetch.read .plain Example.manifest (Example.backend 3) 0 = .ok (Example.page 1) ∧
    Path.prefetch.read .plain (Example.manifest.setLen 1) (Example.backend 3) 0 =
      .ok (Example.page 1) ∧
    Path.prefetch.read .plain (Example.shrink.postManifest Example.manifest) (Example.backend 3) 0 =
      .ok (Example.page 1) := by
  have hread : Path.prefetch.read .plain Example.manifest (Example.backend 3) 0 =
      .ok (Example.page 1) := by
    decide +kernel
  have hbind : CodecConfig.plain.BindsAad := fun key hk => by cases hk
  have hiff := truncation_keeps_survivors_iff Codecs.plain_lawful hbind (Example.stored 3) rfl
    (show 1 < Example.manifest.pageCount by decide) .prefetch fun _ => False
  have hkeeps : ∀ p < 1, ¬ False → ∀ v,
      Path.prefetch.read .plain Example.manifest (Example.backend 3) p = .ok v →
        ∀ loc, Example.manifest.pageLocation p = some loc →
          Truncation.SlotKeeps .prefetch Example.manifest (Example.content 3) 1 loc v := by
    intro p hp _ v hv loc hloc
    obtain rfl : p = 0 := by omega
    obtain rfl : loc = ⟨0, 0⟩ := (Option.some.inj hloc).symm
    rw [hread] at hv
    cases hv
    exact Example.first_page_kept
  refine ⟨hread, hiff.1.mpr hkeeps 0 (by decide) id _ hread,
    (hiff.2 Example.shrink rfl).mpr (fun p hp hc v hv loc hloc => ⟨.inl rfl, ?_⟩) 0 (by decide) id _ hread⟩
  exact hkeeps p hp hc v hv loc hloc

/-- The first listed page is cut off: page 0 moves to its slot and is read as the page that was
there. And where a frame holds both pages of a group and the last is cut off, the frame is larger than what
the group still lists, and a planned scan fails. -/
theorem truncation_shifts_page :
    (Stored .plain Example.reversed (Example.backend 3) (Example.content 3) ∧
      coldRead .plain Example.reversed (Example.backend 3) 0 = .ok (Example.page 3) ∧
      coldRead .plain (Example.reversed.setLen 1) (Example.backend 3) 0 = .ok (Example.page 1) ∧
      coldRead .plain (Example.shrink.postManifest Example.reversed) (Example.backend 3) 0 =
        .ok (Example.page 1) ∧ Example.page 3 ≠ Example.page 1) ∧
    Stored .plain Example.paired Example.pairedBackend Example.pairedContent ∧
      scanRead .plain Example.paired Example.pairedBackend 0 = .ok (Example.page 1) ∧
      (scanRead .plain (Example.paired.setLen 1) Example.pairedBackend 0).isOk = false ∧
      (scanRead .plain (Example.shrink.postManifest Example.paired) Example.pairedBackend 0).isOk =
        false :=
  ⟨⟨Example.stored_reversed 3, by decide +kernel, by decide +kernel, by decide +kernel, by decide⟩,
    Example.stored_paired, by decide +kernel, by decide +kernel, by decide +kernel⟩

end Turbolite.ReadPaths
