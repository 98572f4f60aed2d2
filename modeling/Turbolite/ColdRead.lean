import Turbolite.Publish
import Turbolite.ReadAgreement

/-!
# Turbolite.ColdRead

What a read with an empty cache returns, exactly. `Stored` says that a manifest is indexed the way
`build_page_index` leaves it and that every object it names is in the backend and holds known pages;
then `read_exact_at` succeeds with precisely the bytes `coldBytes` computes from the pages, and fails
when there are none.
-/

namespace Turbolite

open Blocks Results

namespace Manifest

/-- The reverse index is what `build_page_index` makes of the groups. -/
structure Indexed (m : Manifest) : Prop where
  positional : m.strategy = .positional → m.groupPages = []
  bTreeAware : m.strategy = .bTreeAware → ∀ p, m.pageIndex.lookup p = (pageIndexOf m.groupPages).lookup p

theorem indexed_buildPageIndex (m : Manifest) : m.buildPageIndex.Indexed := by
  unfold buildPageIndex
  dsimp only
  split
  · rename_i hst
    refine ⟨fun _ => ?_, fun h => by cases h⟩
    by_contra hne
    rw [if_pos hne] at hst
    cases hst
  · exact ⟨(fun h => by cases h), fun _ _ => rfl⟩

/-- The index only depends on the layout fields. -/
theorem buildPageIndex_layout (m m' : Manifest) (hst : m.strategy = m'.strategy)
    (hg : m.groupPages = m'.groupPages) (hn : m.pageCount = m'.pageCount)
    (hppg : m.pagesPerGroup = m'.pagesPerGroup) :
    (∀ p, m.buildPageIndex.pageLocation p = m'.buildPageIndex.pageLocation p) ∧
      ∀ gid, m.buildPageIndex.groupPageNums gid = m'.buildPageIndex.groupPageNums gid := by
  simp only [buildPageIndex, hst, hg]
  cases (if m'.groupPages ≠ [] then GroupingStrategy.bTreeAware else m'.strategy) with
  | positional => simp [pageLocation, groupPageNums, hn, hppg]
  | bTreeAware => simp [pageLocation, groupPageNums]

theorem groupPageNums_positional {m : Manifest} (h : m.strategy = .positional) (gid : Nat) :
    m.groupPageNums gid = List.range' (gid * m.pagesPerGroup)
      (min (gid * m.pagesPerGroup + m.pagesPerGroup) m.pageCount - gid * m.pagesPerGroup) := by
  simp only [groupPageNums, h]

theorem groupPageNums_bTreeAware {m : Manifest} (h : m.strategy = .bTreeAware) (gid : Nat) :
    m.groupPageNums gid = m.groupPages.getD gid [] := by
  simp only [groupPageNums, h]

/-- A location is a slot that holds the page. -/
theorem Indexed.located {m : Manifest} (h : m.Indexed) {p gid i : Nat}
    (hloc : m.pageLocation p = some ⟨gid, i⟩) : (m.groupPageNums gid)[i]? = some p := by
  unfold pageLocation at hloc
  cases hst : m.strategy with
  | positional =>
    simp only [hst] at hloc
    split at hloc
    · cases hloc
    · rename_i hp
      cases hloc
      have hdm := Nat.div_add_mod' p m.pagesPerGroup
      have hlt := Nat.mod_lt p (show 0 < m.pagesPerGroup by omega)
      rw [groupPageNums_positional hst, List.getElem?_range' (by omega)]
      simp [hdm]
  | bTreeAware =>
    simp only [hst, h.bTreeAware hst] at hloc
    rw [groupPageNums_bTreeAware hst]
    exact pageIndexOf_sound hloc

/-- Every page a group lists has a location. -/
theorem Indexed.isSome_pageLocation {m : Manifest} (h : m.Indexed) (hst : m.strategy = .bTreeAware)
    {g : List Nat} (hg : g ∈ m.groupPages) {p : Nat} (hp : p ∈ g) : (m.pageLocation p).isSome := by
  obtain ⟨gid, hgid⟩ := List.mem_iff_getElem?.mp hg
  obtain ⟨i, hi⟩ := List.mem_iff_getElem?.mp hp
  simp only [pageLocation, hst, h.bTreeAware hst]
  exact pageIndexOf_complete (by rw [List.getD_eq_getElem?_getD, hgid]; exact hi)

/-- An indexed manifest is laid out as `build_page_index` would lay it out. -/
theorem Indexed.layout {m : Manifest} (h : m.Indexed) :
    (∀ p, m.buildPageIndex.pageLocation p = m.pageLocation p) ∧
      ∀ gid, m.buildPageIndex.groupPageNums gid = m.groupPageNums gid := by
  cases hst : m.strategy with
  | positional =>
    simp [buildPageIndex, h.positional hst, hst, pageLocation, groupPageNums]
  | bTreeAware =>
    simp [buildPageIndex, hst, pageLocation, groupPageNums, h.bTreeAware hst]

theorem nodup_groupPageNums {m : Manifest} (h : ∀ g ∈ m.groupPages, g.Nodup) (gid : Nat) :
    (m.groupPageNums gid).Nodup := by
  cases hst : m.strategy with
  | positional =>
    rw [groupPageNums_positional hst]
    exact List.nodup_range'
  | bTreeAware =>
    rw [groupPageNums_bTreeAware hst, List.getD_eq_getElem?_getD]
    cases hg : m.groupPages[gid]? with
    | none => exact List.nodup_nil
    | some g => exact h g (List.mem_of_getElem? hg)

/-- Distinct pages below the end are no more than the page count. -/
theorem length_le_of_forall_lt {ns : List Nat} (hnd : ns.Nodup) {n : Nat} (h : ∀ p ∈ ns, p < n) :
    ns.length ≤ n := by
  have hsub : ns ⊆ List.range n := fun p hp => List.mem_range.mpr (h p hp)
  have hle := (List.subperm_of_subset hnd hsub).length_le
  rwa [List.length_range] at hle

end Manifest

namespace ReadPaths

/-! ### The bytes of a slot -/

/-- What a cold read makes of slot `i` of a group that holds `ct`; `none` when it fails. A frame that
ends early reads as zeros, a group that lists more pages than its legacy object fails as a whole. -/
def slotBytes (m : Manifest) (gid : Nat) (ct : GroupContent) (i : Nat) : Option Bytes :=
  if m.hasFrames gid then
    if i / m.subPagesPerFrame * m.subPagesPerFrame < ct.base.length then
      some (((ct.frame m.subPagesPerFrame (i / m.subPagesPerFrame))[i % m.subPagesPerFrame]?).getD
        (zeroPage m))
    else none
  else if (m.groupPageNums gid).length ≤ ct.base.length then ct.base[i]? else none

theorem slotBytes_congr {m m' : Manifest} {gid : Nat} (hf : m.hasFrames gid = m'.hasFrames gid)
    (hspf : m.subPagesPerFrame = m'.subPagesPerFrame) (hps : m.pageSize = m'.pageSize)
    (hgp : m.groupPageNums gid = m'.groupPageNums gid) (ct : GroupContent) (i : Nat) :
    slotBytes m gid ct i = slotBytes m' gid ct i := by
  simp only [slotBytes, hf, hspf, hgp, zeroPage, hps]

/-- What a cold read returns; `none` when it fails. -/
def coldBytes (m : Manifest) (ct : Nat → GroupContent) (p : Nat) : Option Bytes :=
  if m.pageCount ≤ p then some (zeroPage m)
  else
    match m.pageLocation p with
    | none => some (zeroPage m)
    | some loc =>
      if (m.groupKey loc.groupId).isSome then slotBytes m loc.groupId (ct loc.groupId) loc.index
      else none

/-- The object of a group without pages, as the seekable encoder writes it. -/
structure HoldsNothing (m : Manifest) (b : Backend) (gid : Nat) (ct : GroupContent) : Prop where
  object : ∃ key, m.groupKey gid = some key ∧ b.objects key = some []
  frameTable : m.frameTable gid = []
  base : ct.base = []

/-- Every object the manifest names is stored and holds `ct`. -/
structure StoredObjects (cfg : CodecConfig) (m : Manifest) (b : Backend) (ct : Nat → GroupContent) :
    Prop where
  pageSize_pos : 0 < m.pageSize
  pageSize_lt : m.pageSize < 2 ^ 32
  legacy : m.subPagesPerFrame = 0 → ∀ gid, m.frameTable gid = []
  unkeyed : ∀ gid, m.groupKey gid = none → m.frameTable gid = []
  holds : ∀ gid, (m.groupKey gid).isSome →
    HoldsGroup cfg m b gid (ct gid) ∨ HoldsNothing m b gid (ct gid)

/-- A database in the backend: stored objects under an indexed manifest. -/
structure Stored (cfg : CodecConfig) (m : Manifest) (b : Backend) (ct : Nat → GroupContent) : Prop
    extends StoredObjects cfg m b ct where
  indexed : m.Indexed
  nodup : ∀ g ∈ m.groupPages, g.Nodup

/-- The bytes a page has in the stored database: the override's where an override covers its frame,
the base object's otherwise, zeros past the end. -/
def pageBytes (m : Manifest) (ct : Nat → GroupContent) (p : Nat) : Option Bytes :=
  if m.pageCount ≤ p then some (zeroPage m)
  else
    match m.pageLocation p with
    | none => some (zeroPage m)
    | some loc =>
      if (m.groupKey loc.groupId).isSome then (ct loc.groupId).page m.subPagesPerFrame loc.index
      else none

/-- A backend with the same objects under the keys the manifest names holds the same. -/
theorem StoredObjects.of_objects {cfg : CodecConfig} {m : Manifest} {b b' : Backend}
    {ct : Nat → GroupContent} (h : StoredObjects cfg m b ct)
    (hobj : ∀ s k, m.keyAt s = some k → b'.objects k = b.objects k) :
    StoredObjects cfg m b' ct where
  pageSize_pos := h.pageSize_pos
  pageSize_lt := h.pageSize_lt
  legacy := h.legacy
  unkeyed := h.unkeyed
  holds gid hk := by
    rcases h.holds gid hk with hg | hg
    · obtain ⟨key, data, hkey, hdata, hs, hl⟩ := hg.base
      refine .inl ⟨⟨key, data, hkey, (hobj (.group gid) key hkey).trans hdata, hs, hl⟩, hg.size,
        fun f => ?_⟩
      have hover := hg.overFrames f
      cases hf : (m.overrides gid).lookup f with
      | none =>
        rw [hf] at hover
        exact hover
      | some ovr =>
        rw [hf] at hover
        obtain ⟨od, os, hod, hos, hho, hsz⟩ := hover
        have hkeyAt : m.keyAt (.override gid f) = some ovr.key := by
          simp only [Manifest.keyAt, hf, Option.map_some]
        exact ⟨od, os, (hobj _ _ hkeyAt).trans hod, hos, hho, hsz⟩
    · obtain ⟨key, hkey, hdata⟩ := hg.object
      exact .inr ⟨⟨key, hkey, (hobj (.group gid) key hkey).trans hdata⟩, hg.frameTable, hg.base⟩

/-- A cold read only looks at objects the manifest names. -/
theorem coldRead_congr {cfg : CodecConfig} {m : Manifest} {b b' : Backend}
    (hobj : ∀ s k, m.keyAt s = some k → b'.objects k = b.objects k) (p : Nat) :
    coldRead cfg m b' p = coldRead cfg m b p := by
  have hgroup : ∀ gid, (m.groupKey gid).bind b'.getPageGroup = (m.groupKey gid).bind b.getPageGroup := by
    intro gid
    cases hk : m.groupKey gid with
    | none => rfl
    | some key => exact hobj (.group gid) key hk
  have hfull : ∀ gid, fullGroupRead cfg m b' gid p = fullGroupRead cfg m b gid p := by
    intro gid
    simp only [fullGroupRead, fullGroupInstall, hgroup]
  have hframe : ∀ gid f e, fetchFrame m b' gid f e = fetchFrame m b gid f e := by
    intro gid f e
    unfold fetchFrame
    cases hf : (m.overrides gid).lookup f with
    | some ovr =>
      have hkey : m.keyAt (.override gid f) = some ovr.key := by
        simp only [Manifest.keyAt, hf, Option.map_some]
      simp only [Backend.getPageGroup, hobj _ _ hkey]
    | none =>
      cases hk : m.pageGroupKeys[gid]? with
      | none => rfl
      | some key? =>
        cases key? with
        | none => rfl
        | some key =>
          have hkey : m.keyAt (.group gid) = some key := by
            simp only [Manifest.keyAt, Manifest.groupKey, List.getD_eq_getElem?_getD, hk,
              Option.getD_some]
          simp only [Backend.rangeGet, hobj _ _ hkey]
  simp only [coldRead, rangeRead, hfull, hframe]

/-- The layout is not part of what the objects hold. -/
theorem StoredObjects.of_layout {cfg : CodecConfig} {m : Manifest} {b : Backend}
    {ct : Nat → GroupContent} (h : StoredObjects cfg m b ct) (n : Nat) (gps : List (List Nat))
    (idx : HMap Nat PageLocation) :
    StoredObjects cfg { m with pageCount := n, groupPages := gps, pageIndex := idx } b ct where
  pageSize_pos := h.pageSize_pos
  pageSize_lt := h.pageSize_lt
  legacy := h.legacy
  unkeyed := h.unkeyed
  holds gid hk := by
    rcases h.holds gid hk with hg | hg
    · exact .inl ⟨hg.base, hg.size, hg.overFrames⟩
    · exact .inr ⟨hg.object, hg.frameTable, hg.base⟩

section

variable {cfg : CodecConfig} {m : Manifest} {b : Backend} {gid : Nat} {ct : GroupContent}

/-- A group without an object cannot be read. -/
theorem fullGroupRead_unkeyed (h : m.groupKey gid = none) (p : Nat) (v : Bytes) :
    fullGroupRead cfg m b gid p ≠ .ok v := by
  simp [fullGroupRead, fullGroupInstall, h, PageMap.readPresent, PageMap.install, PageMap.empty]

theorem HoldsGroup.fullGroupRead_legacy (h : HoldsGroup cfg m b gid ct) (hps : 0 < m.pageSize)
    (hnd : (m.groupPageNums gid).Nodup) (hf : m.hasFrames gid = false) {p i : Nat}
    (hp : (m.groupPageNums gid)[i]? = some p) (v : Bytes) :
    fullGroupRead cfg m b gid p = .ok v ↔
      (if (m.groupPageNums gid).length ≤ ct.base.length then ct.base[i]? else none) = some v := by
  have hdec : decodedPages m gid ct.base = ct.base := by simp [decodedPages, hf]
  have hcap : FitsCap m gid ct.base := fun hf' => by rw [hf] at hf'; cases hf'
  have hpos : 0 < (m.groupPageNums gid).length :=
    Nat.lt_of_le_of_lt (Nat.zero_le i) (List.getElem?_eq_some_iff.mp hp).1
  split
  · rename_i hlen
    obtain ⟨data, hd, hr⟩ := h.fullGroupRead_ok hps hnd hp hcap (by rw [hdec]; exact hlen)
    rw [hr, hd]
    constructor
    · intro hv; cases hv; rfl
    · intro hv; cases hv; rfl
  · rename_i hlen
    constructor
    · intro hr
      exact absurd (hdec ▸ (h.fullGroupRead_inv hps hpos hr).2) hlen
    · intro hv; cases hv

/-- A frame past the end of the base object is read nowhere. -/
theorem HoldsGroup.rangeRead_past (h : HoldsGroup cfg m b gid ct) (hf : m.hasFrames gid = true)
    {i : Nat} (hbase : ct.base.length ≤ i / m.subPagesPerFrame * m.subPagesPerFrame) :
    rangeRead cfg m b gid i = .ok none := by
  obtain ⟨key, obj, -, -, hs, -⟩ := h.base
  obtain ⟨hspf, -⟩ := hasFrames_iff.mp hf
  have hnone : (m.frameTable gid)[i / m.subPagesPerFrame]? = none := by
    rw [List.getElem?_eq_none_iff, (hs hf).length]
    refine Nat.le_of_not_lt fun hlt => ?_
    have := (lt_divCeil_iff hspf).mp hlt
    omega
  unfold rangeRead
  simp only [hnone]

theorem HoldsGroup.coldRead_slot (h : HoldsGroup cfg m b gid ct) (hps : 0 < m.pageSize)
    (hnd : (m.groupPageNums gid).Nodup) {p i : Nat} (hpc : p < m.pageCount)
    (hloc : m.pageLocation p = some ⟨gid, i⟩) (hp : (m.groupPageNums gid)[i]? = some p) (v : Bytes) :
    coldRead cfg m b p = .ok v ↔ slotBytes m gid ct i = some v := by
  have hi : i < (m.groupPageNums gid).length := (List.getElem?_eq_some_iff.mp hp).1
  unfold coldRead slotBytes
  rw [if_neg (Nat.not_le.mpr hpc)]
  simp only [hloc]
  cases hf : m.hasFrames gid with
  | false =>
    simp only [Bool.false_eq_true, if_false]
    exact h.fullGroupRead_legacy hps hnd hf hp v
  | true =>
    simp only [if_true]
    rcases Nat.lt_or_ge (i / m.subPagesPerFrame * m.subPagesPerFrame) ct.base.length with hlt | hge
    · rw [h.rangeRead_eq hps hf hi hlt, if_pos hlt]
      simp only [ok_bind]
      constructor
      · intro hv; cases hv; rfl
      · intro hv; cases hv; rfl
    · rw [h.rangeRead_past hf hge, if_neg (Nat.not_lt.mpr hge)]
      simp only [ok_bind]
      constructor
      · intro hr
        -- the whole-group path wants more pages than the object has
        have hlen := (h.fullGroupRead_inv hps (Nat.lt_of_le_of_lt (Nat.zero_le i) hi) hr).2
        have hdec : (decodedPages m gid ct.base).length ≤ ct.base.length := by
          rw [decodedPages, if_pos hf, List.length_take]
          exact Nat.min_le_right ..
        have := Nat.div_mul_le_self i m.subPagesPerFrame
        omega
      · intro hv; cases hv

/-- An empty object cannot be read. -/
theorem HoldsNothing.coldRead_slot (hc : cfg.codecs.Lawful) (h : HoldsNothing m b gid ct) {p i : Nat}
    (hpc : p < m.pageCount) (hloc : m.pageLocation p = some ⟨gid, i⟩)
    (hp : (m.groupPageNums gid)[i]? = some p) (v : Bytes) :
    coldRead cfg m b p = .ok v ↔ slotBytes m gid ct i = some v := by
  have hi : i < (m.groupPageNums gid).length := (List.getElem?_eq_some_iff.mp hp).1
  have hf : m.hasFrames gid = false := by simp [Manifest.hasFrames, h.frameTable]
  obtain ⟨key, hk, hobj⟩ := h.object
  have hslot : slotBytes m gid ct i = none := by
    have hlen : ¬ (m.groupPageNums gid).length ≤ 0 := by omega
    simp only [slotBytes, hf, Bool.false_eq_true, if_false, h.base, List.length_nil, if_neg hlen]
  have hcold : coldRead cfg m b p = fullGroupRead cfg m b gid p := by
    simp [coldRead, Nat.not_le.mpr hpc, hloc, hf]
  rw [hslot, hcold]
  constructor
  · intro hr
    obtain ⟨ws, hws, -⟩ := bind_eq_ok.mp hr
    simp only [fullGroupInstall, hk, Option.bind_some, Backend.getPageGroup, hobj] at hws
    obtain ⟨out, hout, -⟩ := bind_eq_ok.mp hws
    simp only [decodeBase, hf, Bool.false_eq_true, if_false] at hout
    exact absurd hout (CodecConfig.decodeBulk_nil hc _ _ _)
  · intro hv; cases hv

end

/-- A cold read returns exactly the bytes the stored objects define. -/
theorem Stored.coldRead_iff {cfg : CodecConfig} {m : Manifest} {b : Backend}
    {ct : Nat → GroupContent} (hc : cfg.codecs.Lawful) (h : Stored cfg m b ct)
    (p : Nat) (v : Bytes) :
    coldRead cfg m b p = .ok v ↔ coldBytes m ct p = some v := by
  by_cases hpc : m.pageCount ≤ p
  · simp [coldRead, coldBytes, hpc]
  · cases hloc : m.pageLocation p with
    | none => simp [coldRead, coldBytes, hpc, hloc]
    | some loc =>
      obtain ⟨gid, i⟩ := loc
      cases hk : m.groupKey gid with
      | none =>
        have hf : m.hasFrames gid = false := by
          simp [Manifest.hasFrames, h.unkeyed gid hk]
        have hcold : coldRead cfg m b p = fullGroupRead cfg m b gid p := by
          simp [coldRead, hpc, hloc, hf]
        have hbytes : coldBytes m ct p = none := by simp [coldBytes, hpc, hloc, hk]
        rw [hcold, hbytes]
        exact ⟨fun hr => absurd hr (fullGroupRead_unkeyed hk p v), fun hv => by cases hv⟩
      | some key =>
        have hbytes : coldBytes m ct p = slotBytes m gid (ct gid) i := by
          simp [coldBytes, hpc, hloc, hk]
        rw [hbytes]
        rcases h.holds gid (by rw [hk]; rfl) with hg | hg
        · exact hg.coldRead_slot h.pageSize_pos (Manifest.nodup_groupPageNums h.nodup gid) (by omega)
            hloc (h.indexed.located hloc) v
        · exact hg.coldRead_slot hc (by omega) hloc (h.indexed.located hloc) v

/-- A page that is read from a group: the group's objects are stored, and the bytes are its slot's. -/
theorem Stored.slot_of_coldRead {cfg : CodecConfig} {m : Manifest} {b : Backend}
    {ct : Nat → GroupContent} (hc : cfg.codecs.Lawful) (h : Stored cfg m b ct) {p gid j : Nat}
    (hp : p < m.pageCount) (hloc : m.pageLocation p = some ⟨gid, j⟩) {v : Bytes}
    (hv : coldRead cfg m b p = .ok v) :
    HoldsGroup cfg m b gid (ct gid) ∧ slotBytes m gid (ct gid) j = some v := by
  have hbytes := (h.coldRead_iff hc p v).mp hv
  rw [coldBytes, if_neg (Nat.not_le.mpr hp)] at hbytes
  simp only [hloc] at hbytes
  split at hbytes
  · rename_i hkey
    refine ⟨(h.holds gid hkey).resolve_right fun hn => ?_, hbytes⟩
    -- an empty object has no slot to read
    have hlt := (List.getElem?_eq_some_iff.mp (h.indexed.located hloc)).1
    have hf : m.hasFrames gid = false := by simp [Manifest.hasFrames, hn.frameTable]
    simp only [slotBytes, hf, hn.base, Bool.false_eq_true, if_false, List.length_nil,
      if_neg (Nat.not_le.mpr (Nat.lt_of_le_of_lt (Nat.zero_le j) hlt))] at hbytes
    cases hbytes
  · cases hbytes

/-! ### The example database -/

namespace Example

theorem keyAt_eq {s : Slot} {k : ObjectKey} (h : manifest.keyAt s = some k) :
    (s = .group 0 ∧ k = .pageGroup 0 1) ∨ (s = .override 0 1 ∧ k = .overrideFrame 0 1 2) := by
  cases s with
  | group g =>
    cases g with
    | zero => exact .inl ⟨rfl, (Option.some.inj h).symm⟩
    | succ g => exact absurd (show none = some k from h) (by simp)
  | override g f =>
    cases g with
    | zero =>
      by_cases hf : f = 1
      · subst hf
        exact .inr ⟨rfl, (Option.some.inj h).symm⟩
      · have hl : (manifest.overrides 0).lookup f = none := AList.lookup_insert_ne hf
        simp [Manifest.keyAt, hl] at h
    | succ g => exact absurd (show none = some k from h) (by simp)
  | interior c => exact absurd (show none = some k from h) (by simp)
  | index c => exact absurd (show none = some k from h) (by simp)

theorem wellKeyed : WellKeyed manifest where
  injective s t k hs ht := by
    rcases keyAt_eq hs with ⟨rfl, rfl⟩ | ⟨rfl, rfl⟩ <;> rcases keyAt_eq ht with ⟨rfl, h⟩ | ⟨rfl, h⟩
    · rfl
    · cases h
    · cases h
    · rfl
  version s k hs := by
    rcases keyAt_eq hs with ⟨-, rfl⟩ | ⟨-, rfl⟩
    · exact ⟨1, by decide, rfl⟩
    · exact ⟨2, by decide, rfl⟩

theorem stored (x : UInt8) : Stored .plain manifest (backend x) (content x) where
  pageSize_pos := by decide
  pageSize_lt := by decide
  legacy h := absurd h (by decide)
  unkeyed gid h := by
    cases gid with
    | zero => exact absurd (show some _ = none from h) (by simp)
    | succ g => rfl
  holds gid h := by
    cases gid with
    | zero => exact .inl (holdsGroup x)
    | succ g => exact absurd (show (none : Option ObjectKey).isSome = true from h) (by simp)
  indexed := ⟨fun h => absurd h (by decide), fun _ _ => rfl⟩
  nodup := by decide

end Example

end ReadPaths

end Turbolite
