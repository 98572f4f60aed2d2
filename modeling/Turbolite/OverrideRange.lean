import Turbolite.Materialize
import Turbolite.OverrideCompaction
import Turbolite.Truncation

/-!
# Turbolite.OverrideRange

Overrides behind the end of their group. A shrink drops pages from the groups and leaves the overrides as
they are, so a frame may start at the new end of its group or past it. Five consumers meet it: the range
read, the local mode, the prefetch worker, override compaction and materialization.

`out_of_range_harmless_iff` says when none of them notices.
-/

namespace Turbolite

open Blocks Results ReadPaths

namespace Manifest

/-- The manifest without one override. -/
def dropOverride (m : Manifest) (gid frameIdx : Nat) : Manifest :=
  { m with subframeOverrides := m.subframeOverrides.modify gid fun ovs => ovs.erase frameIdx }

theorem overrides_dropOverride (m : Manifest) (gid frameIdx : Nat) :
    (m.dropOverride gid frameIdx).overrides gid = (m.overrides gid).erase frameIdx := by
  unfold overrides dropOverride
  rw [List.getD_eq_getElem?_getD, List.getD_eq_getElem?_getD, List.getElem?_modify_eq]
  cases m.subframeOverrides[gid]? <;> rfl

end Manifest

namespace OverrideRange

/-- The override's first page index is the group's length or more. -/
def OutOfRange (m : Manifest) (gid frameIdx : Nat) : Prop :=
  (m.groupPageNums gid).length ≤ frameIdx * m.subPagesPerFrame

instance (m : Manifest) (gid frameIdx : Nat) : Decidable (OutOfRange m gid frameIdx) :=
  inferInstanceAs (Decidable (_ ≤ _))

/-- Materialization of a manifest. -/
def materializing (cfg : CodecConfig) (m : Manifest) (b : Backend) : Materialize where
  cfg := cfg
  backend := b
  manifest := m
  output := none

/-- The worker decodes the base object of the group to `len` bytes, in pages of `pgSize`. -/
def Decodes (cfg : CodecConfig) (m : Manifest) (b : Backend) (gid pgSize len : Nat) : Prop :=
  ∃ data pgCount pageData, (m.groupKey gid).bind b.getPageGroup = some data ∧
    prefetchDecode cfg m gid data = .ok (pgCount, pgSize, pageData) ∧ pageData.length = len

/-- Every loop over the overrides passes over this one. -/
structure Passed (cfg : CodecConfig) (m : Manifest) (b : Backend) (gid frameIdx : Nat)
    (ovr : SubframeOverride) : Prop where
  localMode : ∀ c, localOverride cfg m b gid c frameIdx ovr = .ok c
  prefetch : ∀ pgSize pageData, Decodes cfg m b gid pgSize pageData.length →
    prefetchOverride cfg m b gid pgSize pageData frameIdx ovr = .ok pageData
  compaction : ∀ slots, compactOverride cfg m b gid slots frameIdx ovr = .ok slots
  materialize : (materializing cfg m b).stageOverride gid frameIdx ovr = .ok []

/-- Every consumer does with the group what it does without the override. -/
structure Unaffected (cfg : CodecConfig) (m : Manifest) (b : Backend) (gid frameIdx : Nat) : Prop where
  range : ∀ idx < (m.groupPageNums gid).length,
    rangeRead cfg m b gid idx = rangeRead cfg (m.dropOverride gid frameIdx) b gid idx
  localMode : ∀ c, localOverrides cfg m b gid c =
    localOverrides cfg (m.dropOverride gid frameIdx) b gid c
  prefetch : prefetchInstall cfg m b gid = prefetchInstall cfg (m.dropOverride gid frameIdx) b gid
  compaction : ∀ slots, (m.overrides gid).entries.foldlM
      (fun slots ov => compactOverride cfg m b gid slots ov.1 ov.2) slots =
    ((m.dropOverride gid frameIdx).overrides gid).entries.foldlM
      (fun slots ov => compactOverride cfg (m.dropOverride gid frameIdx) b gid slots ov.1 ov.2) slots
  materialize : (materializing cfg m b).stageOverrides gid =
    (materializing cfg (m.dropOverride gid frameIdx) b).stageOverrides gid

/-- When an override that is out of range does no harm: its object opens, with the dictionary and
without; it starts at the end of the group, not past it; and the base object covers the group. -/
structure Tolerated (cfg : CodecConfig) (m : Manifest) (b : Backend) (gid frameIdx : Nat)
    (ovr : SubframeOverride) : Prop where
  opens : ∃ data raw raw', b.getPageGroup ovr.key = some data ∧
    cfg.decodeSeekableSubchunk (aadOverrideFrame gid frameIdx) data = .ok raw ∧
    cfg.openFrame none (aadOverrideFrame gid frameIdx) data maxTieredDecompressedBytes = .ok raw'
  atEnd : frameIdx * m.subPagesPerFrame ≤ (m.groupPageNums gid).length
  covered : ∀ pgSize len, Decodes cfg m b gid pgSize len →
    (m.groupPageNums gid).length * pgSize ≤ len

section

variable {cfg : CodecConfig} {m : Manifest} {b : Backend} {gid f : Nat} {ovr : SubframeOverride}

theorem block_outOfRange (hout : OutOfRange m gid f) :
    block m.subPagesPerFrame f (m.groupPageNums gid) = [] := by
  unfold block
  rw [List.drop_eq_nil_of_le hout, List.take_nil]

/-! ### One override -/

theorem Tolerated.passed (h : Tolerated cfg m b gid f ovr) (hout : OutOfRange m gid f) :
    Passed cfg m b gid f ovr := by
  obtain ⟨data, raw, raw', hdata, hraw, hraw'⟩ := h.opens
  have hblock := block_outOfRange hout
  have hend : f * m.subPagesPerFrame = (m.groupPageNums gid).length := Nat.le_antisymm h.atEnd hout
  have hlt : ¬ (m.groupPageNums gid).length < f * m.subPagesPerFrame := Nat.not_lt.mpr h.atEnd
  refine ⟨fun c => ?_, fun pgSize pageData hdec => ?_, fun slots => ?_, ?_⟩
  · have hinstall : frameInstall m gid f raw = [] := by
      unfold frameInstall
      rw [hblock]
      simp [PageMap.scatter]
    simp only [localOverride, hdata, hraw, if_neg hlt, hinstall]
    rfl
  · have hmin : min (f * m.subPagesPerFrame + m.subPagesPerFrame) (m.groupPageNums gid).length =
        f * m.subPagesPerFrame := by omega
    have hcov := h.covered pgSize _ hdec
    rw [← hend] at hcov
    have hfit : ¬ (raw.length < 0 ∨ pageData.length < f * m.subPagesPerFrame * pgSize + 0) := by omega
    simp only [prefetchOverride, hdata, hraw, ok_bind, hmin, Nat.lt_irrefl, if_false, Nat.sub_self,
      Nat.zero_mul, if_neg hfit, List.take_zero]
    rw [splice, List.append_nil, List.length_nil, Nat.add_zero, List.take_append_drop]
  · have hoverlay : overlayFrame m gid f raw slots = slots := by
      unfold overlayFrame
      have hkeep : ∀ s ∈ slots.zipIdx, (if f * m.subPagesPerFrame ≤ s.2 ∧
          s.2 < min (f * m.subPagesPerFrame + m.subPagesPerFrame) (m.groupPageNums gid).length ∧
          (s.2 - f * m.subPagesPerFrame + 1) * m.pageSize ≤ raw.length then
            some (block m.pageSize (s.2 - f * m.subPagesPerFrame) raw) else s.1) = s.1 := by
        intro s _
        refine if_neg fun hs => ?_
        omega
      dsimp only
      rw [List.map_congr_left hkeep, List.zipIdx_map_fst]
    simp only [compactOverride, hdata, hraw, ok_bind, if_neg hlt, hoverlay]
  · simp only [Materialize.stageOverride, materializing, hdata, hraw', ok_bind, hblock, if_true]

/-- Every condition is met by some consumer that passes over the override. -/
theorem Passed.tolerated (h : Passed cfg m b gid f ovr) (hout : OutOfRange m gid f) :
    Tolerated cfg m b gid f ovr := by
  have hcompact := h.compaction []
  have hmat := h.materialize
  unfold compactOverride at hcompact
  unfold Materialize.stageOverride materializing at hmat
  cases hdata : b.getPageGroup ovr.key with
  | none =>
    rw [hdata] at hcompact
    cases hcompact
  | some data =>
    rw [hdata] at hcompact hmat
    dsimp only at hcompact hmat
    obtain ⟨raw, hraw, hslice⟩ := bind_eq_ok.mp hcompact
    obtain ⟨raw', hraw', -⟩ := bind_eq_ok.mp hmat
    have hend : f * m.subPagesPerFrame ≤ (m.groupPageNums gid).length := by
      split at hslice
      · cases hslice
      · rename_i hlt
        exact Nat.not_lt.mp hlt
    refine ⟨⟨data, raw, raw', hdata, hraw, hraw'⟩, hend, fun pgSize len hdec => ?_⟩
    obtain ⟨obj, pgCount, pageData, hobj, hdecode, rfl⟩ := hdec
    have hpre := h.prefetch pgSize pageData ⟨obj, pgCount, pageData, hobj, hdecode, rfl⟩
    have hmin : min (f * m.subPagesPerFrame + m.subPagesPerFrame) (m.groupPageNums gid).length =
        f * m.subPagesPerFrame := by
      have := hout
      unfold OutOfRange at this
      omega
    simp only [prefetchOverride, hdata, hraw, ok_bind, hmin, Nat.lt_irrefl, if_false, Nat.sub_self,
      Nat.zero_mul, Nat.add_zero] at hpre
    split at hpre
    · cases hpre
    · rename_i hfit
      have heq : f * m.subPagesPerFrame = (m.groupPageNums gid).length := Nat.le_antisymm hend hout
      rw [← heq]
      omega

/-! ### The group without the override -/

theorem entries_split (hl : (m.overrides gid).lookup f = some ovr) : ∃ pre post,
    (m.overrides gid).entries = pre ++ ⟨f, ovr⟩ :: post ∧
      ((m.dropOverride gid f).overrides gid).entries = pre ++ post := by
  have hmem := mem_entries_of_lookup hl
  obtain ⟨ovr', pre, post, -, hentries, herase⟩ :=
    List.exists_of_kerase (List.mem_keys_of_mem hmem)
  have hmem' : (⟨f, ovr'⟩ : Sigma fun _ : Nat => SubframeOverride) ∈ (m.overrides gid).entries := by
    rw [hentries]
    simp
  obtain rfl : ovr' = ovr :=
    Option.some.inj ((lookup_of_mem_entries hmem').symm.trans hl)
  rw [Manifest.overrides_dropOverride]
  exact ⟨pre, post, hentries, herase⟩

/-- A page of the group is in another frame. -/
theorem rangeRead_dropOverride (hout : OutOfRange m gid f) {idx : Nat}
    (hidx : idx < (m.groupPageNums gid).length) :
    rangeRead cfg m b gid idx = rangeRead cfg (m.dropOverride gid f) b gid idx := by
  have hne : idx / m.subPagesPerFrame ≠ f := by
    rintro rfl
    have := Nat.div_mul_le_self idx m.subPagesPerFrame
    unfold OutOfRange at hout
    omega
  have hfetch : ∀ entry, fetchFrame m b gid (idx / m.subPagesPerFrame) entry =
      fetchFrame (m.dropOverride gid f) b gid (idx / m.subPagesPerFrame) entry := by
    intro entry
    unfold fetchFrame
    rw [Manifest.overrides_dropOverride, AList.lookup_erase_ne hne]
    rfl
  unfold rangeRead
  simp only [hfetch]
  rfl

theorem length_prefetchOverride {pgSize : Nat} {pageData out : Bytes} {g : Nat}
    {o : SubframeOverride} (h : prefetchOverride cfg m b gid pgSize pageData g o = .ok out) :
    out.length = pageData.length := by
  unfold prefetchOverride at h
  split at h
  · cases h
  · obtain ⟨raw, -, h⟩ := bind_eq_ok.mp h
    dsimp only at h
    split at h
    · cases h
    · split at h
      · cases h
      · rename_i hfit
        cases h
        refine length_splice ?_
        rw [List.length_take]
        omega

/-- The worker's buffer keeps its length, so that the override is passed over wherever it comes. -/
theorem prefetchInstall_dropOverride (h : Passed cfg m b gid f ovr)
    {pre post : List (Sigma fun _ : Nat => SubframeOverride)}
    (hentries : (m.overrides gid).entries = pre ++ ⟨f, ovr⟩ :: post)
    (hdrop : ((m.dropOverride gid f).overrides gid).entries = pre ++ post) :
    prefetchInstall cfg m b gid = prefetchInstall cfg (m.dropOverride gid f) b gid := by
  have hkey : (m.dropOverride gid f).groupKey gid = m.groupKey gid := rfl
  have hdecode : ∀ data, prefetchDecode cfg (m.dropOverride gid f) gid data =
      prefetchDecode cfg m gid data := fun _ => rfl
  unfold prefetchInstall
  rw [hkey]
  cases hobj : (m.groupKey gid).bind b.getPageGroup with
  | none => rfl
  | some data =>
    dsimp only
    rw [hdecode]
    cases hdec : prefetchDecode cfg m gid data with
    | error e => rfl
    | ok out =>
      obtain ⟨pgCount, pgSize, pageData⟩ := out
      have hskip : (pre ++ ⟨f, ovr⟩ :: post).foldlM
            (fun d ov => prefetchOverride cfg m b gid pgSize d ov.1 ov.2) pageData =
          (pre ++ post).foldlM (fun d ov => prefetchOverride cfg m b gid pgSize d ov.1 ov.2) pageData :=
        foldlM_skip (I := fun d => d.length = pageData.length) rfl
          (fun d ov out hd hout => (length_prefetchOverride hout).trans hd)
          fun d hd => h.prefetch pgSize d ⟨data, pgCount, pageData, hobj, hdec, hd.symm⟩
      have hall : prefetchOverrides cfg m b gid pgSize pageData =
          prefetchOverrides cfg (m.dropOverride gid f) b gid pgSize pageData := by
        unfold prefetchOverrides
        rw [hentries, hdrop, hskip]
        rfl
      rw [ok_bind, ok_bind, hall]
      rfl

theorem Passed.unaffected (h : Passed cfg m b gid f ovr) (hout : OutOfRange m gid f)
    (hl : (m.overrides gid).lookup f = some ovr) : Unaffected cfg m b gid f := by
  obtain ⟨pre, post, hentries, hdrop⟩ := entries_split hl
  refine ⟨fun idx hidx => rangeRead_dropOverride hout hidx, fun c => ?_, ?_, fun slots => ?_, ?_⟩
  · have hskip : (pre ++ ⟨f, ovr⟩ :: post).foldlM
          (fun c ov => localOverride cfg m b gid c ov.1 ov.2) c =
        (pre ++ post).foldlM (fun c ov => localOverride cfg m b gid c ov.1 ov.2) c :=
      foldlM_skip (I := fun _ => True) trivial (fun _ _ _ _ _ => trivial) fun c _ => h.localMode c
    unfold localOverrides
    rw [hentries, hdrop, hskip]
    rfl
  · exact prefetchInstall_dropOverride h hentries hdrop
  · have hskip : (pre ++ ⟨f, ovr⟩ :: post).foldlM
          (fun slots ov => compactOverride cfg m b gid slots ov.1 ov.2) slots =
        (pre ++ post).foldlM (fun slots ov => compactOverride cfg m b gid slots ov.1 ov.2) slots :=
      foldlM_skip (I := fun _ => True) trivial (fun _ _ _ _ _ => trivial)
        fun slots _ => h.compaction slots
    rw [hentries, hdrop, hskip]
    rfl
  · have hskip := mapM_skip
      (f := fun ov : Sigma fun _ : Nat => SubframeOverride =>
        (materializing cfg m b).stageOverride gid ov.1 ov.2)
      (a := ⟨f, ovr⟩) h.materialize pre post
    have hmap : ∀ x : IoResult (List (List (Nat × Bytes))),
        (do let writes ← x; .ok writes.flatten) = x.map List.flatten := by
      intro x
      cases x <;> rfl
    have hspf : (m.dropOverride gid f).subPagesPerFrame = m.subPagesPerFrame := rfl
    unfold Materialize.stageOverrides
    dsimp only [materializing]
    simp only [hmap]
    rw [hentries, hdrop, hspf]
    split
    · exact hskip
    · rfl

/-! ### After a shrink -/

theorem filter_range'_min (start len : Nat) {n pageCount : Nat} (hn : n < pageCount) :
    (List.range' start (min (start + len) pageCount - start)).filter (· < n) =
      List.range' start (min (start + len) n - start) := by
  have hlen : min (start + len) pageCount - start = (min (start + len) n - start) +
      ((min (start + len) pageCount - start) - (min (start + len) n - start)) := by omega
  rw [hlen, ← List.range'_append_1, List.filter_append, List.filter_eq_self.mpr,
    List.filter_eq_nil_iff.mpr, List.append_nil]
  · intro p hp
    have := List.mem_range'_1.mp hp
    rw [decide_eq_true_eq]
    omega
  · intro p hp
    have := List.mem_range'_1.mp hp
    rw [decide_eq_true_eq]
    omega

/-- The pages of a group after `set_len` to fewer pages. -/
theorem groupPageNums_setLen {n : Nat} (hn : n < m.pageCount) :
    (m.setLen n).groupPageNums gid = (m.groupPageNums gid).filter (· < n) := by
  cases hst : m.strategy with
  | positional =>
    have hset : m.setLen n = { m with pageCount := n } := by
      unfold Manifest.setLen Manifest.setLenFrom
      rw [hst]
    rw [hset]
    unfold Manifest.groupPageNums
    dsimp only
    rw [hst]
    exact (filter_range'_min (gid * m.pagesPerGroup) m.pagesPerGroup hn).symm
  | bTreeAware =>
    rw [Truncation.setLen_of_lt hst hn]
    unfold Manifest.groupPageNums
    dsimp only
    rw [hst]
    exact Truncation.getD_map_filter ..

/-- A `set_len` that leaves fewer pages of the group than come before the frame. -/
theorem not_passed_of_setLen {n : Nat} (hn : n < m.pageCount)
    (hpast : (m.groupPageNums gid).countP (· < n) < f * (m.setLen n).subPagesPerFrame) :
    ¬ Passed cfg (m.setLen n) b gid f ovr := by
  have hlen : ((m.setLen n).groupPageNums gid).length = (m.groupPageNums gid).countP (· < n) := by
    rw [groupPageNums_setLen hn, List.countP_eq_length_filter]
  intro h
  have htol := h.tolerated (by unfold OutOfRange; omega)
  have := htol.atEnd
  omega

end

/-- Overrides that start at the end of their group or past it are passed over by every consumer, and leave
the pages of the group as they are without them, if and only if their objects open, none of them starts
past the end, and for one that starts at the end the base object covers the group. -/
theorem out_of_range_harmless_iff (cfg : CodecConfig) (m : Manifest) (b : Backend) :
    (∀ gid f ovr, (m.overrides gid).lookup f = some ovr → OutOfRange m gid f →
      Passed cfg m b gid f ovr ∧ Unaffected cfg m b gid f) ↔
    ∀ gid f ovr, (m.overrides gid).lookup f = some ovr → OutOfRange m gid f →
      Tolerated cfg m b gid f ovr := by
  constructor
  · intro h gid f ovr hl hout
    exact (h gid f ovr hl hout).1.tolerated hout
  · intro h gid f ovr hl hout
    have hpassed := (h gid f ovr hl hout).passed hout
    exact ⟨hpassed, hpassed.unaffected hout hl⟩

/-! ### A database cut to one page -/

namespace Example

/-- A page full of one byte. -/
def page (x : UInt8) : Bytes := List.replicate 64 x

/-- The base object of group 0: three pages, one a frame. -/
def group : Bytes × List FrameEntry :=
  CodecConfig.plain.encodePageGroupSeekable (aadPageGroup 0) 64 1
    [some (page 1), some (page 2), some (page 3)]

/-- An imported database of three pages after a flush replaced frame 2. -/
def flushed : Manifest where
  version := 2
  pageCount := 3
  pageSize := 64
  pagesPerGroup := 3
  pageGroupKeys := [some (.pageGroup 0 1)]
  frameTables := [group.2]
  subPagesPerFrame := 1
  subframeOverrides := [AList.insert 2 ⟨.overrideFrame 0 2 2, ⟨0, 64⟩⟩ ∅]
  strategy := .bTreeAware
  groupPages := [[0, 1, 2]]
  pageIndex := Manifest.pageIndexOf [[0, 1, 2]]

/-- A store with one group and one override of it. -/
def store : Backend where
  objects := fun
    | .pageGroup 0 1 => some group.1
    | .overrideFrame 0 2 2 =>
      some (CodecConfig.plain.encodeOverrideFrame (aadOverrideFrame 0 2) 64 [(2, page 4)])
    | _ => none

/-- The errors of the range read, the local mode and the worker for page 0, of the compaction and of the
materialization. -/
def outcomes (m : Manifest) : List (Option IoError) :=
  [error? (coldRead .plain m store 0), error? (localRead .plain m store 0),
    error? (prefetchRead .plain m store 0), error? (compactOverrideGroup .plain m store 0),
    error? (materializing .plain m store).materializeManifestToFile.1]

/-- Cut to two pages the frame starts at the end. -/
example : outcomes (flushed.setLen 2) = [none, none, none, none, none] := by decide +kernel

end Example

open Turbolite.OverrideRange.Example

/-- Cut to one page it starts past the end. The local mode and the compaction slice out of range, the worker
subtracts below zero, and page 0 was and is in the store. -/
theorem shrink_strands_override : outcomes flushed = [none, none, none, none, none] ∧
    outcomes (flushed.setLen 1) = [none, some .panic, some .panic, some .panic, none] ∧
    outcomes (flushed.setReplayPageCount 3 1) = [none, some .panic, some .panic, some .panic, none] ∧
    ¬ ∀ gid f ovr, ((flushed.setLen 1).overrides gid).lookup f = some ovr →
      OutOfRange (flushed.setLen 1) gid f →
        Passed .plain (flushed.setLen 1) store gid f ovr ∧
          Unaffected .plain (flushed.setLen 1) store gid f := by
  refine ⟨by decide +kernel, by decide +kernel, by decide +kernel, fun h => ?_⟩
  have hout : OutOfRange (flushed.setLen 1) 0 2 := by decide
  exact not_passed_of_setLen (by decide) (by decide) (h 0 2 _ rfl hout).1

end OverrideRange

end Turbolite
