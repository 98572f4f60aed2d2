import Turbolite.ReadPaths

/-!
# Turbolite.ReadAgreement

When the four read paths deliver the same bytes. `GroupContent` says what the objects of a group
hold, `Represents` ties it to a manifest and a backend, and `image` is the page the objects define:
the override frame's bytes where an override covers the page's frame, the base object's otherwise.
The paths agree exactly when every group satisfies `GroupAgrees`: the base object covers the whole
group, its largest frame fits the group's byte count, and overrides neither start past the group's
end, nor end before it, nor differ from the base.
-/

namespace Turbolite.ReadPaths

open Blocks Results

/-! ### What the objects hold -/

/-- The pages of a group's base object and of its override frames. -/
structure GroupContent where
  base : List Bytes
  overFrames : Nat → Option (List Bytes)

/-- The page at slot `i`, overrides applied. -/
def GroupContent.page (ct : GroupContent) (spf i : Nat) : Option Bytes :=
  match if 0 < spf then ct.overFrames (i / spf) else none with
  | some os => os[i % spf]?
  | none => ct.base[i]?

/-- The override at `f`, when there is one, is stored and holds its pages. -/
def HoldsOver (cfg : CodecConfig) (m : Manifest) (b : Backend) (gid f : Nat) :
    Option SubframeOverride → Option (List Bytes) → Prop
  | none, pages => pages = none
  | some ovr, pages => ∃ data os, b.objects ovr.key = some data ∧ pages = some os ∧
      cfg.HoldsOverride (aadOverrideFrame gid f) data m.pageSize os ∧
      os.length * m.pageSize ≤ maxTieredDecompressedBytes

/-- The objects of a group are in the backend and hold `ct`. -/
structure HoldsGroup (cfg : CodecConfig) (m : Manifest) (b : Backend) (gid : Nat)
    (ct : GroupContent) : Prop where
  base : ∃ key data, m.groupKey gid = some key ∧ b.objects key = some data ∧
    (m.hasFrames gid = true → cfg.HoldsSeekable (aadPageGroup gid) data (m.frameTable gid)
      m.pageSize m.subPagesPerFrame ct.base) ∧
    (m.hasFrames gid = false → cfg.HoldsLegacy (aadPageGroup gid) data m.pageSize ct.base)
  size : 8 + ct.base.length * m.pageSize ≤ maxTieredDecompressedBytes
  overFrames : ∀ f, HoldsOver cfg m b gid f ((m.overrides gid).lookup f) (ct.overFrames f)

/-- Some page below `page_count` is in the group. -/
def Touched (m : Manifest) (gid : Nat) : Prop :=
  ∃ p i, p < m.pageCount ∧ m.pageLocation p = some ⟨gid, i⟩

/-- The manifest's locations are slots of its groups, and its objects hold every page below
`page_count` that has a location. -/
structure Represents (cfg : CodecConfig) (m : Manifest) (b : Backend) (ct : Nat → GroupContent) :
    Prop where
  pageSize_pos : 0 < m.pageSize
  located : ∀ p gid i, m.pageLocation p = some ⟨gid, i⟩ → (m.groupPageNums gid)[i]? = some p
  nodup : ∀ gid, (m.groupPageNums gid).Nodup
  legacy : m.subPagesPerFrame = 0 → ∀ gid, m.frameTable gid = []
  holds : ∀ gid, Touched m gid → HoldsGroup cfg m b gid (ct gid)
  defined : ∀ p gid i, p < m.pageCount → m.pageLocation p = some ⟨gid, i⟩ →
    ((ct gid).page m.subPagesPerFrame i).isSome

/-- The database image: what a page below `page_count` is. -/
def image (m : Manifest) (ct : Nat → GroupContent) (p : Nat) : Bytes :=
  match m.pageLocation p with
  | none => zeroPage m
  | some loc => ((ct loc.groupId).page m.subPagesPerFrame loc.index).getD (zeroPage m)

/-- Every path delivers the image of every page below `page_count`. -/
def AllPathsAgree (cfg : CodecConfig) (m : Manifest) (b : Backend) (ct : Nat → GroupContent) :
    Prop :=
  ∀ p < m.pageCount,
    coldRead cfg m b p = .ok (image m ct p) ∧ scanRead cfg m b p = .ok (image m ct p) ∧
    localRead cfg m b p = .ok (image m ct p) ∧ prefetchRead cfg m b p = .ok (image m ct p)

/-- The override at `f` starts inside the group, covers its frame, and equals the base on every
page below `page_count`. -/
structure OverrideAgrees (m : Manifest) (gid : Nat) (ct : GroupContent) (f : Nat)
    (os : List Bytes) : Prop where
  start : f * m.subPagesPerFrame ≤ (m.groupPageNums gid).length
  covers : min m.subPagesPerFrame ((m.groupPageNums gid).length - f * m.subPagesPerFrame) ≤ os.length
  same : ∀ p i, p < m.pageCount → m.pageLocation p = some ⟨gid, i⟩ → i / m.subPagesPerFrame = f →
    os[i % m.subPagesPerFrame]? = ct.base[i]?

/-- What a group must satisfy for its pages to read alike on every path. -/
structure GroupAgrees (m : Manifest) (gid : Nat) (ct : GroupContent) : Prop where
  covered : (m.groupPageNums gid).length ≤ ct.base.length
  seekable : m.hasFrames gid = true →
    min m.subPagesPerFrame ct.base.length ≤ (m.groupPageNums gid).length ∧
      (m.groupPageNums gid).length ≤ m.pageCount
  overrides : 0 < m.subPagesPerFrame → ∀ f os, ct.overFrames f = some os → OverrideAgrees m gid ct f os

/-! ### Decoding the base object -/

section Group

variable {cfg : CodecConfig} {m : Manifest} {b : Backend} {gid : Nat} {ct : GroupContent}

theorem hasFrames_iff : m.hasFrames gid = true ↔ 0 < m.subPagesPerFrame ∧ m.frameTable gid ≠ [] := by
  simp [Manifest.hasFrames]

/-- The pages a decode of the base object returns. -/
def decodedPages (m : Manifest) (gid : Nat) (base : List Bytes) : List Bytes :=
  if m.hasFrames gid then base.take (min (m.groupPageNums gid).length m.pageCount) else base

/-- The pages of a decode are pages of the base object. -/
theorem getElem?_decodedPages {base : List Bytes} {i : Nat} {data : Bytes}
    (h : (decodedPages m gid base)[i]? = some data) : base[i]? = some data := by
  unfold decodedPages at h
  split at h
  · rw [List.getElem?_take] at h
    split at h
    · exact h
    · cases h
  · exact h

/-- No frame of the base object exceeds the cap of a full decode. -/
def FitsCap (m : Manifest) (gid : Nat) (base : List Bytes) : Prop :=
  m.hasFrames gid = true → min m.subPagesPerFrame base.length * m.pageSize ≤
    CodecConfig.frameCap m.pageSize (min (m.groupPageNums gid).length m.pageCount)

theorem HoldsGroup.uniform (h : HoldsGroup cfg m b gid ct) : Uniform m.pageSize ct.base := by
  obtain ⟨_, _, _, _, hs, hl⟩ := h.base
  cases hf : m.hasFrames gid with
  | true => exact (hs hf).uniform
  | false => exact (hl hf).uniform

/-- A group that fits the absolute ceiling has few pages. -/
theorem HoldsGroup.length_lt (h : HoldsGroup cfg m b gid ct) (hps : 0 < m.pageSize) :
    ct.base.length < 2 ^ 32 := by
  have hsize := h.size
  have hle := Nat.le_mul_of_pos_right ct.base.length hps
  unfold maxTieredDecompressedBytes at hsize
  omega

theorem HoldsGroup.uniform_decoded (h : HoldsGroup cfg m b gid ct) :
    Uniform m.pageSize (decodedPages m gid ct.base) := by
  unfold decodedPages
  split
  · exact h.uniform.take _
  · exact h.uniform

/-- The base object is there, and decoding it gives its pages or fails on the cap. -/
theorem HoldsGroup.decode (h : HoldsGroup cfg m b gid ct) (hps : 0 < m.pageSize) :
    ∃ data, (m.groupKey gid).bind b.getPageGroup = some data ∧
      (FitsCap m gid ct.base → decodeBase cfg m gid data =
        .ok ((decodedPages m gid ct.base).length, m.pageSize,
          (decodedPages m gid ct.base).flatten)) ∧
      (¬ FitsCap m gid ct.base → ∃ e, decodeBase cfg m gid data = .error e) := by
  obtain ⟨key, data, hk, hd, hs, hl⟩ := h.base
  refine ⟨data, by simp [hk, Backend.getPageGroup, hd], ?_, ?_⟩
  · intro hcap
    unfold decodeBase decodedPages
    cases hf : m.hasFrames gid with
    | true =>
      obtain ⟨hspf, -⟩ := hasFrames_iff.mp hf
      rw [if_pos rfl, if_pos rfl, (hs hf).decode hspf hps (h.length_lt hps) (hcap hf),
        List.length_take]
    | false =>
      simp only [Bool.false_eq_true, if_false]
      exact (hl hf).decodeBulk h.size
  · intro hcap
    unfold FitsCap at hcap
    simp only [Classical.not_imp, Nat.not_le] at hcap
    obtain ⟨hf, hlt⟩ := hcap
    obtain ⟨hspf, -⟩ := hasFrames_iff.mp hf
    unfold decodeBase
    rw [if_pos hf]
    exact (hs hf).decode_error hspf hlt

/-! ### The whole-group path -/

theorem block_take_flatten {ps n i : Nat} {xss : List Bytes} (hu : Uniform ps xss) (hi : i < n)
    (hn : n ≤ xss.length) : block ps i (xss.flatten.take (n * ps)) = xss[i] := by
  rw [take_flatten_of_uniform hu, block_flatten (hu.take n) (by rw [List.length_take]; omega),
    List.getElem_take]

theorem HoldsGroup.fullGroupRead_ok (h : HoldsGroup cfg m b gid ct) (hps : 0 < m.pageSize)
    (hnd : (m.groupPageNums gid).Nodup) {p i : Nat} (hp : (m.groupPageNums gid)[i]? = some p)
    (hcap : FitsCap m gid ct.base)
    (hlen : (m.groupPageNums gid).length ≤ (decodedPages m gid ct.base).length) :
    ∃ data, ct.base[i]? = some data ∧ fullGroupRead cfg m b gid p = .ok data := by
  obtain ⟨raw, hraw, hdec, -⟩ := h.decode hps
  have hi : i < (m.groupPageNums gid).length := (List.getElem?_eq_some_iff.mp hp).1
  have hu := h.uniform_decoded
  have hbase : ct.base[i]? = some (decodedPages m gid ct.base)[i] := by
    rw [← List.getElem?_eq_getElem (by omega)]
    unfold decodedPages at hlen ⊢
    split at hlen
    · rename_i hf
      rw [if_pos hf]
      rw [List.getElem?_take_of_lt]
      rw [List.length_take] at hlen
      omega
    · rename_i hf
      rw [if_neg hf]
  refine ⟨_, hbase, ?_⟩
  have htot : (decodedPages m gid ct.base).flatten.length =
      (decodedPages m gid ct.base).length * m.pageSize := length_flatten_of_uniform hu
  have hle : (m.groupPageNums gid).length * m.pageSize ≤
      (decodedPages m gid ct.base).flatten.length := by
    rw [htot]; exact Nat.mul_le_mul_right _ hlen
  have hbuf : ((decodedPages m gid ct.base).flatten.take
      ((m.groupPageNums gid).length * m.pageSize)).length / m.pageSize =
        (m.groupPageNums gid).length := by
    rw [List.length_take, Nat.min_eq_left hle, Nat.mul_div_cancel _ hps]
  unfold fullGroupRead fullGroupInstall
  rw [hraw]
  simp only [hdec hcap, ok_bind, if_neg (show ¬ (m.groupPageNums gid).length = 0 by omega),
    if_pos hle, PageMap.readPresent]
  rw [PageMap.install_scatter hnd hp, if_pos (by rw [hbuf]; exact hi),
    block_take_flatten hu hi hlen]

theorem HoldsGroup.fullGroupRead_inv (h : HoldsGroup cfg m b gid ct) (hps : 0 < m.pageSize)
    {p : Nat} {data : Bytes} (hn : 0 < (m.groupPageNums gid).length)
    (hr : fullGroupRead cfg m b gid p = .ok data) :
    FitsCap m gid ct.base ∧
      (m.groupPageNums gid).length ≤ (decodedPages m gid ct.base).length := by
  obtain ⟨raw, hraw, hdec, herr⟩ := h.decode hps
  obtain ⟨ws, hws, -⟩ := bind_eq_ok.mp hr
  unfold fullGroupInstall at hws
  rw [hraw] at hws
  by_cases hcap : FitsCap m gid ct.base
  · refine ⟨hcap, ?_⟩
    simp only [hdec hcap, ok_bind, if_neg (show ¬ (m.groupPageNums gid).length = 0 by omega)] at hws
    split at hws
    · rename_i hle
      rw [length_flatten_of_uniform h.uniform_decoded] at hle
      exact Nat.le_of_mul_le_mul_right hle hps
    · cases hws
  · obtain ⟨e, he⟩ := herr hcap
    simp only [he, error_bind] at hws
    cases hws

/-! ### The range path -/

/-- The pages of frame `f`, overrides applied. -/
def GroupContent.frame (ct : GroupContent) (spf f : Nat) : List Bytes :=
  match ct.overFrames f with
  | some os => os
  | none => block spf f ct.base

theorem framePage_flatten {os : List Bytes} (hps : 0 < m.pageSize) (hu : Uniform m.pageSize os)
    (slot : Nat) : framePage m slot os.flatten = (os[slot]?).getD (zeroPage m) := by
  unfold framePage
  rw [length_flatten_of_uniform hu]
  rcases Nat.lt_or_ge slot os.length with hs | hs
  · rw [if_pos (Nat.mul_le_mul_right _ hs), block_flatten hu hs, List.getElem?_eq_getElem hs]
    rfl
  · have hlt : os.length * m.pageSize < (slot + 1) * m.pageSize :=
      Nat.mul_lt_mul_of_pos_right (Nat.lt_succ_of_le hs) hps
    rw [if_neg (Nat.not_le.mpr hlt), List.getElem?_eq_none hs]
    rfl

/-- A range read of a frame the base object has. -/
theorem HoldsGroup.rangeRead_eq (h : HoldsGroup cfg m b gid ct) (hps : 0 < m.pageSize)
    (hf : m.hasFrames gid = true) {i : Nat} (hi : i < (m.groupPageNums gid).length)
    (hbase : i / m.subPagesPerFrame * m.subPagesPerFrame < ct.base.length) :
    rangeRead cfg m b gid i = .ok (some (((ct.frame m.subPagesPerFrame
      (i / m.subPagesPerFrame))[i % m.subPagesPerFrame]?).getD (zeroPage m))) := by
  obtain ⟨key, obj, hk, hobj, hs, -⟩ := h.base
  have hseek := hs hf
  obtain ⟨hspf, -⟩ := hasFrames_iff.mp hf
  have hframe : i / m.subPagesPerFrame < (m.frameTable gid).length := by
    rw [hseek.length, lt_divCeil_iff hspf]
    exact hbase
  have hentry := List.getElem?_eq_getElem hframe
  have hstart : ¬ (m.groupPageNums gid).length < i / m.subPagesPerFrame * m.subPagesPerFrame := by
    have := Nat.div_mul_le_self i m.subPagesPerFrame
    omega
  have hover := h.overFrames (i / m.subPagesPerFrame)
  unfold rangeRead fetchFrame
  simp only [hentry]
  unfold GroupContent.frame
  cases hl : (m.overrides gid).lookup (i / m.subPagesPerFrame) with
  | some ovr =>
    rw [hl] at hover
    obtain ⟨od, os, hod, hos, hho, hsz⟩ := hover
    have hopen : cfg.decodeSeekableSubchunk (aadOverrideFrame gid (i / m.subPagesPerFrame)) od =
        .ok os.flatten :=
      hho.opens.openFrame (by rw [length_flatten_of_uniform hho.uniform]; exact hsz)
    simp only [Backend.getPageGroup, hod, ok_bind, hopen, if_neg hstart, hos,
      framePage_flatten hps hho.uniform]
  | none =>
    rw [hl] at hover
    have hnone : ct.overFrames (i / m.subPagesPerFrame) = none := hover
    obtain ⟨hle, hop⟩ := hseek.frame _ _ hentry
    have hkey := Manifest.getElem?_pageGroupKeys hk
    have hrange := Backend.rangeGet_eq hobj hle
    have hub := hseek.uniform.block m.subPagesPerFrame (i / m.subPagesPerFrame)
    have hopen : cfg.decodeSeekableSubchunk (aadPageGroup gid)
        ((obj.drop (m.frameTable gid)[i / m.subPagesPerFrame].offset).take
          (m.frameTable gid)[i / m.subPagesPerFrame].len) =
            .ok (block m.subPagesPerFrame (i / m.subPagesPerFrame) ct.base).flatten := by
      refine hop.openFrame ?_
      rw [hseek.length_frame]
      refine le_trans (Nat.mul_le_mul_right _ ?_) (le_trans (Nat.le_add_left _ 8) h.size)
      omega
    simp only [hkey, hrange, ok_bind, Option.map_some, hopen, if_neg hstart, hnone,
      framePage_flatten hps hub]

theorem HoldsGroup.rangeRead_ok (h : HoldsGroup cfg m b gid ct) (hps : 0 < m.pageSize)
    (hf : m.hasFrames gid = true) {i : Nat} (hi : i < (m.groupPageNums gid).length)
    (hbase : i < ct.base.length) {data : Bytes} (hpage : ct.page m.subPagesPerFrame i = some data) :
    rangeRead cfg m b gid i = .ok (some data) := by
  obtain ⟨hspf, -⟩ := hasFrames_iff.mp hf
  have hslot : (ct.frame m.subPagesPerFrame (i / m.subPagesPerFrame))[i % m.subPagesPerFrame]? =
      some data := by
    unfold GroupContent.page at hpage
    rw [if_pos hspf] at hpage
    unfold GroupContent.frame
    cases ho : ct.overFrames (i / m.subPagesPerFrame) with
    | some os => rw [ho] at hpage; exact hpage
    | none =>
      rw [ho] at hpage
      rw [getElem?_block_div hspf]
      exact hpage
  rw [h.rangeRead_eq hps hf hi (lt_of_le_of_lt (Nat.div_mul_le_self _ _) hbase), hslot]
  rfl

/-! ### Overrides, frame by frame -/

/-- What the overrides named in `fs` make of the page at slot `i`. -/
def overlay (m : Manifest) (ct : GroupContent) (fs : List Nat) (i : Nat) (below : Option Bytes) :
    Option Bytes :=
  if i / m.subPagesPerFrame ∈ fs then
    (ct.overFrames (i / m.subPagesPerFrame)).bind (·[i % m.subPagesPerFrame]?)
  else below

/-- One more override covers exactly the slots of its frame. -/
theorem overlay_append {fs : List Nat} {f i : Nat} {below : Option Bytes} :
    overlay m ct (fs ++ [f]) i below =
      if i / m.subPagesPerFrame = f then
        (ct.overFrames f).bind (·[i % m.subPagesPerFrame]?)
      else overlay m ct fs i below := by
  unfold overlay
  by_cases hf : i / m.subPagesPerFrame = f
  · subst hf; simp
  · simp [hf]

theorem mem_block_slot {gp : List Nat} (hnd : gp.Nodup) {k f i p : Nat} (hk : 0 < k)
    (hp : gp[i]? = some p) (hmem : p ∈ block k f gp) : i / k = f := by
  obtain ⟨j, hj⟩ := List.mem_iff_getElem?.mp hmem
  rw [getElem?_block] at hj
  split at hj
  · rename_i hjk
    obtain ⟨hlt, he⟩ := List.getElem?_eq_some_iff.mp hp
    obtain ⟨hlt', he'⟩ := List.getElem?_eq_some_iff.mp hj
    have : i = f * k + j := (List.Nodup.getElem_inj_iff hnd).mp (he.trans he'.symm)
    rw [this, Nat.mul_comm, Nat.mul_add_div hk, Nat.div_eq_of_lt hjk, Nat.add_zero]
  · cases hj

/-- Installing an override's frame stores its bytes in the frame's slots and nothing else. -/
theorem install_frame {c : PageMap} {f i p : Nat} {os : List Bytes} (hps : 0 < m.pageSize)
    (hspf : 0 < m.subPagesPerFrame) (hnd : (m.groupPageNums gid).Nodup)
    (hu : Uniform m.pageSize os)
    (hcov : min m.subPagesPerFrame ((m.groupPageNums gid).length - f * m.subPagesPerFrame) ≤ os.length)
    (hp : (m.groupPageNums gid)[i]? = some p) :
    c.install (frameInstall m gid f os.flatten) p =
      if i / m.subPagesPerFrame = f then os[i % m.subPagesPerFrame]? else c p := by
  have hk := length_block m.subPagesPerFrame f (m.groupPageNums gid)
  have hnd' : (block m.subPagesPerFrame f (m.groupPageNums gid)).Nodup :=
    (hnd.sublist (List.drop_sublist _ _)).sublist (List.take_sublist _ _)
  have hle : (block m.subPagesPerFrame f (m.groupPageNums gid)).length * m.pageSize ≤
      os.flatten.length := by
    rw [length_flatten_of_uniform hu, hk]
    exact Nat.mul_le_mul_right _ hcov
  unfold frameInstall
  simp only [if_pos hle]
  by_cases hif : i / m.subPagesPerFrame = f
  · subst hif
    have hslot : (block m.subPagesPerFrame (i / m.subPagesPerFrame)
        (m.groupPageNums gid))[i % m.subPagesPerFrame]? = some p := by
      rw [getElem?_block_div hspf]; exact hp
    have hlt := (List.getElem?_eq_some_iff.mp hslot).1
    have hbuf : (os.flatten.take ((block m.subPagesPerFrame (i / m.subPagesPerFrame)
        (m.groupPageNums gid)).length * m.pageSize)).length / m.pageSize =
          (block m.subPagesPerFrame (i / m.subPagesPerFrame) (m.groupPageNums gid)).length := by
      rw [List.length_take, Nat.min_eq_left hle, Nat.mul_div_cancel _ hps]
    rw [PageMap.install_scatter hnd' hslot, if_pos (by rw [hbuf]; exact hlt), if_pos rfl,
      block_take_flatten hu hlt (by omega), List.getElem?_eq_getElem]
  · rw [if_neg hif, PageMap.install_scatter_of_notMem]
    exact fun hmem => hif (mem_block_slot hnd hspf hp hmem)

theorem HoldsGroup.override (h : HoldsGroup cfg m b gid ct) {f : Nat} {ovr : SubframeOverride}
    (hl : (m.overrides gid).lookup f = some ovr) :
    ∃ data os, b.getPageGroup ovr.key = some data ∧ ct.overFrames f = some os ∧
      Uniform m.pageSize os ∧
      cfg.decodeSeekableSubchunk (aadOverrideFrame gid f) data = .ok os.flatten := by
  have hover := h.overFrames f
  rw [hl] at hover
  obtain ⟨data, os, hd, hos, hho, hsz⟩ := hover
  refine ⟨data, os, hd, hos, hho.uniform, hho.opens.openFrame ?_⟩
  rw [length_flatten_of_uniform hho.uniform]
  exact hsz

theorem lookup_of_mem_entries {ov : Sigma fun _ : Nat => SubframeOverride}
    (h : ov ∈ (m.overrides gid).entries) : (m.overrides gid).lookup ov.1 = some ov.2 :=
  AList.mem_lookup_iff.mpr (by simpa using h)

/-! ### The local path -/

/-- The cache after the local path installed base and overrides. -/
theorem HoldsGroup.localOverrides_ok (h : HoldsGroup cfg m b gid ct) (hps : 0 < m.pageSize)
    (hspf : 0 < m.subPagesPerFrame) (hnd : (m.groupPageNums gid).Nodup)
    (hov : ∀ f os, ct.overFrames f = some os → OverrideAgrees m gid ct f os) (base : PageMap) :
    ∃ c, localOverrides cfg m b gid base = .ok c ∧
      ∀ i p, (m.groupPageNums gid)[i]? = some p →
        c p = overlay m ct ((m.overrides gid).entries.map (·.1)) i (base p) := by
  unfold localOverrides
  rw [if_pos hspf]
  refine foldlM_ok (P := fun (ys : List (Sigma fun _ : Nat => SubframeOverride)) (c : PageMap) =>
    ∀ i p, (m.groupPageNums gid)[i]? = some p →
      c p = overlay m ct (ys.map (·.1)) i (base p)) ?_ ?_
  · intro i p _
    simp [overlay]
  · intro ys ov c hmem hc
    obtain ⟨data, os, hd, hos, hu, hopen⟩ := h.override (lookup_of_mem_entries hmem)
    have ha := hov ov.1 os hos
    refine ⟨c.install (frameInstall m gid ov.1 os.flatten), ?_, fun i p hp => ?_⟩
    · unfold localOverride
      simp only [hd, hopen, if_neg (Nat.not_lt.mpr ha.start)]
    · rw [install_frame hps hspf hnd hu ha.covers hp, List.map_append, List.map_singleton,
        overlay_append, hos, hc i p hp]
      rfl

/-- All overrides applied, the page is the image's. -/
theorem HoldsGroup.overlay_all (h : HoldsGroup cfg m b gid ct) (hspf : 0 < m.subPagesPerFrame)
    (i : Nat) :
    overlay m ct ((m.overrides gid).entries.map (·.1)) i ct.base[i]? =
      ct.page m.subPagesPerFrame i := by
  unfold overlay GroupContent.page
  rw [if_pos hspf]
  have hover := h.overFrames (i / m.subPagesPerFrame)
  cases hl : (m.overrides gid).lookup (i / m.subPagesPerFrame) with
  | some ovr =>
    rw [hl] at hover
    obtain ⟨_, os, _, hos, _⟩ := hover
    have hmem : i / m.subPagesPerFrame ∈ (m.overrides gid).entries.map (·.1) :=
      AList.mem_keys.mp (AList.lookup_isSome.mp (by rw [hl]; rfl))
    rw [if_pos hmem, hos]
    rfl
  | none =>
    rw [hl] at hover
    have hnone : ct.overFrames (i / m.subPagesPerFrame) = none := hover
    have hmem : i / m.subPagesPerFrame ∉ (m.overrides gid).entries.map (·.1) :=
      fun hm => AList.lookup_eq_none.mp hl (AList.mem_keys.mpr hm)
    rw [if_neg hmem, hnone]

/-- What `GroupAgrees` says about the decode of the base object. -/
theorem GroupAgrees.decodes (h : GroupAgrees m gid ct) :
    FitsCap m gid ct.base ∧
      (m.groupPageNums gid).length ≤ (decodedPages m gid ct.base).length := by
  refine ⟨fun hf => ?_, ?_⟩
  · obtain ⟨h1, h2⟩ := h.seekable hf
    rw [Nat.min_eq_left h2]
    unfold CodecConfig.frameCap
    split
    · rename_i h0
      refine le_trans (Nat.mul_le_mul_right _ h1) ?_
      rw [h0]; exact Nat.zero_le _
    · exact Nat.mul_le_mul_right _ h1
  · unfold decodedPages
    split
    · rename_i hf
      rw [List.length_take]
      have := h.seekable hf
      have := h.covered
      omega
    · exact h.covered

/-- The decoded pages of a group that agrees start with its base pages. -/
theorem GroupAgrees.decoded_slot (h : GroupAgrees m gid ct) {i : Nat}
    (hi : i < (m.groupPageNums gid).length) : (decodedPages m gid ct.base)[i]? = ct.base[i]? := by
  unfold decodedPages
  split
  · rename_i hf
    have := h.seekable hf
    exact List.getElem?_take_of_lt (by omega)
  · rfl

theorem HoldsGroup.localRead_ok (h : HoldsGroup cfg m b gid ct) (ha : GroupAgrees m gid ct)
    (hps : 0 < m.pageSize) (hnd : (m.groupPageNums gid).Nodup) {p i : Nat} (hpc : p < m.pageCount)
    (hloc : m.pageLocation p = some ⟨gid, i⟩) (hp : (m.groupPageNums gid)[i]? = some p)
    {data : Bytes} (hpage : ct.page m.subPagesPerFrame i = some data) :
    localRead cfg m b p = .ok data := by
  obtain ⟨raw, hraw, hdec, -⟩ := h.decode hps
  obtain ⟨hcap, hlen⟩ := ha.decodes
  have hi : i < (m.groupPageNums gid).length := (List.getElem?_eq_some_iff.mp hp).1
  have hu := h.uniform_decoded
  have hbase : PageMap.empty.install (PageMap.scatter m.pageSize (m.groupPageNums gid)
      (decodedPages m gid ct.base).flatten) p = ct.base[i]? := by
    rw [PageMap.install_scatter hnd hp, length_flatten_of_uniform hu, Nat.mul_div_cancel _ hps,
      if_pos (by omega), block_flatten hu (by omega), ← ha.decoded_slot hi,
      List.getElem?_eq_getElem (by omega)]
  unfold localRead
  simp only [if_neg (Nat.not_le.mpr hpc), hloc, hraw, hdec hcap]
  by_cases hspf : 0 < m.subPagesPerFrame
  · obtain ⟨c, hc, hslots⟩ := h.localOverrides_ok hps hspf hnd (ha.overrides hspf)
      (PageMap.empty.install (PageMap.scatter m.pageSize (m.groupPageNums gid)
        (decodedPages m gid ct.base).flatten))
    simp only [hc, ok_bind, PageMap.readPresent]
    rw [hslots i p hp, hbase, h.overlay_all hspf, hpage]
  · simp only [localOverrides, if_neg hspf, ok_bind, PageMap.readPresent]
    have hb : ct.base[i]? = some data := by simpa [GroupContent.page, hspf] using hpage
    rw [hbase, hb]

/-! ### The prefetch worker -/

/-- What the worker asks of the override at `f` where the group lists `len` pages and the buffer has
`total`: it starts inside the group, covers its frame, and the buffer reaches the frame's end. -/
structure OverrideFits (m : Manifest) (len f : Nat) (os : List Bytes) (total : Nat) : Prop where
  start : f * m.subPagesPerFrame ≤ len
  covers : min m.subPagesPerFrame (len - f * m.subPagesPerFrame) ≤ os.length
  inside : f * m.subPagesPerFrame + min m.subPagesPerFrame (len - f * m.subPagesPerFrame) ≤ total

theorem OverrideAgrees.fits {f : Nat} {os : List Bytes} (h : OverrideAgrees m gid ct f os) {total : Nat}
    (htotal : (m.groupPageNums gid).length ≤ total) :
    OverrideFits m (m.groupPageNums gid).length f os total := by
  have hstart := h.start
  exact ⟨hstart, h.covers, by omega⟩

theorem HoldsGroup.prefetchOverride_ok (h : HoldsGroup cfg m b gid ct)
    (hspf : 0 < m.subPagesPerFrame) {f : Nat} {ovr : SubframeOverride}
    (hl : (m.overrides gid).lookup f = some ovr) {D : List Bytes}
    (hfits : ∀ os, ct.overFrames f = some os →
      OverrideFits m (m.groupPageNums gid).length f os D.length)
    (hu : Uniform m.pageSize D) :
    ∃ D', prefetchOverride cfg m b gid m.pageSize D.flatten f ovr = .ok D'.flatten ∧
      Uniform m.pageSize D' ∧ D'.length = D.length ∧
      ∀ i < (m.groupPageNums gid).length,
        D'[i]? = if i / m.subPagesPerFrame = f then
          (ct.overFrames f).bind (·[i % m.subPagesPerFrame]?) else D[i]? := by
  obtain ⟨data, os, hd, hos, huo, hopen⟩ := h.override hl
  obtain ⟨hstart, hcov, hin⟩ := hfits os hos
  -- `n` pages in the group, the override's frame starts at slot `s` and has `k` of them
  generalize hn : (m.groupPageNums gid).length = n at hstart hcov hin ⊢
  generalize hs : f * m.subPagesPerFrame = s at hstart hcov hin
  generalize hk : min m.subPagesPerFrame (n - s) = k at hcov hin
  have hend : min (s + m.subPagesPerFrame) n - s = k := by omega
  have huk := huo.take k
  have hlk : (os.take k).length = k := by rw [List.length_take]; omega
  refine ⟨splice D s (os.take k), ?_, hu.splice huk s, length_splice (by omega), fun i hi => ?_⟩
  · unfold prefetchOverride
    simp only [hd, hopen, ok_bind, hn, hs]
    rw [if_neg (by omega), hend, if_neg, take_flatten_of_uniform huo, splice_flatten hu huk]
    rw [length_flatten_of_uniform huo, length_flatten_of_uniform hu, not_or, Nat.not_lt, Nat.not_lt,
      ← Nat.add_mul]
    exact ⟨Nat.mul_le_mul_right _ hcov, Nat.mul_le_mul_right _ hin⟩
  · rw [getElem?_splice (by omega), hlk, hos, Option.bind_some]
    have hdm := Nat.div_add_mod i m.subPagesPerFrame
    have hmod := Nat.mod_lt i hspf
    by_cases hif : i / m.subPagesPerFrame = f
    · have hi' : i = s + i % m.subPagesPerFrame := by
        rw [← hs, ← hif, Nat.mul_comm]; exact hdm.symm
      rw [if_pos (by omega), if_pos hif, List.getElem?_take_of_lt (by omega)]
      congr 1
      omega
    · rw [if_neg, if_neg hif]
      rintro ⟨h1, h2⟩
      refine hif (Nat.div_eq_of_lt_le (by omega) ?_)
      rw [Nat.add_mul, hs, Nat.one_mul]
      omega

/-- An override that does not fit ends the job. -/
theorem HoldsGroup.prefetchOverride_fits (h : HoldsGroup cfg m b gid ct) (hps : 0 < m.pageSize)
    {f : Nat} {ovr : SubframeOverride} (hl : (m.overrides gid).lookup f = some ovr) {os : List Bytes}
    (hos : ct.overFrames f = some os) {total : Nat} {d d' : Bytes} (hlen : d.length = total * m.pageSize)
    (hok : prefetchOverride cfg m b gid m.pageSize d f ovr = .ok d') :
    OverrideFits m (m.groupPageNums gid).length f os total ∧ d'.length = total * m.pageSize := by
  obtain ⟨data, os', hd, hos', huo, hopen⟩ := h.override hl
  obtain rfl : os = os' := Option.some.inj (hos.symm.trans hos')
  unfold prefetchOverride at hok
  simp only [hd, hopen, ok_bind] at hok
  generalize hn : (m.groupPageNums gid).length = n at hok ⊢
  split at hok
  · cases hok
  · rename_i hstart
    split at hok
    · cases hok
    · rename_i hfits
      rw [not_or, Nat.not_lt, Nat.not_lt, length_flatten_of_uniform huo, hlen, ← Nat.add_mul] at hfits
      have hcov := Nat.le_of_mul_le_mul_right hfits.1 hps
      have hin := Nat.le_of_mul_le_mul_right hfits.2 hps
      cases hok
      refine ⟨⟨by omega, by omega, by omega⟩, ?_⟩
      have hlt : (os.flatten.take ((min (f * m.subPagesPerFrame + m.subPagesPerFrame) n -
          f * m.subPagesPerFrame) * m.pageSize)).length = (min (f * m.subPagesPerFrame +
            m.subPagesPerFrame) n - f * m.subPagesPerFrame) * m.pageSize := by
        rw [List.length_take, length_flatten_of_uniform huo, Nat.min_eq_left hfits.1]
      rw [length_splice (by rw [hlt, hlen, ← Nat.add_mul]; exact hfits.2), hlen]

/-- The worker's buffer after all overrides. -/
theorem HoldsGroup.prefetchOverrides_ok (h : HoldsGroup cfg m b gid ct)
    (hspf : 0 < m.subPagesPerFrame) {D : List Bytes}
    (hfits : ∀ f os, ct.overFrames f = some os →
      OverrideFits m (m.groupPageNums gid).length f os D.length)
    (hu : Uniform m.pageSize D) :
    ∃ d, prefetchOverrides cfg m b gid m.pageSize D.flatten = .ok d ∧
      ∃ D', d = D'.flatten ∧ Uniform m.pageSize D' ∧ D'.length = D.length ∧
        ∀ i < (m.groupPageNums gid).length,
          D'[i]? = overlay m ct ((m.overrides gid).entries.map (·.1)) i D[i]? := by
  unfold prefetchOverrides
  rw [if_pos hspf]
  refine foldlM_ok (P := fun (ys : List (Sigma fun _ : Nat => SubframeOverride)) (d : Bytes) =>
    ∃ D', d = D'.flatten ∧ Uniform m.pageSize D' ∧ D'.length = D.length ∧
      ∀ i < (m.groupPageNums gid).length, D'[i]? = overlay m ct (ys.map (·.1)) i D[i]?) ?_ ?_
  · exact ⟨D, rfl, hu, rfl, fun i _ => by simp [overlay]⟩
  · rintro ys ov _ hmem ⟨D1, rfl, hu1, hl1, h1⟩
    obtain ⟨D2, hok, hu2, hl2, h2⟩ := h.prefetchOverride_ok hspf (lookup_of_mem_entries hmem)
      (D := D1) (fun os hos => hl1 ▸ hfits ov.1 os hos) hu1
    refine ⟨D2.flatten, hok, D2, rfl, hu2, hl2.trans hl1, fun i hi => ?_⟩
    rw [h2 i hi, List.map_append, List.map_singleton, overlay_append, h1 i hi]

/-- The worker looks at the frame table only, which tells the format as well. -/
theorem prefetchDecode_eq (hfmt : m.subPagesPerFrame = 0 → m.frameTable gid = []) (data : Bytes) :
    prefetchDecode cfg m gid data = decodeBase cfg m gid data := by
  unfold prefetchDecode decodeBase
  have hiff : m.frameTable gid ≠ [] ↔ m.hasFrames gid = true := by
    rw [hasFrames_iff]
    refine ⟨fun hne => ⟨?_, hne⟩, fun hne => hne.2⟩
    exact Nat.pos_of_ne_zero fun h0 => hne (hfmt h0)
  simp only [hiff]

theorem HoldsGroup.prefetchRead_ok (h : HoldsGroup cfg m b gid ct) (ha : GroupAgrees m gid ct)
    (hps : 0 < m.pageSize) (hfmt : m.subPagesPerFrame = 0 → m.frameTable gid = [])
    (hnd : (m.groupPageNums gid).Nodup) {p i : Nat} (hpc : p < m.pageCount)
    (hloc : m.pageLocation p = some ⟨gid, i⟩) (hp : (m.groupPageNums gid)[i]? = some p)
    {data : Bytes} (hpage : ct.page m.subPagesPerFrame i = some data) :
    prefetchRead cfg m b p = .ok data := by
  obtain ⟨raw, hraw, hdec, -⟩ := h.decode hps
  obtain ⟨hcap, hlen⟩ := ha.decodes
  have hi : i < (m.groupPageNums gid).length := (List.getElem?_eq_some_iff.mp hp).1
  have hu := h.uniform_decoded
  have hsame : prefetchDecode cfg m gid raw = decodeBase cfg m gid raw := prefetchDecode_eq hfmt raw
  have hover : ∃ D', prefetchOverrides cfg m b gid m.pageSize (decodedPages m gid ct.base).flatten =
      .ok (List.flatten D') ∧
      Uniform m.pageSize D' ∧ (m.groupPageNums gid).length ≤ D'.length ∧ D'[i]? = some data := by
    by_cases hspf : 0 < m.subPagesPerFrame
    · obtain ⟨_, hok, D', rfl, hu', hl', hslots⟩ :=
        h.prefetchOverrides_ok hspf
          (fun f os hos => (ha.overrides hspf f os hos).fits hlen) hu
      refine ⟨D', hok, hu', hl' ▸ hlen, ?_⟩
      rw [hslots i hi, ha.decoded_slot hi, h.overlay_all hspf, hpage]
    · refine ⟨_, by rw [prefetchOverrides, if_neg hspf], hu, hlen, ?_⟩
      rw [ha.decoded_slot hi]
      simpa [GroupContent.page, hspf] using hpage
  obtain ⟨D', hok, hu', hl', hdata⟩ := hover
  obtain ⟨hi', hdata'⟩ := List.getElem?_eq_some_iff.mp hdata
  have hbuf : (D'.flatten.take ((m.groupPageNums gid).length * m.pageSize)).length / m.pageSize =
      (m.groupPageNums gid).length := by
    rw [List.length_take, length_flatten_of_uniform hu',
      Nat.min_eq_left (Nat.mul_le_mul_right _ hl'), Nat.mul_div_cancel _ hps]
  unfold prefetchRead prefetchInstall
  simp only [if_neg (Nat.not_le.mpr hpc), hloc, hraw, hsame, hdec hcap, ok_bind, hok,
    Nat.min_eq_right hlen, List.take_length, PageMap.readPresent]
  rw [PageMap.install_scatter hnd hp, if_pos (by rw [hbuf]; exact hi),
    block_take_flatten hu' hi hl', hdata']

/-! ### What a successful read says about the overrides -/

theorem mem_entries_of_lookup {f : Nat} {ovr : SubframeOverride}
    (hl : (m.overrides gid).lookup f = some ovr) :
    (⟨f, ovr⟩ : Sigma fun _ : Nat => SubframeOverride) ∈ (m.overrides gid).entries := by
  simpa using AList.mem_lookup_iff.mp hl

/-- The local path slices the group at the frame's start, so a successful read has it in range. -/
theorem HoldsGroup.override_start (h : HoldsGroup cfg m b gid ct) (hps : 0 < m.pageSize)
    (hspf : 0 < m.subPagesPerFrame) {p i f : Nat} (hpc : p < m.pageCount)
    (hloc : m.pageLocation p = some ⟨gid, i⟩) (hcap : FitsCap m gid ct.base)
    {ovr : SubframeOverride} (hl : (m.overrides gid).lookup f = some ovr) {data : Bytes}
    (hread : localRead cfg m b p = .ok data) :
    f * m.subPagesPerFrame ≤ (m.groupPageNums gid).length := by
  by_contra hlt
  obtain ⟨raw, hraw, hdec, -⟩ := h.decode hps
  obtain ⟨od, os, hd, -, -, hopen⟩ := h.override hl
  obtain ⟨e, he⟩ := foldlM_error_of_mem (mem_entries_of_lookup hl)
    (f := fun c ov => localOverride cfg m b gid c ov.1 ov.2)
    (fun c => ⟨.panic, by simp only [localOverride, hd, hopen, if_pos (Nat.not_le.mp hlt)]⟩)
    (PageMap.empty.install (PageMap.scatter m.pageSize (m.groupPageNums gid)
      (decodedPages m gid ct.base).flatten))
  unfold localRead at hread
  simp only [if_neg (Nat.not_le.mpr hpc), hloc, hraw, hdec hcap, localOverrides, if_pos hspf, he,
    error_bind] at hread
  cases hread

/-- The worker gives up on an override shorter than its frame. -/
theorem HoldsGroup.override_covers (h : HoldsGroup cfg m b gid ct) (hps : 0 < m.pageSize)
    (hfmt : m.subPagesPerFrame = 0 → m.frameTable gid = []) (hspf : 0 < m.subPagesPerFrame)
    {p i f : Nat} (hpc : p < m.pageCount) (hloc : m.pageLocation p = some ⟨gid, i⟩)
    (hcap : FitsCap m gid ct.base) {ovr : SubframeOverride}
    (hl : (m.overrides gid).lookup f = some ovr) {os : List Bytes} (hos : ct.overFrames f = some os)
    (hstart : f * m.subPagesPerFrame ≤ (m.groupPageNums gid).length) {data : Bytes}
    (hread : prefetchRead cfg m b p = .ok data) :
    min m.subPagesPerFrame ((m.groupPageNums gid).length - f * m.subPagesPerFrame) ≤ os.length := by
  by_contra hlt
  obtain ⟨raw, hraw, hdec, -⟩ := h.decode hps
  obtain ⟨od, os', hd, hos', huo, hopen⟩ := h.override hl
  obtain rfl : os = os' := Option.some.inj (hos.symm.trans hos')
  have hshort : os.flatten.length <
      (min (f * m.subPagesPerFrame + m.subPagesPerFrame) (m.groupPageNums gid).length -
        f * m.subPagesPerFrame) * m.pageSize := by
    rw [length_flatten_of_uniform huo]
    exact Nat.mul_lt_mul_of_pos_right (by omega) hps
  obtain ⟨e, he⟩ := foldlM_error_of_mem (mem_entries_of_lookup hl)
    (f := fun d ov => prefetchOverride cfg m b gid m.pageSize d ov.1 ov.2)
    (fun d => ⟨_, by
      simp only [prefetchOverride, hd, hopen, ok_bind]
      rw [if_neg (by omega), if_pos (.inl hshort)]⟩)
    (decodedPages m gid ct.base).flatten
  unfold prefetchRead prefetchInstall at hread
  simp only [if_neg (Nat.not_le.mpr hpc), hloc, hraw, prefetchDecode_eq hfmt, hdec hcap, ok_bind,
    prefetchOverrides, if_pos hspf, he, error_bind] at hread
  cases hread

end Group

/-! ### Agreement -/

section Agreement

variable {cfg : CodecConfig} {m : Manifest} {b : Backend} {ct : Nat → GroupContent}

theorem paths_agree_of_groups (hr : Represents cfg m b ct)
    (ha : ∀ gid, Touched m gid → GroupAgrees m gid (ct gid)) : AllPathsAgree cfg m b ct := by
  intro p hpc
  cases hloc : m.pageLocation p with
  | none =>
    simp [coldRead, scanRead, localRead, prefetchRead, image, hloc, Nat.not_le.mpr hpc]
  | some loc =>
    obtain ⟨gid, i⟩ := loc
    have htouch : Touched m gid := ⟨p, i, hpc, hloc⟩
    have hg := hr.holds gid htouch
    have hga := ha gid htouch
    have hp := hr.located p gid i hloc
    have hi : i < (m.groupPageNums gid).length := (List.getElem?_eq_some_iff.mp hp).1
    obtain ⟨data, hpage⟩ := Option.isSome_iff_exists.mp (hr.defined p gid i hpc hloc)
    have himg : image m ct p = data := by simp [image, hloc, hpage]
    obtain ⟨hcap, hlen⟩ := hga.decodes
    obtain ⟨d, hd, hfull⟩ := hg.fullGroupRead_ok hr.pageSize_pos (hr.nodup gid) hp hcap hlen
    -- an override of this page's frame repeats the base, so the whole-group path sees the image
    have hdd : d = data := by
      unfold GroupContent.page at hpage
      split at hpage
      · rename_i os hos
        split at hos
        · rename_i hspf
          have hsame := (hga.overrides hspf _ os hos).same p i hpc hloc rfl
          exact Option.some.inj (hd.symm.trans (hsame.symm.trans hpage))
        · cases hos
      · exact Option.some.inj (hd.symm.trans hpage)
    subst hdd
    rw [himg]
    refine ⟨?_, ?_, hg.localRead_ok hga hr.pageSize_pos (hr.nodup gid) hpc hloc hp hpage,
      hg.prefetchRead_ok hga hr.pageSize_pos (fun h0 => hr.legacy h0 gid) (hr.nodup gid) hpc hloc hp
        hpage⟩
    · unfold coldRead
      simp only [if_neg (Nat.not_le.mpr hpc), hloc]
      split
      · rename_i hf
        have hbase := (List.getElem?_eq_some_iff.mp hd).1
        rw [hg.rangeRead_ok hr.pageSize_pos hf hi hbase hpage]
        rfl
      · exact hfull
    · simp only [scanRead, if_neg (Nat.not_le.mpr hpc), hloc, hfull]

theorem groups_agree_of_paths (hr : Represents cfg m b ct) (hall : AllPathsAgree cfg m b ct)
    {gid : Nat} (ht : Touched m gid) : GroupAgrees m gid (ct gid) := by
  obtain ⟨p, i, hpc, hloc⟩ := ht
  have hg := hr.holds gid ⟨p, i, hpc, hloc⟩
  have hp := hr.located p gid i hloc
  have hi : i < (m.groupPageNums gid).length := (List.getElem?_eq_some_iff.mp hp).1
  have hscan : ∀ q j, q < m.pageCount → m.pageLocation q = some ⟨gid, j⟩ →
      fullGroupRead cfg m b gid q = .ok (image m ct q) := by
    intro q j hq hlq
    have := (hall q hq).2.1
    simpa only [scanRead, if_neg (Nat.not_le.mpr hq), hlq] using this
  obtain ⟨hcap, hlen⟩ := hg.fullGroupRead_inv hr.pageSize_pos (by omega) (hscan p i hpc hloc)
  have hn : 0 < (m.groupPageNums gid).length := by omega
  have hcov : (m.groupPageNums gid).length ≤ (ct gid).base.length ∧
      (m.hasFrames gid = true → (m.groupPageNums gid).length ≤ m.pageCount) := by
    unfold decodedPages at hlen
    split at hlen
    · rw [List.length_take] at hlen
      exact ⟨by omega, fun _ => by omega⟩
    · rename_i hf
      exact ⟨hlen, fun h => absurd h hf⟩
  refine ⟨hcov.1, fun hf => ⟨?_, hcov.2 hf⟩, fun hspf f os hos => ?_⟩
  · have hfit := hcap hf
    rw [Nat.min_eq_left (hcov.2 hf)] at hfit
    unfold CodecConfig.frameCap at hfit
    rw [if_neg (Nat.mul_ne_zero (by omega) (by have := hr.pageSize_pos; omega))] at hfit
    exact Nat.le_of_mul_le_mul_right hfit hr.pageSize_pos
  · -- the override is an entry the local path and the worker both go through
    have hover := hg.overFrames f
    rw [hos] at hover
    cases hl : (m.overrides gid).lookup f with
    | none => rw [hl] at hover; cases hover
    | some ovr =>
      have hstart := hg.override_start hr.pageSize_pos hspf hpc hloc hcap hl (hall p hpc).2.2.1
      refine ⟨hstart, ?_, ?_⟩
      · exact hg.override_covers hr.pageSize_pos (hr.legacy · gid) hspf hpc hloc hcap hl hos hstart
          (hall p hpc).2.2.2
      · intro q j hq hlq hj
        obtain ⟨d, hd', hfull⟩ := hg.fullGroupRead_ok hr.pageSize_pos (hr.nodup gid)
          (hr.located q gid j hlq) hcap hlen
        obtain ⟨x, hx⟩ := Option.isSome_iff_exists.mp (hr.defined q gid j hq hlq)
        have himg : image m ct q = x := by simp [image, hlq, hx]
        have hxd : x = d := by
          rw [← himg]
          exact Except.ok.inj ((hscan q j hq hlq).symm.trans hfull)
        unfold GroupContent.page at hx
        rw [if_pos hspf, hj, hos] at hx
        rw [hd', ← hxd]
        exact hx

/-- The four read paths deliver the image of every page below `page_count` if and only if every
group with such a page agrees. -/
theorem read_paths_agree_iff (hr : Represents cfg m b ct) :
    AllPathsAgree cfg m b ct ↔ ∀ gid, Touched m gid → GroupAgrees m gid (ct gid) :=
  ⟨fun hall _ ht => groups_agree_of_paths hr hall ht, paths_agree_of_groups hr⟩

end Agreement

/-! ### Two pages in one group, the second overridden -/

namespace Example

/-- A page filled with one byte. -/
def page (x : UInt8) : Bytes := List.replicate 512 x

theorem length_page (x : UInt8) : (page x).length = 512 := List.length_replicate ..

/-- A cache that holds page 0, filled with `x`. -/
def firstPage (x : UInt8) : DiskCache 512 :=
  .ofPages (fun p => if p = 0 then some (page x) else none) fun p d h => by
    split at h
    · cases h
      exact length_page x
    · cases h

/-- The base object of group 0: pages 0 and 1, one page a frame. -/
def group : Bytes × List FrameEntry :=
  CodecConfig.plain.encodePageGroupSeekable (aadPageGroup 0) 512 1 [some (page 1), some (page 2)]

/-- Version 2 of an imported database of two pages after a flush replaced frame 1. -/
def manifest : Manifest where
  version := 2
  pageCount := 2
  pageSize := 512
  pagesPerGroup := 2
  pageGroupKeys := [some (.pageGroup 0 1)]
  frameTables := [group.2]
  subPagesPerFrame := 1
  subframeOverrides := [AList.insert 1 ⟨.overrideFrame 0 1 2, ⟨0, 512⟩⟩ ∅]
  strategy := .bTreeAware
  groupPages := [[0, 1]]
  pageIndex := Manifest.pageIndexOf [[0, 1]]

/-- The objects; the override holds a page filled with `x`. -/
def backend (x : UInt8) : Backend where
  objects := fun
    | .pageGroup 0 1 => some group.1
    | .overrideFrame 0 1 2 =>
      some (CodecConfig.plain.encodeOverrideFrame (aadOverrideFrame 0 1) 512 [(1, page x)])
    | _ => none

/-- What they hold. -/
def content (x : UInt8) : Nat → GroupContent := fun _ =>
  { base := [some (page 1), some (page 2)].map (CodecConfig.padPage 512)
    overFrames := fun f => if f = 1 then some [CodecConfig.padPage 512 (some (page x))] else none }

theorem group_eq_zero {p gid i : Nat} (h : manifest.pageLocation p = some ⟨gid, i⟩) : gid = 0 := by
  have hslot : ([[0, 1]].getD gid [])[i]? = some p := Manifest.pageIndexOf_sound h
  cases gid with
  | zero => rfl
  | succ g => simp at hslot

theorem holdsGroup (x : UInt8) : HoldsGroup .plain manifest (backend x) 0 (content x 0) where
  base := ⟨.pageGroup 0 1, group.1, rfl, rfl,
    fun _ => CodecConfig.encodePageGroupSeekable_holds Codecs.plain_lawful _ (by
      intro data hd
      simp only [List.mem_cons, Option.some.injEq, List.not_mem_nil, or_false] at hd
      rcases hd with rfl | rfl <;> exact (length_page _).le),
    fun h => absurd h (by decide)⟩
  size := show 8 + 2 * 512 ≤ 2 ^ 30 by decide
  overFrames := by
    intro f
    by_cases hf : f = 1
    · subst hf
      refine ⟨_, _, rfl, rfl, CodecConfig.encodeOverrideFrame_holds Codecs.plain_lawful _ ?_, ?_⟩
      · intro q hq
        rw [List.mem_singleton.mp hq]
        exact (length_page x).le
      · show 1 * 512 ≤ 2 ^ 30
        decide
    · have hl : (manifest.overrides 0).lookup f = none := AList.lookup_insert_ne hf
      rw [hl]
      exact if_neg hf

theorem represents (x : UInt8) : Represents .plain manifest (backend x) (content x) where
  pageSize_pos := by decide
  located := fun p gid i h => Manifest.pageIndexOf_sound h
  nodup := by
    intro gid
    cases gid with
    | zero => decide
    | succ g => exact List.nodup_nil
  legacy := fun h => absurd h (by decide)
  holds := by
    rintro gid ⟨p, i, -, hloc⟩
    obtain rfl := group_eq_zero hloc
    exact holdsGroup x
  defined := by
    intro p gid i hp hloc
    obtain rfl := group_eq_zero hloc
    have hslot : [0, 1][i]? = some p := Manifest.pageIndexOf_sound hloc
    have hi : i < 2 := (List.getElem?_eq_some_iff.mp hslot).1
    obtain rfl | rfl : i = 0 ∨ i = 1 := by omega
    · rfl
    · rfl

end Example

/-- An override that repeats the base: all paths agree. -/
theorem repeated_override_agrees :
    Represents .plain Example.manifest (Example.backend 2) (Example.content 2) ∧
      AllPathsAgree .plain Example.manifest (Example.backend 2) (Example.content 2) := by
  refine ⟨Example.represents 2, (read_paths_agree_iff (Example.represents 2)).mpr ?_⟩
  rintro gid ⟨p, i, hp, hloc⟩
  obtain rfl := Example.group_eq_zero hloc
  refine ⟨by decide, fun _ => by decide, fun _ f os hos => ?_⟩
  obtain ⟨rfl, rfl⟩ : f = 1 ∧ os = [CodecConfig.padPage 512 (some (Example.page 2))] := by
    by_cases hf : f = 1
    · subst hf
      exact ⟨rfl, (Option.some.inj hos).symm⟩
    · exact absurd (hos.symm.trans (if_neg hf)) (by simp)
  refine ⟨by decide, by decide, fun q j _ hq hj => ?_⟩
  have hslot : [0, 1][j]? = some q := Manifest.pageIndexOf_sound hq
  have hj1 : j = 1 := by simpa [Example.manifest] using hj
  subst hj1
  rfl

/-- An override that changes page 1: the whole-group path still delivers the base bytes. -/
theorem changed_override_disagrees :
    Represents .plain Example.manifest (Example.backend 3) (Example.content 3) ∧
      ¬ AllPathsAgree .plain Example.manifest (Example.backend 3) (Example.content 3) := by
  refine ⟨Example.represents 3, fun hall => ?_⟩
  have ht : Touched Example.manifest 0 := ⟨1, 1, by decide, rfl⟩
  have hga := groups_agree_of_paths (Example.represents 3) hall ht
  have hsame := (hga.overrides (by decide) 1 _ rfl).same 1 1 (by decide) rfl rfl
  revert hsame
  decide

end Turbolite.ReadPaths
