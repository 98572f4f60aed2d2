import Turbolite.ColdRead

/-!
# Turbolite.PathBytes

What each of the four read paths makes of a slot of a stored group, exactly: the frame path opens one
frame, the other three decode the whole base object, under a cap that the number of pages the group lists
gives, and treat the overrides each in its own way. `HoldsGroup.read_iff` says so for a manifest as it
is; the number of pages the group lists and the page count are arguments of `Delivers`, so that it also
says what is left after they change.
-/

namespace Turbolite.ReadPaths

open Blocks Results

/-- The ways a page that is not cached is read: one frame, a planned scan, local mode, and the prefetch
worker. -/
inductive Path where
  | frames
  | scan
  | localGroups
  | prefetch
  deriving DecidableEq, Repr

/-- The read of a page on an empty cache. -/
def Path.read (cfg : CodecConfig) : Path → Manifest → Backend → Nat → IoResult Bytes
  | .frames => coldRead cfg
  | .scan => scanRead cfg
  | .localGroups => localRead cfg
  | .prefetch => prefetchRead cfg

/-! ### Whole objects -/

section Whole

variable (m : Manifest) (gid len count : Nat) (ct : GroupContent)

/-- The pages a decode of the base object returns where the group lists `len` pages. -/
def wholePages : List Bytes :=
  if m.hasFrames gid then ct.base.take (min len count) else ct.base

/-- No frame of the base object exceeds the cap of that decode. -/
def WholeFits : Prop :=
  m.hasFrames gid = true → min m.subPagesPerFrame ct.base.length * m.pageSize ≤
    CodecConfig.frameCap m.pageSize (min len count)

/-- The overrides the local path applies: those that cover their frame. -/
def coveringFrames (f : Nat) : Option (List Bytes) :=
  (ct.overFrames f).filter fun os =>
    decide (min m.subPagesPerFrame (len - f * m.subPagesPerFrame) ≤ os.length)

/-- The path reads slot `i` of the group as `v`. -/
def Delivers (i : Nat) (v : Bytes) : Path → Prop
  | .frames =>
    if m.hasFrames gid then slotBytes m gid ct i = some v
    else len ≤ ct.base.length ∧ ct.base[i]? = some v
  | .scan =>
    WholeFits m gid len count ct ∧ len ≤ (wholePages m gid len count ct).length ∧
      ct.base[i]? = some v
  | .localGroups =>
    WholeFits m gid len count ct ∧
      (0 < m.subPagesPerFrame → ∀ f os, ct.overFrames f = some os → f * m.subPagesPerFrame ≤ len) ∧
      GroupContent.page ⟨wholePages m gid len count ct, coveringFrames m len ct⟩
        m.subPagesPerFrame i = some v
  | .prefetch =>
    WholeFits m gid len count ct ∧
      (0 < m.subPagesPerFrame → ∀ f os, ct.overFrames f = some os →
        OverrideFits m len f os (wholePages m gid len count ct).length) ∧
      GroupContent.page ⟨wholePages m gid len count ct, ct.overFrames⟩ m.subPagesPerFrame i = some v

end Whole

section Group

variable {cfg : CodecConfig} {m : Manifest} {b : Backend} {gid : Nat} {ct : GroupContent} {p i : Nat}
  {v : Bytes}

/-- With the pages the group lists, these are the pages of a decode. -/
theorem wholePages_self : wholePages m gid (m.groupPageNums gid).length m.pageCount ct =
    decodedPages m gid ct.base := rfl

theorem readPresent_eq_ok {c : PageMap} {message : String} :
    c.readPresent p message = .ok v ↔ c p = some v := by
  unfold PageMap.readPresent
  split
  · simp [*]
  · simp [*]

theorem HoldsGroup.frames_iff (h : HoldsGroup cfg m b gid ct) (hps : 0 < m.pageSize)
    (hnd : (m.groupPageNums gid).Nodup) (hpc : p < m.pageCount)
    (hloc : m.pageLocation p = some ⟨gid, i⟩) (hp : (m.groupPageNums gid)[i]? = some p) :
    coldRead cfg m b p = .ok v ↔
      Delivers m gid (m.groupPageNums gid).length m.pageCount ct i v .frames := by
  rw [h.coldRead_slot hps hnd hpc hloc hp]
  show _ ↔ if m.hasFrames gid then slotBytes m gid ct i = some v
    else (m.groupPageNums gid).length ≤ ct.base.length ∧ ct.base[i]? = some v
  split
  · rfl
  · rename_i hf
    simp [slotBytes, hf]

/-- The scan reads the base object, and all of it has to be there. -/
theorem HoldsGroup.scan_iff (h : HoldsGroup cfg m b gid ct) (hps : 0 < m.pageSize)
    (hnd : (m.groupPageNums gid).Nodup) (hpc : p < m.pageCount)
    (hloc : m.pageLocation p = some ⟨gid, i⟩) (hp : (m.groupPageNums gid)[i]? = some p) :
    scanRead cfg m b p = .ok v ↔
      Delivers m gid (m.groupPageNums gid).length m.pageCount ct i v .scan := by
  have hscan : scanRead cfg m b p = fullGroupRead cfg m b gid p := by
    simp only [scanRead, if_neg (Nat.not_le.mpr hpc), hloc]
  have hpos : 0 < (m.groupPageNums gid).length :=
    Nat.lt_of_le_of_lt (Nat.zero_le i) (List.getElem?_eq_some_iff.mp hp).1
  rw [hscan]
  constructor
  · intro hr
    obtain ⟨hcap, hlen⟩ := h.fullGroupRead_inv hps hpos hr
    obtain ⟨data, hdata, hr'⟩ := h.fullGroupRead_ok hps hnd hp hcap hlen
    rw [hr'] at hr
    cases hr
    exact ⟨hcap, hlen, hdata⟩
  · rintro ⟨hcap, hlen, hv⟩
    obtain ⟨data, hdata, hr⟩ := h.fullGroupRead_ok hps hnd hp hcap hlen
    rw [hr]
    rw [hdata] at hv
    exact congrArg Except.ok (Option.some.inj hv)

/-! ### Local mode -/

/-- The pages the local path installs from the base object. -/
theorem HoldsGroup.localBase (h : HoldsGroup cfg m b gid ct) (hps : 0 < m.pageSize)
    (hnd : (m.groupPageNums gid).Nodup) (hp : (m.groupPageNums gid)[i]? = some p) :
    PageMap.empty.install (PageMap.scatter m.pageSize (m.groupPageNums gid)
      (decodedPages m gid ct.base).flatten) p = (decodedPages m gid ct.base)[i]? := by
  have hu := h.uniform_decoded
  have hi := (List.getElem?_eq_some_iff.mp hp).1
  rw [PageMap.install_scatter hnd hp, length_flatten_of_uniform hu, Nat.mul_div_cancel _ hps]
  split
  · rename_i hlt
    rw [block_flatten hu (by omega), List.getElem?_eq_getElem (by omega)]
  · rename_i hge
    rw [List.getElem?_eq_none (by omega)]
    rfl

/-- What the overrides of the frames in `fs` make of slot `i` in local mode. -/
def patched (m : Manifest) (len : Nat) (ct : GroupContent) (fs : List Nat) (i : Nat)
    (below : Option Bytes) : Option Bytes :=
  if i / m.subPagesPerFrame ∈ fs then
    match coveringFrames m len ct (i / m.subPagesPerFrame) with
    | some os => os[i % m.subPagesPerFrame]?
    | none => below
  else below

theorem patched_append {len : Nat} {fs : List Nat} {f : Nat} {below : Option Bytes} :
    patched m len ct (fs ++ [f]) i below =
      if i / m.subPagesPerFrame = f then
        match coveringFrames m len ct f with
        | some os => os[i % m.subPagesPerFrame]?
        | none => below
      else patched m len ct fs i below := by
  unfold patched
  by_cases hf : i / m.subPagesPerFrame = f
  · subst hf
    simp
  · simp [hf]

/-- An override that does not cover its frame patches nothing. -/
theorem patched_of_uncovered {len : Nat} {fs : List Nat} {below : Option Bytes}
    (hnone : coveringFrames m len ct (i / m.subPagesPerFrame) = none) :
    patched m len ct fs i below = below := by
  unfold patched
  simp [hnone]

theorem coveringFrames_eq {len f : Nat} {os : List Bytes} (hos : ct.overFrames f = some os) :
    coveringFrames m len ct f =
      if min m.subPagesPerFrame (len - f * m.subPagesPerFrame) ≤ os.length then some os else none := by
  unfold coveringFrames
  rw [hos]
  split
  · rename_i hcov
    simp only [Option.filter_some, hcov, decide_true, if_true]
  · rename_i hcov
    simp only [Option.filter_some, hcov, decide_false, Bool.false_eq_true, if_false]

/-- A frame that is not covered is not installed. -/
theorem frameInstall_short {f : Nat} {os : List Bytes} (hps : 0 < m.pageSize)
    (hu : Uniform m.pageSize os)
    (hcov : ¬ min m.subPagesPerFrame ((m.groupPageNums gid).length - f * m.subPagesPerFrame) ≤
      os.length) : frameInstall m gid f os.flatten = [] := by
  unfold frameInstall
  refine if_neg ?_
  rw [length_flatten_of_uniform hu, length_block]
  exact fun hle => hcov (Nat.le_of_mul_le_mul_right hle hps)

/-- The cache after the local path went through the overrides. -/
theorem HoldsGroup.localOverrides_eq (h : HoldsGroup cfg m b gid ct) (hps : 0 < m.pageSize)
    (hspf : 0 < m.subPagesPerFrame) (hnd : (m.groupPageNums gid).Nodup)
    (hstart : ∀ f os, ct.overFrames f = some os →
      f * m.subPagesPerFrame ≤ (m.groupPageNums gid).length) (base : PageMap) :
    ∃ c, localOverrides cfg m b gid base = .ok c ∧
      ∀ i p, (m.groupPageNums gid)[i]? = some p →
        c p = patched m (m.groupPageNums gid).length ct ((m.overrides gid).entries.map (·.1)) i
          (base p) := by
  unfold localOverrides
  rw [if_pos hspf]
  refine foldlM_ok (P := fun (ys : List (Sigma fun _ : Nat => SubframeOverride)) (c : PageMap) =>
    ∀ i p, (m.groupPageNums gid)[i]? = some p →
      c p = patched m (m.groupPageNums gid).length ct (ys.map (·.1)) i (base p)) ?_ ?_
  · intro i p _
    simp [patched]
  · intro ys ov c hmem hc
    obtain ⟨data, os, hd, hos, hu, hopen⟩ := h.override (lookup_of_mem_entries hmem)
    refine ⟨c.install (frameInstall m gid ov.1 os.flatten), ?_, fun i p hp => ?_⟩
    · unfold localOverride
      simp only [hd, hopen, if_neg (Nat.not_lt.mpr (hstart ov.1 os hos))]
    · rw [List.map_append, List.map_singleton, patched_append, coveringFrames_eq hos]
      by_cases hcov : min m.subPagesPerFrame
          ((m.groupPageNums gid).length - ov.1 * m.subPagesPerFrame) ≤ os.length
      · rw [install_frame hps hspf hnd hu hcov hp, if_pos hcov, hc i p hp]
      · rw [frameInstall_short hps hu hcov, if_neg hcov, PageMap.install_of_notMem List.not_mem_nil,
          hc i p hp]
        split
        · rename_i hif
          exact patched_of_uncovered (by rw [hif, coveringFrames_eq hos, if_neg hcov])
        · rfl

theorem HoldsGroup.mem_overrides (h : HoldsGroup cfg m b gid ct) {f : Nat} {os : List Bytes}
    (hos : ct.overFrames f = some os) :
    ∃ ovr, (m.overrides gid).lookup f = some ovr ∧
      (⟨f, ovr⟩ : Sigma fun _ : Nat => SubframeOverride) ∈ (m.overrides gid).entries := by
  have hover := h.overFrames f
  rw [hos] at hover
  cases hl : (m.overrides gid).lookup f with
  | none =>
    rw [hl] at hover
    cases hover
  | some ovr => exact ⟨ovr, rfl, mem_entries_of_lookup hl⟩

/-- All overrides that cover their frames are applied. -/
theorem HoldsGroup.patched_all (h : HoldsGroup cfg m b gid ct) (hspf : 0 < m.subPagesPerFrame)
    (len : Nat) (pages : List Bytes) (i : Nat) :
    patched m len ct ((m.overrides gid).entries.map (·.1)) i pages[i]? =
      GroupContent.page ⟨pages, coveringFrames m len ct⟩ m.subPagesPerFrame i := by
  unfold patched GroupContent.page
  rw [if_pos hspf]
  split
  · rfl
  · rename_i hnot
    have hnone : coveringFrames m len ct (i / m.subPagesPerFrame) = none := by
      unfold coveringFrames
      cases hos : ct.overFrames (i / m.subPagesPerFrame) with
      | none => rfl
      | some os =>
        obtain ⟨ovr, -, hmem⟩ := h.mem_overrides hos
        exact absurd (List.mem_map_of_mem (f := (·.1)) hmem) hnot
    simp only [hnone]

/-- The local path decodes the base object and applies the overrides that cover their frames. -/
theorem HoldsGroup.local_iff (h : HoldsGroup cfg m b gid ct) (hps : 0 < m.pageSize)
    (hnd : (m.groupPageNums gid).Nodup) (hpc : p < m.pageCount)
    (hloc : m.pageLocation p = some ⟨gid, i⟩) (hp : (m.groupPageNums gid)[i]? = some p) :
    localRead cfg m b p = .ok v ↔
      Delivers m gid (m.groupPageNums gid).length m.pageCount ct i v .localGroups := by
  obtain ⟨raw, hraw, hdec, herr⟩ := h.decode hps
  have hbase := h.localBase hps hnd hp
  by_cases hcap : FitsCap m gid ct.base
  · by_cases hspf : 0 < m.subPagesPerFrame
    · constructor
      · intro hr
        have hstart : ∀ f os, ct.overFrames f = some os →
            f * m.subPagesPerFrame ≤ (m.groupPageNums gid).length := by
          intro f os hos
          obtain ⟨ovr, hl, -⟩ := h.mem_overrides hos
          exact h.override_start hps hspf hpc hloc hcap hl hr
        obtain ⟨c, hc, hslots⟩ := h.localOverrides_eq hps hspf hnd hstart
          (PageMap.empty.install (PageMap.scatter m.pageSize (m.groupPageNums gid)
            (decodedPages m gid ct.base).flatten))
        refine ⟨hcap, fun _ => hstart, ?_⟩
        simp only [localRead, if_neg (Nat.not_le.mpr hpc), hloc, hraw, hdec hcap, hc, ok_bind] at hr
        rw [readPresent_eq_ok, hslots i p hp, hbase] at hr
        exact (h.patched_all hspf _ _ i).symm.trans hr
      · rintro ⟨-, hstart, hv⟩
        obtain ⟨c, hc, hslots⟩ := h.localOverrides_eq hps hspf hnd (hstart hspf)
          (PageMap.empty.install (PageMap.scatter m.pageSize (m.groupPageNums gid)
            (decodedPages m gid ct.base).flatten))
        simp only [localRead, if_neg (Nat.not_le.mpr hpc), hloc, hraw, hdec hcap, hc, ok_bind]
        rw [readPresent_eq_ok, hslots i p hp, hbase]
        exact (h.patched_all hspf _ _ i).trans hv
    · simp only [localRead, if_neg (Nat.not_le.mpr hpc), hloc, hraw, hdec hcap, localOverrides,
        if_neg hspf, ok_bind]
      rw [readPresent_eq_ok, hbase]
      constructor
      · intro hv
        exact ⟨hcap, fun hpos => absurd hpos hspf,
          by simpa [GroupContent.page, hspf, wholePages_self] using hv⟩
      · rintro ⟨-, -, hv⟩
        simpa [GroupContent.page, hspf, wholePages_self] using hv
  · obtain ⟨e, he⟩ := herr hcap
    simp only [localRead, if_neg (Nat.not_le.mpr hpc), hloc, hraw, he]
    exact iff_of_false (fun hv => by cases hv) fun hv => hcap hv.1

/-! ### The prefetch worker -/

/-- The buffer the worker cuts its pages from. -/
theorem HoldsGroup.prefetch_buffer (h : HoldsGroup cfg m b gid ct) {D : List Bytes}
    (hu : Uniform m.pageSize D)
    (hfits : 0 < m.subPagesPerFrame → ∀ f os, ct.overFrames f = some os →
      OverrideFits m (m.groupPageNums gid).length f os D.length) :
    ∃ D', prefetchOverrides cfg m b gid m.pageSize D.flatten = .ok (List.flatten D') ∧
      Uniform m.pageSize D' ∧ D'.length = D.length ∧
      ∀ i < (m.groupPageNums gid).length,
        D'[i]? = GroupContent.page ⟨D, ct.overFrames⟩ m.subPagesPerFrame i := by
  by_cases hspf : 0 < m.subPagesPerFrame
  · obtain ⟨_, hok, D', rfl, hu', hl', hslots⟩ := h.prefetchOverrides_ok hspf (hfits hspf) hu
    refine ⟨D', hok, hu', hl', fun i hi => (hslots i hi).trans ?_⟩
    unfold overlay GroupContent.page
    rw [if_pos hspf]
    cases hos : ct.overFrames (i / m.subPagesPerFrame) with
    | some os =>
      obtain ⟨ovr, -, hmem⟩ := h.mem_overrides hos
      rw [if_pos (List.mem_map_of_mem (f := (·.1)) hmem)]
      rfl
    | none =>
      refine if_neg fun hmem => ?_
      obtain ⟨ov, hov, hkey⟩ := List.mem_map.mp hmem
      obtain ⟨_, os, -, hos', -⟩ := h.override (lookup_of_mem_entries hov)
      rw [hkey, hos] at hos'
      cases hos'
  · refine ⟨D, by rw [prefetchOverrides, if_neg hspf], hu, rfl, fun i _ => ?_⟩
    simp [GroupContent.page, hspf]

/-- The worker decodes the base object, and every override has to fit. -/
theorem HoldsGroup.prefetch_iff (h : HoldsGroup cfg m b gid ct) (hps : 0 < m.pageSize)
    (hfmt : m.subPagesPerFrame = 0 → m.frameTable gid = []) (hnd : (m.groupPageNums gid).Nodup)
    (hpc : p < m.pageCount) (hloc : m.pageLocation p = some ⟨gid, i⟩)
    (hp : (m.groupPageNums gid)[i]? = some p) :
    prefetchRead cfg m b p = .ok v ↔
      Delivers m gid (m.groupPageNums gid).length m.pageCount ct i v .prefetch := by
  obtain ⟨raw, hraw, hdec, herr⟩ := h.decode hps
  have hi : i < (m.groupPageNums gid).length := (List.getElem?_eq_some_iff.mp hp).1
  have hu := h.uniform_decoded
  have hsame : prefetchDecode cfg m gid raw = decodeBase cfg m gid raw := prefetchDecode_eq hfmt raw
  by_cases hcap : FitsCap m gid ct.base
  · -- with overrides that fit, the read is the slot of the patched buffer
    have hread : (0 < m.subPagesPerFrame → ∀ f os, ct.overFrames f = some os →
          OverrideFits m (m.groupPageNums gid).length f os (decodedPages m gid ct.base).length) →
        (prefetchRead cfg m b p = .ok v ↔ GroupContent.page
          ⟨decodedPages m gid ct.base, ct.overFrames⟩ m.subPagesPerFrame i = some v) := by
      intro hfits
      obtain ⟨D', hok, hu', hl', hslots⟩ := h.prefetch_buffer hu hfits
      rw [← hslots i hi]
      simp only [prefetchRead, prefetchInstall, if_neg (Nat.not_le.mpr hpc), hloc, hraw, hsame,
        hdec hcap, ok_bind, hok, readPresent_eq_ok]
      rw [← hl']
      generalize hk : min D'.length (m.groupPageNums gid).length = k
      have hbuf : (D'.flatten.take (k * m.pageSize)).length / m.pageSize = k := by
        rw [List.length_take, length_flatten_of_uniform hu',
          Nat.min_eq_left (Nat.mul_le_mul_right _ (by omega)), Nat.mul_div_cancel _ hps]
      -- the buffer may end before the slots of the group do, and the install with it
      rcases Nat.lt_or_ge i k with hik | hik
      · have hslot : ((m.groupPageNums gid).take k)[i]? = some p := by
          rw [List.getElem?_take_of_lt hik]
          exact hp
        rw [PageMap.install_scatter (hnd.sublist (List.take_sublist _ _)) hslot,
          if_pos (by rw [hbuf]; exact hik), block_take_flatten hu' hik (by omega),
          List.getElem?_eq_getElem (by omega)]
      · have hout : p ∉ (m.groupPageNums gid).take k := by
          intro hmem
          obtain ⟨j, hj⟩ := List.mem_iff_getElem?.mp hmem
          rw [List.getElem?_take] at hj
          split at hj
          · rename_i hjk
            obtain ⟨hj1, hj2⟩ := List.getElem?_eq_some_iff.mp hj
            obtain ⟨hp1, hp2⟩ := List.getElem?_eq_some_iff.mp hp
            have hij : j = i := (List.Nodup.getElem_inj_iff hnd).mp (hj2.trans hp2.symm)
            omega
          · cases hj
        rw [PageMap.install_scatter_of_notMem hout, List.getElem?_eq_none (by omega)]
        rfl
    constructor
    · intro hr
      -- a read that succeeds has visited every override, so each one fits
      have hfits : 0 < m.subPagesPerFrame → ∀ f os, ct.overFrames f = some os →
          OverrideFits m (m.groupPageNums gid).length f os (decodedPages m gid ct.base).length := by
        intro hspf f os hos
        obtain ⟨ovr, hl, hmem⟩ := h.mem_overrides hos
        have hr' := hr
        simp only [prefetchRead, prefetchInstall, if_neg (Nat.not_le.mpr hpc), hloc, hraw, hsame,
          hdec hcap, ok_bind, prefetchOverrides, if_pos hspf] at hr'
        obtain ⟨ws, hws, -⟩ := bind_eq_ok.mp hr'
        obtain ⟨d, hfold, -⟩ := bind_eq_ok.mp hws
        have hvisits := foldlM_visits
          (I := fun d : Bytes => d.length = (decodedPages m gid ct.base).length * m.pageSize)
          (length_flatten_of_uniform hu) (fun s x t hx hs hstep => by
            obtain ⟨-, os', -, hos', -⟩ := h.override (lookup_of_mem_entries hx)
            exact (h.prefetchOverride_fits hps (lookup_of_mem_entries hx) hos' hs hstep).2) hfold
        obtain ⟨s, t, hs, hstep⟩ := hvisits _ hmem
        exact (h.prefetchOverride_fits hps hl hos hs hstep).1
      exact ⟨hcap, hfits, (hread hfits).mp hr⟩
    · rintro ⟨-, hfits, hv⟩
      exact (hread hfits).mpr hv
  · -- over the cap nothing is decoded
    obtain ⟨e, he⟩ := herr hcap
    simp only [prefetchRead, prefetchInstall, if_neg (Nat.not_le.mpr hpc), hloc, hraw, hsame, he,
      error_bind]
    exact iff_of_false (fun hv => by cases hv) fun hv => hcap hv.1

/-! ### Any path -/

/-- A path reads a page of a stored group as what it makes of the page's slot. -/
theorem HoldsGroup.read_iff (h : HoldsGroup cfg m b gid ct) (hps : 0 < m.pageSize)
    (hfmt : m.subPagesPerFrame = 0 → m.frameTable gid = []) (hnd : (m.groupPageNums gid).Nodup)
    (hpc : p < m.pageCount) (hloc : m.pageLocation p = some ⟨gid, i⟩)
    (hp : (m.groupPageNums gid)[i]? = some p) (path : Path) :
    path.read cfg m b p = .ok v ↔
      Delivers m gid (m.groupPageNums gid).length m.pageCount ct i v path := by
  cases path with
  | frames => exact h.frames_iff hps hnd hpc hloc hp
  | scan => exact h.scan_iff hps hnd hpc hloc hp
  | localGroups => exact h.local_iff hps hnd hpc hloc hp
  | prefetch => exact h.prefetch_iff hps hfmt hnd hpc hloc hp

/-- Without an object that decodes, no path reads a page but that of single frames. -/
theorem read_undecoded (hfmt : m.subPagesPerFrame = 0 → m.frameTable gid = [])
    (hpc : p < m.pageCount) (hloc : m.pageLocation p = some ⟨gid, i⟩)
    (hbad : ∀ data, (m.groupKey gid).bind b.getPageGroup = some data →
      ∃ e, decodeBase cfg m gid data = .error e) (path : Path)
    (hf : path = .frames → m.hasFrames gid = false) (v : Bytes) : path.read cfg m b p ≠ .ok v := by
  have hfull : fullGroupRead cfg m b gid p ≠ .ok v := by
    intro hr
    obtain ⟨ws, hws, hread⟩ := bind_eq_ok.mp hr
    unfold fullGroupInstall at hws
    split at hws
    · cases hws
      cases readPresent_eq_ok.mp hread
    · rename_i data hdata
      obtain ⟨e, he⟩ := hbad data hdata
      rw [he] at hws
      cases hws
  cases path with
  | frames => simpa [Path.read, coldRead, Nat.not_le.mpr hpc, hloc, hf rfl] using hfull
  | scan => simpa [Path.read, scanRead, Nat.not_le.mpr hpc, hloc] using hfull
  | localGroups =>
    simp only [Path.read, localRead, if_neg (Nat.not_le.mpr hpc), hloc]
    split
    · intro hr
      cases hr
    · rename_i data hdata
      obtain ⟨e, he⟩ := hbad data hdata
      simp only [he]
      intro hr
      cases hr
  | prefetch =>
    simp only [Path.read, prefetchRead, prefetchInstall, if_neg (Nat.not_le.mpr hpc), hloc]
    split
    · intro hr
      cases hr
    · rename_i data hdata
      obtain ⟨e, he⟩ := hbad data hdata
      simp only [prefetchDecode_eq hfmt, he, error_bind]
      intro hr
      cases hr

end Group

/-- A page that some path reads from a group: the group's objects are stored, and the path delivers the
bytes of its slot. -/
theorem Stored.slot_of_read {cfg : CodecConfig} {m : Manifest} {b : Backend} {ct : Nat → GroupContent}
    (hc : cfg.codecs.Lawful) (h : Stored cfg m b ct) {p gid i : Nat} (hpc : p < m.pageCount)
    (hloc : m.pageLocation p = some ⟨gid, i⟩) {path : Path} {v : Bytes}
    (hread : path.read cfg m b p = .ok v) : HoldsGroup cfg m b gid (ct gid) ∧
      Delivers m gid (m.groupPageNums gid).length m.pageCount (ct gid) i v path := by
  cases hk : m.groupKey gid with
  | none =>
    have hf : m.hasFrames gid = false := by simp [Manifest.hasFrames, h.unkeyed gid hk]
    exact absurd hread (read_undecoded (h.legacy · gid) hpc hloc (by simp [hk]) path (fun _ => hf) v)
  | some key =>
    rcases h.holds gid (by rw [hk]; rfl) with hg | hg
    · exact ⟨hg, (hg.read_iff h.pageSize_pos (h.legacy · gid)
        (Manifest.nodup_groupPageNums h.nodup gid) hpc hloc (h.indexed.located hloc) path).mp hread⟩
    · have hf : m.hasFrames gid = false := by simp [Manifest.hasFrames, hg.frameTable]
      refine absurd hread (read_undecoded (h.legacy · gid) hpc hloc (fun data hdata => ?_) path
        (fun _ => hf) v)
      obtain ⟨key', hk', hobj⟩ := hg.object
      simp only [hk', Option.bind_some, Backend.getPageGroup, hobj, Option.some.injEq] at hdata
      subst hdata
      cases hdec : decodeBase cfg m gid [] with
      | error e => exact ⟨e, rfl⟩
      | ok out =>
        simp only [decodeBase, hf, Bool.false_eq_true, if_false] at hdec
        exact absurd hdec (CodecConfig.decodeBulk_nil hc _ _ _)

end Turbolite.ReadPaths
