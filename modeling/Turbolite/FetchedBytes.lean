import Turbolite.Fetches

/-!
# Turbolite.FetchedBytes

What the fetches install, page by page, when the objects of the group hold its content. The range path
and the worker install the content, overrides applied, or nothing; the whole-group path installs the
base object; the first fetch of a handle installs the content where its overrides cover their frames.
-/

namespace Turbolite

open Blocks Results

/-! ### Installed pages -/

namespace PageMap

theorem mem_scatter_inv {ps : Nat} {ns : List Nat} {data : Bytes} {w : Nat × Bytes}
    (h : w ∈ scatter ps ns data) :
    ∃ i, ns[i]? = some w.1 ∧ i < data.length / ps ∧ w.2 = block ps i data := by
  obtain ⟨⟨q, i⟩, hmem, rfl⟩ := List.mem_map.mp h
  rw [List.mem_zipIdx_iff_getElem?] at hmem
  obtain ⟨hi, -⟩ := List.getElem?_eq_some_iff.mp hmem
  have hlt : i < data.length / ps := by
    rw [List.length_take] at hi
    omega
  refine ⟨i, ?_, hlt, rfl⟩
  rw [List.getElem?_take_of_lt hlt] at hmem
  exact hmem

/-- After an install a page is as it was, or as one of the writes has it. -/
theorem install_cases (c : PageMap) (ws : List (Nat × Bytes)) (p : Nat) :
    (p ∉ ws.map (·.1) ∧ c.install ws p = c p) ∨ ∃ data, (p, data) ∈ ws ∧ c.install ws p = some data := by
  induction ws using List.reverseRecOn generalizing c with
  | nil => exact .inl ⟨List.not_mem_nil, rfl⟩
  | append_singleton ws w ih =>
    have hlast : c.install (ws ++ [w]) = Function.update (c.install ws) w.1 (some w.2) := by
      rw [install, List.foldl_append]
      rfl
    rw [hlast]
    by_cases hp : p = w.1
    · exact .inr ⟨w.2, by rw [hp]; simp, by rw [hp, Function.update_self]⟩
    · rw [Function.update_of_ne hp]
      rcases ih c with ⟨hnot, heq⟩ | ⟨data, hmem, heq⟩
      · refine .inl ⟨?_, heq⟩
        rw [List.map_append, List.mem_append, not_or]
        exact ⟨hnot, by simpa using hp⟩
      · exact .inr ⟨data, List.mem_append_left _ hmem, heq⟩

theorem install_append (c : PageMap) (ws vs : List (Nat × Bytes)) :
    c.install (ws ++ vs) = (c.install ws).install vs := List.foldl_append ..

end PageMap

namespace ReadPaths

variable {cfg : CodecConfig} {m : Manifest} {b : Backend} {gid : Nat} {ct : GroupContent}

/-! ### Which pages -/

theorem mem_pages_of_scatter {ps : Nat} {ns : List Nat} {data : Bytes} {w : Nat × Bytes}
    (h : w ∈ PageMap.scatter ps ns data) : w.1 ∈ ns := by
  obtain ⟨i, hi, -⟩ := PageMap.mem_scatter_inv h
  exact List.mem_of_getElem? hi

theorem mem_pages_of_frameInstall {f : Nat} {decompressed : Bytes} {w : Nat × Bytes}
    (h : w ∈ frameInstall m gid f decompressed) : w.1 ∈ m.groupPageNums gid := by
  unfold frameInstall at h
  dsimp only at h
  split at h
  · exact List.mem_of_mem_drop (List.mem_of_mem_take (mem_pages_of_scatter h))
  · cases h

theorem mem_pages_of_fullGroupInstall {ws : List (Nat × Bytes)}
    (hok : fullGroupInstall cfg m b gid = .ok ws) {w : Nat × Bytes} (hw : w ∈ ws) :
    w.1 ∈ m.groupPageNums gid := by
  unfold fullGroupInstall at hok
  split at hok
  · cases hok
    cases hw
  · obtain ⟨⟨pgCount, pgSize, pageData⟩, -, hrest⟩ := bind_eq_ok.mp hok
    dsimp only at hrest
    split at hrest
    · cases hrest
      cases hw
    · split at hrest
      · cases hrest
        exact mem_pages_of_scatter hw
      · cases hrest

theorem mem_pages_of_prefetchInstall {ws : List (Nat × Bytes)}
    (hok : prefetchInstall cfg m b gid = .ok ws) {w : Nat × Bytes} (hw : w ∈ ws) :
    w.1 ∈ m.groupPageNums gid := by
  unfold prefetchInstall at hok
  split at hok
  · cases hok
  · obtain ⟨⟨pgCount, pgSize, pageData⟩, -, hrest⟩ := bind_eq_ok.mp hok
    obtain ⟨out, -, hrest⟩ := bind_eq_ok.mp hrest
    cases hrest
    exact List.mem_of_mem_take (mem_pages_of_scatter hw)

theorem mem_pages_of_eagerInstall {ws : List (Nat × Bytes)} (hws : eagerInstall cfg m b = some ws)
    {w : Nat × Bytes} (hw : w ∈ ws) : w.1 ∈ m.groupPageNums 0 := by
  unfold eagerInstall at hws
  split at hws
  · cases hws
  · cases hws
    rcases List.mem_append.mp hw with hw | hw
    · unfold eagerBase at hw
      split at hw
      · exact mem_pages_of_scatter (List.mem_filter.mp hw).1
      · cases hw
    · split at hw
      · obtain ⟨ov, -, hov⟩ := List.mem_flatMap.mp hw
        unfold eagerOverride at hov
        split at hov
        · cases hov
        · split at hov
          · cases hov
          · exact mem_pages_of_frameInstall hov
      · cases hw

/-! ### One frame -/

/-- A frame the table lists opens to its pages, overrides applied. -/
theorem HoldsGroup.openFrame_ok (h : HoldsGroup cfg m b gid ct) (hf : m.hasFrames gid = true) {f : Nat}
    (hlt : f < (m.frameTable gid).length) :
    openFrame cfg m b gid f = .ok (some (ct.frame m.subPagesPerFrame f).flatten) ∧
      Uniform m.pageSize (ct.frame m.subPagesPerFrame f) := by
  obtain ⟨key, obj, hk, hobj, hs, -⟩ := h.base
  have hseek := hs hf
  have hentry := List.getElem?_eq_getElem hlt
  have hover := h.overFrames f
  unfold openFrame fetchFrame GroupContent.frame
  simp only [hentry]
  cases hl : (m.overrides gid).lookup f with
  | some ovr =>
    obtain ⟨data, os, hd, hos, hu, hopen⟩ := h.override hl
    simp only [hd, ok_bind, hopen, hos]
    exact ⟨trivial, hu⟩
  | none =>
    rw [hl] at hover
    have hnone : ct.overFrames f = none := hover
    obtain ⟨hle, hop⟩ := hseek.frame _ _ hentry
    have hkey := Manifest.getElem?_pageGroupKeys hk
    have hrange := Backend.rangeGet_eq hobj hle
    have hub := hseek.uniform.block m.subPagesPerFrame f
    have hopen : cfg.decodeSeekableSubchunk (aadPageGroup gid)
        ((obj.drop (m.frameTable gid)[f].offset).take (m.frameTable gid)[f].len) =
          .ok (block m.subPagesPerFrame f ct.base).flatten := by
      refine hop.openFrame ?_
      rw [hseek.length_frame]
      refine le_trans (Nat.mul_le_mul_right _ ?_) (le_trans (Nat.le_add_left _ 8) h.size)
      omega
    simp only [hkey, hrange, ok_bind, Option.map_some, hopen, hnone]
    exact ⟨trivial, hub⟩

/-- The page at a slot is the one of its frame. -/
theorem GroupContent.getElem?_frame (hspf : 0 < m.subPagesPerFrame) (i : Nat) :
    (ct.frame m.subPagesPerFrame (i / m.subPagesPerFrame))[i % m.subPagesPerFrame]? =
      ct.page m.subPagesPerFrame i := by
  unfold GroupContent.frame GroupContent.page
  rw [if_pos hspf]
  cases ct.overFrames (i / m.subPagesPerFrame) with
  | some os => rfl
  | none => exact getElem?_block_div hspf i _

theorem mem_frameInstall {f : Nat} {os : List Bytes} (hspf : 0 < m.subPagesPerFrame)
    (hps : 0 < m.pageSize) (hu : Uniform m.pageSize os) {w : Nat × Bytes}
    (hw : w ∈ frameInstall m gid f os.flatten) :
    ∃ i, (m.groupPageNums gid)[i]? = some w.1 ∧ i / m.subPagesPerFrame = f ∧
      os[i % m.subPagesPerFrame]? = some w.2 := by
  unfold frameInstall at hw
  dsimp only at hw
  split at hw
  · rename_i hle
    obtain ⟨j, hj, -, hdata⟩ := PageMap.mem_scatter_inv hw
    obtain ⟨hjlen, -⟩ := List.getElem?_eq_some_iff.mp hj
    rw [length_flatten_of_uniform hu] at hle
    have hos := Nat.le_of_mul_le_mul_right hle hps
    rw [getElem?_block] at hj
    split at hj
    · rename_i hjk
      have hdiv : (f * m.subPagesPerFrame + j) / m.subPagesPerFrame = f := by
        rw [Nat.mul_comm, Nat.mul_add_div hspf, Nat.div_eq_of_lt hjk, Nat.add_zero]
      have hmod : (f * m.subPagesPerFrame + j) % m.subPagesPerFrame = j := by
        rw [Nat.mul_comm, Nat.mul_add_mod, Nat.mod_eq_of_lt hjk]
      refine ⟨f * m.subPagesPerFrame + j, hj, hdiv, ?_⟩
      rw [hmod, hdata, block_take_flatten hu hjlen hos, List.getElem?_eq_getElem]
    · cases hj
  · cases hw

/-- What the range path installs is the content. -/
theorem HoldsGroup.mem_frameInstall (h : HoldsGroup cfg m b gid ct) (hf : m.hasFrames gid = true)
    (hps : 0 < m.pageSize) {f : Nat} {decompressed : Bytes}
    (hopen : openFrame cfg m b gid f = .ok (some decompressed)) {w : Nat × Bytes}
    (hw : w ∈ frameInstall m gid f decompressed) :
    ∃ i, (m.groupPageNums gid)[i]? = some w.1 ∧ ct.page m.subPagesPerFrame i = some w.2 := by
  obtain ⟨hspf, -⟩ := hasFrames_iff.mp hf
  have hlt : f < (m.frameTable gid).length := by
    by_contra hge
    rw [openFrame, List.getElem?_eq_none (Nat.not_lt.mp hge)] at hopen
    cases hopen
  obtain ⟨hok, hu⟩ := h.openFrame_ok hf hlt
  rw [hok] at hopen
  cases hopen
  obtain ⟨i, hi, rfl, hpage⟩ := ReadPaths.mem_frameInstall hspf hps hu hw
  exact ⟨i, hi, by rw [← GroupContent.getElem?_frame hspf]; exact hpage⟩

/-! ### The base object -/

/-- A decode that succeeds gives the pages. -/
theorem HoldsGroup.decodeBase_inv (h : HoldsGroup cfg m b gid ct) (hps : 0 < m.pageSize)
    {data pageData : Bytes} {pgCount pgSize : Nat}
    (hdata : (m.groupKey gid).bind b.getPageGroup = some data)
    (hdec : decodeBase cfg m gid data = .ok (pgCount, pgSize, pageData)) :
    pgCount = (decodedPages m gid ct.base).length ∧ pgSize = m.pageSize ∧
      pageData = (decodedPages m gid ct.base).flatten := by
  obtain ⟨data', hdata', hok, herr⟩ := h.decode hps
  rw [hdata] at hdata'
  cases hdata'
  by_cases hcap : FitsCap m gid ct.base
  · rw [hok hcap] at hdec
    cases hdec
    exact ⟨rfl, rfl, rfl⟩
  · obtain ⟨e, he⟩ := herr hcap
    rw [he] at hdec
    cases hdec

/-- The whole-group path installs the base object, whatever the overrides say. -/
theorem HoldsGroup.mem_fullGroupInstall (h : HoldsGroup cfg m b gid ct) (hps : 0 < m.pageSize)
    {ws : List (Nat × Bytes)} (hok : fullGroupInstall cfg m b gid = .ok ws) {w : Nat × Bytes}
    (hw : w ∈ ws) : ∃ i : Nat, (m.groupPageNums gid)[i]? = some w.1 ∧ ct.base[i]? = some w.2 := by
  obtain ⟨data, hdata, -⟩ := h.decode hps
  unfold fullGroupInstall at hok
  rw [hdata] at hok
  obtain ⟨⟨pgCount, pgSize, pageData⟩, hdec, hrest⟩ := bind_eq_ok.mp hok
  obtain ⟨-, -, rfl⟩ := h.decodeBase_inv hps hdata hdec
  dsimp only at hrest
  split at hrest
  · cases hrest
    cases hw
  · split at hrest
    · rename_i hle
      cases hrest
      obtain ⟨i, hi, -, hval⟩ := PageMap.mem_scatter_inv hw
      have hu := h.uniform_decoded
      rw [length_flatten_of_uniform hu] at hle
      have hlen := Nat.le_of_mul_le_mul_right hle hps
      have hilt := (List.getElem?_eq_some_iff.mp hi).1
      have hdecoded : (decodedPages m gid ct.base)[i]? = some w.2 := by
        rw [hval, block_take_flatten hu hilt hlen, List.getElem?_eq_getElem]
      exact ⟨i, hi, getElem?_decodedPages hdecoded⟩
    · cases hrest

/-! ### The worker -/

/-- An override the worker put into its buffer. -/
theorem HoldsGroup.prefetchOverride_inv (h : HoldsGroup cfg m b gid ct) (hps : 0 < m.pageSize)
    (hspf : 0 < m.subPagesPerFrame) {f : Nat} {ovr : SubframeOverride}
    (hl : (m.overrides gid).lookup f = some ovr) {D : List Bytes} (hu : Uniform m.pageSize D)
    {out : Bytes} (hok : prefetchOverride cfg m b gid m.pageSize D.flatten f ovr = .ok out) :
    ∃ D', out = D'.flatten ∧ Uniform m.pageSize D' ∧ D'.length = D.length ∧
      ∀ i < (m.groupPageNums gid).length, D'[i]? = if i / m.subPagesPerFrame = f then
        (ct.overFrames f).bind (·[i % m.subPagesPerFrame]?) else D[i]? := by
  obtain ⟨data, os, hd, hos, huo, hopen⟩ := h.override hl
  unfold prefetchOverride at hok
  simp only [hd, hopen, ok_bind] at hok
  -- `n` pages in the group, the override's frame starts at slot `s` and has `k` of them
  generalize (m.groupPageNums gid).length = n at hok ⊢
  generalize hs : f * m.subPagesPerFrame = s at hok
  split at hok
  · cases hok
  · rename_i hstart
    split at hok
    · cases hok
    · rename_i hfits
      cases hok
      rw [length_flatten_of_uniform huo, length_flatten_of_uniform hu, not_or, Nat.not_lt, Nat.not_lt,
        ← Nat.add_mul] at hfits
      generalize hk : min (s + m.subPagesPerFrame) n - s = k at hfits ⊢
      have hko := Nat.le_of_mul_le_mul_right hfits.1 hps
      have hkd := Nat.le_of_mul_le_mul_right hfits.2 hps
      have huk := huo.take k
      have hlk : (os.take k).length = k := by rw [List.length_take]; omega
      refine ⟨splice D s (os.take k), ?_, hu.splice huk s, length_splice (by omega), fun i hi => ?_⟩
      · rw [take_flatten_of_uniform huo, splice_flatten hu huk]
      · rw [getElem?_splice (by omega), hlk, hos, Option.bind_some]
        have hdm := Nat.div_add_mod i m.subPagesPerFrame
        have hmod := Nat.mod_lt i hspf
        by_cases hif : i / m.subPagesPerFrame = f
        · have hi' : i = s + i % m.subPagesPerFrame := by
            rw [← hs, ← hif, Nat.mul_comm]; exact hdm.symm
          rw [if_pos (by omega), if_pos hif, List.getElem?_take_of_lt (by omega)]
          congr 1
          omega
        · rw [if_neg, if_neg hif]
          rintro ⟨h1, h2⟩
          refine hif (Nat.div_eq_of_lt_le (by omega) ?_)
          rw [Nat.add_mul, hs, Nat.one_mul]
          omega

/-- The worker's buffer after the overrides it could all apply. -/
theorem HoldsGroup.prefetchOverrides_inv (h : HoldsGroup cfg m b gid ct) (hps : 0 < m.pageSize)
    {D : List Bytes} (hu : Uniform m.pageSize D) {out : Bytes}
    (hok : prefetchOverrides cfg m b gid m.pageSize D.flatten = .ok out) :
    ∃ D', out = D'.flatten ∧ Uniform m.pageSize D' ∧ D'.length = D.length ∧
      ∀ i < (m.groupPageNums gid).length, D[i]? = ct.base[i]? →
        D'[i]? = ct.page m.subPagesPerFrame i := by
  unfold prefetchOverrides at hok
  split at hok
  · rename_i hspf
    have hfold : ∃ D', out = D'.flatten ∧ Uniform m.pageSize D' ∧ D'.length = D.length ∧
        ∀ i < (m.groupPageNums gid).length,
          D'[i]? = overlay m ct ((m.overrides gid).entries.map (·.1)) i D[i]? := by
      refine foldlM_inv (P := fun (ys : List (Sigma fun _ : Nat => SubframeOverride)) (d : Bytes) =>
        ∃ D', d = D'.flatten ∧ Uniform m.pageSize D' ∧ D'.length = D.length ∧
          ∀ i < (m.groupPageNums gid).length, D'[i]? = overlay m ct (ys.map (·.1)) i D[i]?)
        ⟨D, rfl, hu, rfl, fun i _ => by simp [overlay]⟩ ?_ hok
      rintro ys ov _ out' hmem ⟨D1, rfl, hu1, hl1, h1⟩ hstep
      obtain ⟨D2, hout, hu2, hl2, h2⟩ :=
        h.prefetchOverride_inv hps hspf (lookup_of_mem_entries hmem) hu1 hstep
      refine ⟨D2, hout, hu2, hl2.trans hl1, fun i hi => ?_⟩
      rw [h2 i hi, List.map_append, List.map_singleton, overlay_append, h1 i hi]
    obtain ⟨D', hout, hu', hlen, hslots⟩ := hfold
    refine ⟨D', hout, hu', hlen, fun i hi hbase => ?_⟩
    rw [hslots i hi, hbase, h.overlay_all hspf]
  · rename_i hspf
    cases hok
    refine ⟨D, rfl, hu, rfl, fun i _ hbase => ?_⟩
    rw [hbase, GroupContent.page, if_neg hspf]

/-- What the worker installs is the content. -/
theorem HoldsGroup.mem_prefetchInstall (h : HoldsGroup cfg m b gid ct) (hps : 0 < m.pageSize)
    (hfmt : m.subPagesPerFrame = 0 → m.frameTable gid = []) {ws : List (Nat × Bytes)}
    (hok : prefetchInstall cfg m b gid = .ok ws) {w : Nat × Bytes} (hw : w ∈ ws) :
    ∃ i, (m.groupPageNums gid)[i]? = some w.1 ∧ ct.page m.subPagesPerFrame i = some w.2 := by
  obtain ⟨data, hdata, -⟩ := h.decode hps
  unfold prefetchInstall at hok
  rw [hdata] at hok
  obtain ⟨⟨pgCount, pgSize, pageData⟩, hdec, hrest⟩ := bind_eq_ok.mp hok
  rw [prefetchDecode_eq hfmt] at hdec
  obtain ⟨rfl, rfl, rfl⟩ := h.decodeBase_inv hps hdata hdec
  obtain ⟨out, hout, hrest⟩ := bind_eq_ok.mp hrest
  cases hrest
  obtain ⟨D', rfl, hu', hlen, hslots⟩ := h.prefetchOverrides_inv hps h.uniform_decoded hout
  obtain ⟨i, hi, -, hval⟩ := PageMap.mem_scatter_inv hw
  have hilt := (List.getElem?_eq_some_iff.mp hi).1
  rw [List.length_take] at hilt
  rw [List.getElem?_take_of_lt (by omega)] at hi
  refine ⟨i, hi, ?_⟩
  have hdecoded : (decodedPages m gid ct.base)[i]? = ct.base[i]? := by
    have hsome := List.getElem?_eq_getElem (l := decodedPages m gid ct.base) (i := i) (by omega)
    rw [hsome, getElem?_decodedPages hsome]
  rw [← hslots i (by omega) hdecoded, hval, block_take_flatten hu' (by omega) (by omega),
    List.getElem?_eq_getElem]

/-! ### The first fetch of a handle -/

/-- Every override of a group starts inside it and covers its frame. -/
def OverridesFit (m : Manifest) (gid : Nat) (ct : GroupContent) : Prop :=
  ∀ f os, ct.overFrames f = some os → f * m.subPagesPerFrame ≤ (m.groupPageNums gid).length ∧
    min m.subPagesPerFrame ((m.groupPageNums gid).length - f * m.subPagesPerFrame) ≤ os.length

/-- The overrides of the first fetch, on top of what is there. -/
theorem HoldsGroup.install_eagerOverrides (h : HoldsGroup cfg m b 0 ct) (hps : 0 < m.pageSize)
    (hspf : 0 < m.subPagesPerFrame) (hnd : (m.groupPageNums 0).Nodup) (hfit : OverridesFit m 0 ct)
    (c : PageMap) {i p : Nat} (hp : (m.groupPageNums 0)[i]? = some p) :
    c.install ((m.overrides 0).entries.flatMap fun ov => eagerOverride cfg m b ov.1 ov.2) p =
      overlay m ct ((m.overrides 0).entries.map (·.1)) i (c p) := by
  have hgen : ∀ es : List (Sigma fun _ : Nat => SubframeOverride), es ⊆ (m.overrides 0).entries →
      c.install (es.flatMap fun ov => eagerOverride cfg m b ov.1 ov.2) p =
        overlay m ct (es.map (·.1)) i (c p) := by
    intro es
    induction es using List.reverseRecOn with
    | nil =>
      intro _
      simp [overlay, PageMap.install]
    | append_singleton es ov ih =>
      intro hsub
      obtain ⟨hes, hov⟩ := List.append_subset.mp hsub
      have hmem := hov (List.mem_singleton_self ov)
      obtain ⟨data, os, hd, hos, hu, hopen⟩ := h.override (lookup_of_mem_entries hmem)
      have heager : eagerOverride cfg m b ov.1 ov.2 = frameInstall m 0 ov.1 os.flatten := by
        simp only [eagerOverride, hd, hopen]
      rw [List.flatMap_append, List.flatMap_singleton, heager, PageMap.install_append,
        install_frame hps hspf hnd hu (hfit ov.1 os hos).2 hp, ih hes, List.map_append,
        List.map_singleton, overlay_append, hos]
      rfl
  exact hgen _ (List.Subset.refl _)

/-- A page of an override is in the override's frame. -/
theorem HoldsGroup.slot_of_mem_eagerOverride (h : HoldsGroup cfg m b 0 ct) (hps : 0 < m.pageSize)
    (hspf : 0 < m.subPagesPerFrame) (hnd : (m.groupPageNums 0).Nodup)
    {ov : Sigma fun _ : Nat => SubframeOverride} (hov : ov ∈ (m.overrides 0).entries) {i : Nat}
    {w : Nat × Bytes} (hp : (m.groupPageNums 0)[i]? = some w.1)
    (hw : w ∈ eagerOverride cfg m b ov.1 ov.2) : i / m.subPagesPerFrame = ov.1 := by
  obtain ⟨data, os, hd, -, hu, hopen⟩ := h.override (lookup_of_mem_entries hov)
  simp only [eagerOverride, hd, hopen] at hw
  obtain ⟨j, hj, hdiv, -⟩ := ReadPaths.mem_frameInstall hspf hps hu hw
  obtain ⟨hi', hpe⟩ := List.getElem?_eq_some_iff.mp hp
  obtain ⟨hj', hje⟩ := List.getElem?_eq_some_iff.mp hj
  rw [(List.Nodup.getElem_inj_iff hnd).mp (hpe.trans hje.symm)]
  exact hdiv

/-- A page of the base part has the bytes of its slot. -/
theorem HoldsGroup.base_of_mem_eagerBase (h : HoldsGroup cfg m b 0 ct) (hps : 0 < m.pageSize)
    (hfmt : m.subPagesPerFrame = 0 → m.frameTable 0 = []) (hnd : (m.groupPageNums 0).Nodup)
    {data d : Bytes} (hdata : (m.groupKey 0).bind b.getPageGroup = some data) {i p : Nat}
    (hp : (m.groupPageNums 0)[i]? = some p) (hd : (p, d) ∈ eagerBase cfg m data) :
    ct.base[i]? = some d := by
  unfold eagerBase at hd
  split at hd
  · rename_i pgCount pgSize pageData hdec
    rw [prefetchDecode_eq hfmt] at hdec
    obtain ⟨-, -, rfl⟩ := h.decodeBase_inv hps hdata hdec
    obtain ⟨j, hj, hlt, hval⟩ := PageMap.mem_scatter_inv (List.mem_filter.mp hd).1
    obtain ⟨hi', hpe⟩ := List.getElem?_eq_some_iff.mp hp
    obtain ⟨hj', hje⟩ := List.getElem?_eq_some_iff.mp hj
    obtain rfl := (List.Nodup.getElem_inj_iff hnd).mp (hpe.trans hje.symm)
    rw [length_flatten_of_uniform h.uniform_decoded, Nat.mul_div_cancel _ hps] at hlt
    have hdecoded : (decodedPages m 0 ct.base)[i]? = some d := by
      rw [show d = _ from hval, block_flatten h.uniform_decoded hlt, List.getElem?_eq_getElem]
    exact getElem?_decodedPages hdecoded
  · cases hd

/-- The pages the first fetch writes end up with the content. -/
theorem HoldsGroup.install_eager (h : HoldsGroup cfg m b 0 ct) (hps : 0 < m.pageSize)
    (hfmt : m.subPagesPerFrame = 0 → m.frameTable 0 = []) (hnd : (m.groupPageNums 0).Nodup)
    (hfit : 0 < m.subPagesPerFrame → OverridesFit m 0 ct) {ws : List (Nat × Bytes)}
    (hws : eagerInstall cfg m b = some ws) (c : PageMap) {i p : Nat}
    (hp : (m.groupPageNums 0)[i]? = some p) (hmem : p ∈ ws.map (·.1)) :
    c.install ws p = ct.page m.subPagesPerFrame i := by
  obtain ⟨data, hdata, -⟩ := h.decode hps
  simp only [eagerInstall, hdata] at hws
  have hslot : ∀ d, (p, d) ∈ eagerBase cfg m data → ct.base[i]? = some d :=
    fun d hd => h.base_of_mem_eagerBase hps hfmt hnd hdata hp hd
  by_cases hspf : 0 < m.subPagesPerFrame
  · rw [if_pos hspf] at hws
    cases hws
    rw [PageMap.install_append, h.install_eagerOverrides hps hspf hnd (hfit hspf) _ hp,
      ← h.overlay_all hspf i]
    unfold overlay
    split
    · rfl
    · rename_i hnot
      rcases PageMap.install_cases c (eagerBase cfg m data) p with ⟨hout, -⟩ | ⟨d, hd, heq⟩
      · -- then an override wrote it, which covers the slot
        rw [List.map_append, List.mem_append, or_iff_right hout] at hmem
        obtain ⟨w, hw, rfl⟩ := List.mem_map.mp hmem
        obtain ⟨ov, hov, hwov⟩ := List.mem_flatMap.mp hw
        exact absurd (List.mem_map.mpr ⟨ov, hov,
          (h.slot_of_mem_eagerOverride hps hspf hnd hov hp hwov).symm⟩) hnot
      · rw [heq, hslot d hd]
  · rw [if_neg hspf, List.append_nil] at hws
    cases hws
    rcases PageMap.install_cases c (eagerBase cfg m data) p with ⟨hout, -⟩ | ⟨d, hd, heq⟩
    · exact absurd hmem hout
    · rw [heq, GroupContent.page, if_neg hspf]
      exact (hslot d hd).symm

end ReadPaths

end Turbolite
