import Turbolite.FetchedBytes
import Turbolite.Retry

/-!
# Turbolite.FetchSafety

What a read returns while fetches, writes and replays go on. An install overwrites every page of its
frame or group, so a page that was written or replayed since is lost when an install meets it; this
and the other ways to go wrong are the conditions of `Safe`. In every run whose steps are safe the
cached pages have their last stored bytes, and every read returns them (`Coherent`).
-/

namespace Turbolite

open Blocks Results Runs ReadPaths Turbolite.Partition

/-! ### Slots and locations -/

section Slots

variable {m : Manifest}

theorem Partition.Partitioned.slot_iff (h : Partitioned m) (hppg : 0 < m.pagesPerGroup) {gid i p : Nat} :
    (m.groupPageNums gid)[i]? = some p ↔ m.pageLocation p = some ⟨gid, i⟩ := by
  unfold Manifest.groupPageNums Manifest.pageLocation
  cases hst : m.strategy with
  | bTreeAware => exact (h.inverse hst p ⟨gid, i⟩).symm
  | positional =>
    dsimp only
    rw [List.getElem?_eq_some_iff]
    simp only [List.length_range', List.getElem_range', Nat.one_mul]
    constructor
    · rintro ⟨hi, rfl⟩
      have hlt : i < m.pagesPerGroup := by omega
      rw [if_neg (by omega), Nat.mul_comm, Nat.mul_add_div hppg, Nat.mul_add_mod,
        Nat.div_eq_of_lt hlt, Nat.mod_eq_of_lt hlt, Nat.add_zero]
    · intro hloc
      split at hloc
      · cases hloc
      · rename_i hp
        cases hloc
        have hdm := Nat.div_add_mod' p m.pagesPerGroup
        have hmod := Nat.mod_lt p hppg
        exact ⟨by omega, hdm⟩

theorem Partition.Partitioned.isSome_pageLocation (h : Partitioned m) (hppg : 0 < m.pagesPerGroup)
    {p : Nat} (hp : p < m.pageCount) : (m.pageLocation p).isSome = true := by
  unfold Manifest.pageLocation
  cases hst : m.strategy with
  | bTreeAware =>
    obtain ⟨loc, hloc, -⟩ := h.covered hst p hp
    dsimp only
    rw [(h.inverse hst p loc).mpr hloc]
    rfl
  | positional =>
    dsimp only
    rw [if_neg (by omega)]
    rfl

theorem Partition.Partitioned.nodup_groupPageNums (h : Partitioned m) (gid : Nat) :
    (m.groupPageNums gid).Nodup :=
  Manifest.nodup_groupPageNums (fun _ hg => (List.nodup_flatten.mp h.nodup).1 _ hg) gid

end Slots

namespace Fetches

variable {cfg : CodecConfig} (B : Base cfg)

/-! ### Manifests that find the remote pages -/

/-- The objects of a group are the same. -/
structure SameObjects (m₀ m : Manifest) (gid : Nat) : Prop where
  key : m.groupKey gid = m₀.groupKey gid
  frames : m.frameTable gid = m₀.frameTable gid
  overrides : m.overrides gid = m₀.overrides gid

/-- A page is where the other manifest has it, in a group with the same objects. -/
def KeepsPage (m₀ m : Manifest) (p : Nat) : Prop :=
  m.pageLocation p = m₀.pageLocation p ∧
    ∀ loc, m₀.pageLocation p = some loc → SameObjects m₀ m loc.groupId

/-- The frame size of the stored manifest, or the one that a write gives it when it has none. -/
def Framed (spf : Nat) : Prop :=
  spf = B.manifest.subPagesPerFrame ∨ (B.manifest.subPagesPerFrame = 0 ∧ spf = B.spf)

/-- A manifest by which the pages that nobody has stored yet can be fetched. -/
structure Kin (stored : PageMap) (m : Manifest) : Prop where
  pageSize : m.pageSize = B.manifest.pageSize
  framed : Framed B m.subPagesPerFrame
  pagesPerGroup : m.pagesPerGroup = B.manifest.pagesPerGroup
  partitioned : Partitioned m
  bounded : ∀ p, stored p = none → p < B.manifest.pageCount → p < m.pageCount
  keeps : ∀ p, stored p = none → p < B.manifest.pageCount → KeepsPage B.manifest m p

/-- When the whole-group path reads a group right: the object decodes, covers the group, and no page
of it has an override that differs. -/
structure WholeAgrees (m : Manifest) (gid : Nat) (ct : GroupContent) : Prop where
  cap : FitsCap m gid ct.base
  covered : (m.groupPageNums gid).length ≤ (decodedPages m gid ct.base).length
  same : ∀ i < (m.groupPageNums gid).length, ct.page m.subPagesPerFrame i = ct.base[i]?

/-! ### Safe steps -/

/-- The pages a finished range read installs. -/
def Miss.frameWrites (ms : Miss) : List (Nat × Bytes) :=
  let f := ms.loc.index / ms.manifest.subPagesPerFrame
  match openFrame cfg ms.manifest B.backend ms.loc.groupId f with
  | .ok (some decompressed) => frameInstall ms.manifest ms.loc.groupId f decompressed
  | _ => []

/-- When a step is safe. -/
def Safe (s : State) : Event B.manifest.pageSize → Prop
  | .checkpoint h => ∀ p ∈ s.dirty h,
      p < (s.manifest.localCheckpoint (s.dirty h) B.manifest.pagesPerGroup).pageCount
  | .read h p _ => ∀ h', p ∈ s.dirty h' → h' = h ∨ p < s.manifest.pageCount
  | .miss _ p _ => s.Remote B p
  | .finishFrame h => ∀ ms, s.reading h = some ms → ∀ w ∈ ms.frameWrites B, s.Remote B w.1
  | .finishGroup h => ∀ ms, s.reading h = some ms →
      WholeAgrees ms.manifest ms.loc.groupId (B.content ms.loc.groupId) ∧
        ∀ p ∈ ms.manifest.groupPageNums ms.loc.groupId, s.Remote B p
  | .giveUp _ => False
  | .finishJob j => ∀ job writes, s.jobs j = some job → job.install B s.cache = .ok writes →
      s.manifest.version = job.manifest.version → s.epoch = job.epoch →
      ∀ w ∈ writes, s.Remote B w.1
  | .openFinish o => ∀ opening writes, s.openings o = some opening →
      eagerInstall cfg opening.manifest B.backend = some writes → opening.epoch = some s.epoch →
      (0 < opening.manifest.subPagesPerFrame → OverridesFit opening.manifest 0 (B.content 0)) ∧
        ∀ w ∈ writes, s.Remote B w.1
  | .finalize r => (∀ h, s.dirty h = []) ∧ CanGrow s.manifest (r.newPageCount s.manifest) ∧
      ∀ p, s.Remote B p → p < r.newPageCount s.manifest →
        KeepsPage s.manifest (r.postManifest s.manifest) p
  | .lock _ | .unlock _ | .write .. | .recheck _ | .claim _ | .submit .. | .start _ | .dropJob _
  | .openHandle _ | .openClaim _ | .openDrop _ => True

/-! ### The invariant -/

/-- A read returned what the page was when it began or when it returned. -/
def Answer.Right (a : Answer) : Prop := a.result = .ok a.before ∨ a.result = .ok a.after

/-- The page of a miss was a remote one. -/
structure Begun (ms : Miss) : Prop where
  page : ms.page < B.manifest.pageCount
  before : ms.before = B.page ms.page
  located : B.manifest.pageLocation ms.page = some ms.loc
  keeps : KeepsPage B.manifest ms.manifest ms.page
  frame : ms.whole = false → ms.manifest.hasFrames ms.loc.groupId = true ∧
    ms.loc.index / ms.manifest.subPagesPerFrame < (ms.manifest.frameTable ms.loc.groupId).length

/-- The pages of the cache are those of the replayed image, and what is dirty is in it. -/
structure Coherent (s : State) : Prop where
  cached : ∀ p data, s.cache p = some data → data = s.content B p
  inside : ∀ p, (s.cache p).isSome = true → p < s.manifest.pageCount ∨ ∃ h, p ∈ s.dirty h
  dirty : ∀ h p, p ∈ s.dirty h → (s.cache p).isSome = true
  nodup : ∀ h, (s.dirty h).Nodup
  past : ∀ p, s.manifest.pageCount ≤ p →
    s.content B p = zeroPage B.manifest ∨ ∃ h, p ∈ s.dirty h
  manifest : Kin B s.stored s.manifest
  reading : ∀ h ms, s.reading h = some ms → Kin B s.stored ms.manifest ∧ Begun B ms
  jobs : ∀ j job, s.jobs j = some job → Kin B s.stored job.manifest ∧
    (job.frame.isSome = true → job.manifest.hasFrames job.gid = true)
  openings : ∀ o opening, s.openings o = some opening → Kin B s.stored opening.manifest
  answers : ∀ a ∈ s.answers, a.Right

variable {B}

section Kin

variable {stored stored' : PageMap} {m : Manifest} {gid i p : Nat}

theorem kin_base : Kin B PageMap.empty B.manifest :=
  ⟨rfl, .inl rfl, rfl, B.partitioned, fun _ _ h => h, fun _ _ _ => ⟨rfl, fun _ _ => ⟨rfl, rfl, rfl⟩⟩⟩

/-- Fewer remote pages, less to find. -/
theorem Kin.mono (h : Kin B stored m) (hle : ∀ p, stored' p = none → stored p = none) :
    Kin B stored' m :=
  { h with
    bounded := fun p hp => h.bounded p (hle p hp)
    keeps := fun p hp => h.keeps p (hle p hp) }

theorem Kin.grouped (h : Kin B stored m) : 0 < m.pagesPerGroup := by
  rw [h.pagesPerGroup]
  exact B.grouped

theorem Kin.pageSize_pos (h : Kin B stored m) : 0 < m.pageSize := by
  rw [h.pageSize]
  exact B.represents.pageSize_pos

theorem Kin.zeroPage_eq (h : Kin B stored m) : zeroPage m = zeroPage B.manifest := by
  unfold zeroPage
  rw [h.pageSize]

end Kin

/-- The objects of a group say what it holds, whatever its list of pages; where it has no frames,
whatever their size. -/
theorem holdsGroup_congr {m₀ m : Manifest} {b : Backend} {gid : Nat} {ct : GroupContent}
    (h : HoldsGroup cfg m₀ b gid ct) (hobj : SameObjects m₀ m gid) (hps : m.pageSize = m₀.pageSize)
    (hspf : m.subPagesPerFrame = m₀.subPagesPerFrame ∨ m₀.frameTable gid = []) :
    HoldsGroup cfg m b gid ct := by
  refine ⟨?_, ?_, fun f => ?_⟩
  · obtain ⟨key, data, hkey, hdata, hseek, hleg⟩ := h.base
    refine ⟨key, data, hobj.key.trans hkey, hdata, fun hf => ?_, fun hf => ?_⟩
    · obtain ⟨hpos, hne⟩ := hasFrames_iff.mp hf
      rw [hobj.frames] at hne ⊢
      have hsame := hspf.resolve_right hne
      rw [hsame] at hpos
      rw [hps, hsame]
      exact hseek (hasFrames_iff.mpr ⟨hpos, hne⟩)
    · rw [hps]
      refine hleg (Bool.eq_false_iff.mpr fun hf₀ => ?_)
      obtain ⟨hpos, hne⟩ := hasFrames_iff.mp hf₀
      have hsame := hspf.resolve_right hne
      rw [hasFrames_iff.mpr ⟨hsame.symm ▸ hpos, hobj.frames.symm ▸ hne⟩] at hf
      cases hf
  · rw [hps]
    exact h.size
  · have hover := h.overFrames f
    rw [hobj.overrides]
    cases hl : (m₀.overrides gid).lookup f with
    | none => rw [hl] at hover; exact hover
    | some ovr =>
      rw [hl] at hover
      unfold HoldsOver at hover ⊢
      rw [hps]
      exact hover

/-- The remote bytes of a page are those of its slot. -/
theorem Base.page_eq {p gid i : Nat} (hp : p < B.manifest.pageCount)
    (hloc : B.manifest.pageLocation p = some ⟨gid, i⟩) :
    (B.content gid).page B.manifest.subPagesPerFrame i = some (B.page p) := by
  obtain ⟨data, hdata⟩ := Option.isSome_iff_exists.mp (B.represents.defined p gid i hp hloc)
  rw [hdata, Base.page, if_pos hp]
  simp [image, hloc, hdata]

theorem Base.length_page (p : Nat) : (B.page p).length = B.manifest.pageSize := by
  have hzero : (zeroPage B.manifest).length = B.manifest.pageSize := List.length_replicate ..
  by_cases hp : p < B.manifest.pageCount
  · cases hloc : B.manifest.pageLocation p with
    | none =>
      rw [Base.page, if_pos hp, image, hloc]
      exact hzero
    | some loc =>
      have hpage := B.page_eq hp hloc
      have hheld := B.represents.holds loc.groupId ⟨p, loc.index, hp, hloc⟩
      unfold GroupContent.page at hpage
      split at hpage
      · rename_i os hos
        have hover : (B.content loc.groupId).overFrames (loc.index / B.manifest.subPagesPerFrame) =
            some os := by
          split at hos
          · exact hos
          · cases hos
        have hheldOver := hheld.overFrames (loc.index / B.manifest.subPagesPerFrame)
        rw [hover] at hheldOver
        cases hl : (B.manifest.overrides loc.groupId).lookup
            (loc.index / B.manifest.subPagesPerFrame) with
        | none => rw [hl] at hheldOver; cases hheldOver
        | some ovr =>
          rw [hl] at hheldOver
          obtain ⟨data, os', -, hos', hholds, -⟩ := hheldOver
          cases hos'
          exact hholds.uniform _ (List.mem_of_getElem? hpage)
      · exact hheld.uniform _ (List.mem_of_getElem? hpage)
  · rw [Base.page, if_neg hp]
    exact hzero

/-- The frames are those of the stored manifest, which may have none. -/
theorem Framed.frames {spf : Nat} (h : Framed B spf) (gid : Nat) :
    spf = B.manifest.subPagesPerFrame ∨ B.manifest.frameTable gid = [] :=
  h.imp_right fun ⟨hzero, _⟩ => B.represents.legacy hzero gid

/-- The frame size that a write adds changes no page. -/
theorem Framed.page_eq {spf : Nat} (h : Framed B spf) (gid i : Nat) :
    (B.content gid).page spf i = (B.content gid).page B.manifest.subPagesPerFrame i := by
  rcases h with rfl | ⟨hzero, -⟩
  · rfl
  · unfold GroupContent.page
    rw [B.plain hzero, B.plain hzero, ite_self, ite_self]

theorem Framed.legacy {spf : Nat} (h : Framed B spf) (hzero : spf = 0) (gid : Nat) :
    B.manifest.frameTable gid = [] := by
  rcases h with rfl | ⟨hstored, -⟩
  · exact B.represents.legacy hzero gid
  · exact B.represents.legacy hstored gid

/-- A page whose location the manifest keeps: its group's objects, and its bytes. -/
theorem KeepsPage.holds {m : Manifest} {p gid i : Nat} (h : KeepsPage B.manifest m p)
    (hps : m.pageSize = B.manifest.pageSize) (hspf : Framed B m.subPagesPerFrame)
    (hp : p < B.manifest.pageCount) (hloc : B.manifest.pageLocation p = some ⟨gid, i⟩) :
    HoldsGroup cfg m B.backend gid (B.content gid) ∧
      (B.content gid).page m.subPagesPerFrame i = some (B.page p) := by
  have hheld := B.represents.holds gid ⟨p, i, hp, hloc⟩
  exact ⟨holdsGroup_congr hheld (h.2 _ hloc) hps (hspf.frames gid),
    (hspf.page_eq gid i).trans (Base.page_eq hp hloc)⟩

section Fetched

variable {stored : PageMap} {m : Manifest} {gid : Nat} {ws : List (Nat × Bytes)} {w : Nat × Bytes}

/-- The objects of a group with a remote page are the store's. -/
theorem Kin.holds (h : Kin B stored m) {p : Nat} (hmem : p ∈ m.groupPageNums gid)
    (hst : stored p = none) (hp : p < B.manifest.pageCount) :
    HoldsGroup cfg m B.backend gid (B.content gid) := by
  obtain ⟨i, hi⟩ := List.mem_iff_getElem?.mp hmem
  have hkeeps := h.keeps p hst hp
  have hloc := (h.partitioned.slot_iff h.grouped).mp hi
  rw [hkeeps.1] at hloc
  exact (hkeeps.holds h.pageSize h.framed hp hloc).1

/-- The content of a remote page's slot. -/
theorem Kin.slot (h : Kin B stored m) {p i : Nat} (hi : (m.groupPageNums gid)[i]? = some p)
    (hst : stored p = none) (hp : p < B.manifest.pageCount) :
    (B.content gid).page m.subPagesPerFrame i = some (B.page p) := by
  have hkeeps := h.keeps p hst hp
  have hloc := (h.partitioned.slot_iff h.grouped).mp hi
  rw [hkeeps.1] at hloc
  exact (hkeeps.holds h.pageSize h.framed hp hloc).2

theorem Kin.legacy (h : Kin B stored m) {p : Nat} (hmem : p ∈ m.groupPageNums gid)
    (hst : stored p = none) (hp : p < B.manifest.pageCount) :
    m.subPagesPerFrame = 0 → m.frameTable gid = [] := by
  intro hzero
  obtain ⟨i, hi⟩ := List.mem_iff_getElem?.mp hmem
  have hkeeps := h.keeps p hst hp
  have hloc := (h.partitioned.slot_iff h.grouped).mp hi
  rw [hkeeps.1] at hloc
  rw [(hkeeps.2 _ hloc).frames]
  exact h.framed.legacy hzero gid

theorem Kin.frameInstall_page (h : Kin B stored m) (hf : m.hasFrames gid = true) {f : Nat}
    {decompressed : Bytes} (hopen : openFrame cfg m B.backend gid f = .ok (some decompressed))
    (hw : w ∈ frameInstall m gid f decompressed) (hst : stored w.1 = none)
    (hp : w.1 < B.manifest.pageCount) : w.2 = B.page w.1 := by
  have hheld := h.holds (mem_pages_of_frameInstall hw) hst hp
  obtain ⟨i, hi, hpage⟩ := hheld.mem_frameInstall hf h.pageSize_pos hopen hw
  exact Option.some.inj (hpage.symm.trans (h.slot hi hst hp))

theorem Kin.prefetchInstall_page (h : Kin B stored m)
    (hok : prefetchInstall cfg m B.backend gid = .ok ws) (hw : w ∈ ws) (hst : stored w.1 = none)
    (hp : w.1 < B.manifest.pageCount) : w.2 = B.page w.1 := by
  have hmem := mem_pages_of_prefetchInstall hok hw
  obtain ⟨i, hi, hpage⟩ := (h.holds hmem hst hp).mem_prefetchInstall h.pageSize_pos
    (h.legacy hmem hst hp) hok hw
  exact Option.some.inj (hpage.symm.trans (h.slot hi hst hp))

theorem Kin.fullGroupInstall_page (h : Kin B stored m) (ha : WholeAgrees m gid (B.content gid))
    (hok : fullGroupInstall cfg m B.backend gid = .ok ws) (hw : w ∈ ws) (hst : stored w.1 = none)
    (hp : w.1 < B.manifest.pageCount) : w.2 = B.page w.1 := by
  have hheld := h.holds (mem_pages_of_fullGroupInstall hok hw) hst hp
  obtain ⟨i, hi, hbase⟩ := hheld.mem_fullGroupInstall h.pageSize_pos hok hw
  rw [← ha.same i (List.getElem?_eq_some_iff.mp hi).1] at hbase
  exact Option.some.inj (hbase.symm.trans (h.slot hi hst hp))

theorem Kin.eagerInstall_page (h : Kin B stored m)
    (hfit : 0 < m.subPagesPerFrame → OverridesFit m 0 (B.content 0))
    (hws : eagerInstall cfg m B.backend = some ws) (c : PageMap) {p : Nat} (hmem : p ∈ ws.map (·.1))
    (hst : stored p = none) (hp : p < B.manifest.pageCount) : c.install ws p = some (B.page p) := by
  obtain ⟨w, hw, rfl⟩ := List.mem_map.mp hmem
  have hpages := mem_pages_of_eagerInstall hws hw
  obtain ⟨i, hi⟩ := List.mem_iff_getElem?.mp hpages
  rw [(h.holds hpages hst hp).install_eager h.pageSize_pos (h.legacy hpages hst hp)
    (h.partitioned.nodup_groupPageNums 0) hfit hws c hi hmem]
  exact h.slot hi hst hp

/-- The whole-group path goes through and installs every page of the group. -/
theorem Kin.fullGroupInstall_ok (h : Kin B stored m) (ha : WholeAgrees m gid (B.content gid))
    (hheld : HoldsGroup cfg m B.backend gid (B.content gid)) {p : Nat} (hmem : p ∈ m.groupPageNums gid) :
    ∃ ws, fullGroupInstall cfg m B.backend gid = .ok ws ∧ p ∈ ws.map (·.1) := by
  obtain ⟨i, hi⟩ := List.mem_iff_getElem?.mp hmem
  obtain ⟨data, -, hread⟩ := hheld.fullGroupRead_ok h.pageSize_pos
    (h.partitioned.nodup_groupPageNums gid) hi ha.cap ha.covered
  obtain ⟨ws, hws, hpres⟩ := bind_eq_ok.mp hread
  refine ⟨ws, hws, ?_⟩
  rcases PageMap.install_cases PageMap.empty ws p with ⟨-, hnone⟩ | ⟨d, hd, -⟩
  · rw [PageMap.readPresent, hnone] at hpres
    cases hpres
  · exact List.mem_map.mpr ⟨(p, d), hd, rfl⟩

end Fetched

/-! ### The parts of a step -/

section Parts

variable {s : State} {ws : List (Nat × Bytes)}

theorem of_update_eq_some {β : Type} {f : Nat → Option β} {a b : Nat} {v : Option β} {x : β}
    (h : Function.update f a v b = some x) : (b = a ∧ v = some x) ∨ f b = some x := by
  by_cases hb : b = a
  · rw [hb, Function.update_self] at h
    exact .inl ⟨hb, h⟩
  · rw [Function.update_of_ne hb] at h
    exact .inr h

/-- Remote pages are installed with their remote bytes. -/
theorem Coherent.install (h : Coherent B s) (hrem : ∀ w ∈ ws, s.Remote B w.1)
    (hval : ∀ p ∈ ws.map (·.1), s.cache.install ws p = some (B.page p)) :
    Coherent B (s.install ws) := by
  have hrem' : ∀ p ∈ ws.map (·.1), s.Remote B p := by
    intro p hp
    obtain ⟨w, hw, rfl⟩ := List.mem_map.mp hp
    exact hrem w hw
  have hcases : ∀ p, (s.cache.install ws p = s.cache p) ∨
      (s.Remote B p ∧ s.cache.install ws p = some (B.page p)) := by
    intro p
    rcases s.cache.install_cases ws p with ⟨-, heq⟩ | ⟨d, hd, -⟩
    · exact .inl heq
    · have hp : p ∈ ws.map (·.1) := List.mem_map.mpr ⟨(p, d), hd, rfl⟩
      exact .inr ⟨hrem' p hp, hval p hp⟩
  exact { h with
    cached := fun p data hdata => by
      rcases hcases p with heq | ⟨hr, heq⟩
      · exact h.cached p data (heq.symm.trans hdata)
      · have hd : some (B.page p) = some data := heq.symm.trans hdata
        cases hd
        show B.page p = (s.stored p).getD (B.page p)
        rw [hr.1]
        rfl
    inside := fun p hp => by
      rcases hcases p with heq | ⟨hr, -⟩
      · exact h.inside p (by rw [← heq]; exact hp)
      · exact .inl (h.manifest.bounded p hr.1 hr.2)
    dirty := fun hd p hp => by
      rcases hcases p with heq | ⟨-, heq⟩
      · show (s.cache.install ws p).isSome = true
        rw [heq]
        exact h.dirty hd p hp
      · show (s.cache.install ws p).isSome = true
        rw [heq]
        rfl }

/-- The same, write by write. -/
theorem Coherent.install_of_mem (h : Coherent B s) (hrem : ∀ w ∈ ws, s.Remote B w.1)
    (hval : ∀ w ∈ ws, w.2 = B.page w.1) : Coherent B (s.install ws) := by
  refine h.install hrem fun p hp => ?_
  rcases s.cache.install_cases ws p with ⟨hnot, -⟩ | ⟨d, hd, heq⟩
  · exact absurd hp hnot
  · rw [heq, show d = B.page p from hval (p, d) hd]

theorem Coherent.markGroupPresent (h : Coherent B s) (gid : Nat) :
    Coherent B (s.markGroupPresent gid) := { h with }

theorem Coherent.unclaimIfFetching (h : Coherent B s) (gid : Nat) :
    Coherent B (s.unclaimIfFetching gid) := by
  unfold State.unclaimIfFetching
  split
  · exact { h with }
  · exact h

/-- A read returns. -/
theorem Coherent.answer (h : Coherent B s) {hd p : Nat} {before : Bytes} {result : IoResult Bytes}
    (hr : result = .ok before ∨ result = .ok (s.content B p)) :
    Coherent B (s.answer B hd p before result) :=
  { h with
    reading := fun h' ms hms => by
      rcases of_update_eq_some hms with ⟨-, hnone⟩ | hms
      · cases hnone
      · exact h.reading h' ms hms
    answers := fun a ha => by
      rcases List.mem_append.mp ha with ha | ha
      · exact h.answers a ha
      · rw [List.mem_singleton.mp ha]
        exact hr }

/-- A read that needs no fetch. -/
theorem Coherent.serve (h : Coherent B s) {hd p : Nat} {fast : Bool} {result : IoResult Bytes}
    (hsafe : Safe B s (.read hd p fast)) (hs : s.serve hd p fast = some result) :
    result = .ok (s.content B p) := by
  have hcached : ∀ data, s.cache p = some data → data = s.content B p := h.cached p
  unfold State.serve at hs
  split at hs
  · rename_i data hdata
    cases hs
    split at hdata
    · rw [hcached data hdata]
    · cases hdata
  · split at hs
    · rename_i hdirty
      obtain ⟨data, hdata⟩ := Option.isSome_iff_exists.mp (h.dirty hd p hdirty)
      rw [hdata] at hs
      cases hs
      rw [hcached data hdata]
    · rename_i hclean
      split at hs
      · rename_i hpast
        cases hs
        rcases h.past p hpast with hzero | ⟨h', hh'⟩
        · rw [hzero, h.manifest.zeroPage_eq]
        · rcases hsafe h' hh' with rfl | hlt
          · exact absurd hh' hclean
          · omega
      · rename_i hin
        have hloc := h.manifest.partitioned.isSome_pageLocation h.manifest.grouped (Nat.not_le.mp hin)
        split at hs
        · rename_i hnone
          rw [hnone] at hloc
          cases hloc
        · obtain ⟨data, hdata, rfl⟩ := Option.map_eq_some_iff.mp hs
          rw [hcached data hdata]

/-! ### Foreground reads -/

variable {ms : Miss} {hd p : Nat}

theorem content_of_remote (h : s.Remote B p) : s.content B p = B.page p := by
  unfold State.content
  rw [h.1]
  rfl

/-- A read misses. -/
theorem Coherent.miss (h : Coherent B s) {loc : PageLocation} {scan : Bool} (hrem : s.Remote B p)
    (hloc : s.manifest.pageLocation p = some loc) :
    Coherent B { s with reading := Function.update s.reading hd (some (s.missed B p loc scan)) } := by
  have hkeeps := h.manifest.keeps p hrem.1 hrem.2
  have hbegun : Begun B (s.missed B p loc scan) :=
    { page := hrem.2
      before := content_of_remote hrem
      located := hkeeps.1.symm.trans hloc
      keeps := hkeeps
      frame := fun hwhole => by
        simp only [State.missed, Bool.not_eq_false', Bool.and_eq_true, decide_eq_true_eq] at hwhole
        exact ⟨hwhole.1.1, hwhole.2⟩ }
  refine { h with reading := fun h' ms hms => ?_ }
  rcases of_update_eq_some hms with ⟨-, hms⟩ | hms
  · cases hms
    exact ⟨h.manifest, hbegun⟩
  · exact h.reading h' ms hms

/-- The objects of the page of a miss. -/
theorem Begun.holds {stored : PageMap} (h : Begun B ms) (hk : Kin B stored ms.manifest) :
    HoldsGroup cfg ms.manifest B.backend ms.loc.groupId (B.content ms.loc.groupId) ∧
      (B.content ms.loc.groupId).page ms.manifest.subPagesPerFrame ms.loc.index =
        some (B.page ms.page) :=
  h.keeps.holds hk.pageSize hk.framed h.page h.located

theorem Begun.slot {stored : PageMap} (h : Begun B ms) (hk : Kin B stored ms.manifest) :
    (ms.manifest.groupPageNums ms.loc.groupId)[ms.loc.index]? = some ms.page :=
  (hk.partitioned.slot_iff hk.grouped).mpr (h.keeps.1.trans h.located)

/-- The range path. -/
theorem Coherent.finishFrame (h : Coherent B s) (hms : s.reading hd = some ms)
    (hwhole : ms.whole = false) (hrem : ∀ w ∈ ms.frameWrites B, s.Remote B w.1) :
    Coherent B (finishFrame B s hd ms) := by
  obtain ⟨hk, hb⟩ := h.reading hd ms hms
  obtain ⟨hheld, hpage⟩ := hb.holds hk
  obtain ⟨hf, hlt⟩ := hb.frame hwhole
  obtain ⟨hspf, -⟩ := hasFrames_iff.mp hf
  obtain ⟨hopen, hu⟩ := hheld.openFrame_ok hf hlt
  have hslot := hb.slot hk
  have hi := (List.getElem?_eq_some_iff.mp hslot).1
  have hstart : ¬ (ms.manifest.groupPageNums ms.loc.groupId).length <
      ms.loc.index / ms.manifest.subPagesPerFrame * ms.manifest.subPagesPerFrame := by
    have hle := Nat.div_mul_le_self ms.loc.index ms.manifest.subPagesPerFrame
    omega
  unfold Fetches.finishFrame
  unfold Miss.frameWrites at hrem
  simp only [hopen] at hrem ⊢
  rw [if_neg hstart]
  have hinst := h.install_of_mem hrem fun w hw =>
    hk.frameInstall_page hf hopen hw (hrem w hw).1 (hrem w hw).2
  refine hinst.answer (.inl ?_)
  rw [framePage_flatten hk.pageSize_pos hu, GroupContent.getElem?_frame hspf, hpage, hb.before]
  rfl

/-- The whole-group path. -/
theorem Coherent.finishGroup (h : Coherent B s) (hms : s.reading hd = some ms)
    (ha : WholeAgrees ms.manifest ms.loc.groupId (B.content ms.loc.groupId))
    (hrem : ∀ p ∈ ms.manifest.groupPageNums ms.loc.groupId, s.Remote B p) :
    Coherent B (finishGroup B s hd ms) := by
  obtain ⟨hk, hb⟩ := h.reading hd ms hms
  obtain ⟨hheld, -⟩ := hb.holds hk
  obtain ⟨data, hdata, -⟩ := hheld.decode hk.pageSize_pos
  have hmem := List.mem_of_getElem? (hb.slot hk)
  obtain ⟨ws, hws, hkey⟩ := hk.fullGroupInstall_ok ha hheld hmem
  have hval : ∀ w ∈ ws, s.Remote B w.1 ∧ w.2 = B.page w.1 := by
    intro w hw
    have hr := hrem w.1 (mem_pages_of_fullGroupInstall hws hw)
    exact ⟨hr, hk.fullGroupInstall_page ha hws hw hr.1 hr.2⟩
  have hinst := (h.install_of_mem (fun w hw => (hval w hw).1) fun w hw => (hval w hw).2).markGroupPresent
    ms.loc.groupId
  unfold Fetches.finishGroup
  simp only [hdata, hws]
  refine hinst.answer (.inl ?_)
  rcases s.cache.install_cases ws ms.page with ⟨hnot, -⟩ | ⟨d, hd, heq⟩
  · exact absurd hkey hnot
  · refine (PageMap.readPresent_some heq _).trans ?_
    rw [hb.before]
    exact congrArg Except.ok (hval (ms.page, d) hd).2

/-! ### Background fetches -/

/-- What a job installs has the remote bytes. -/
theorem Coherent.job_page (h : Coherent B s) {j : Nat} {job : Job} (hjob : s.jobs j = some job)
    (hok : job.install B s.cache = .ok ws) {w : Nat × Bytes} (hw : w ∈ ws) (hr : s.Remote B w.1) :
    w.2 = B.page w.1 := by
  obtain ⟨hk, hf⟩ := h.jobs j job hjob
  unfold Job.install at hok
  cases hframe : job.frame with
  | none =>
    rw [hframe] at hok
    exact hk.prefetchInstall_page hok hw hr.1 hr.2
  | some f =>
    rw [hframe] at hok hf
    obtain ⟨r, hopen, hrest⟩ := bind_eq_ok.mp hok
    cases r with
    | none => cases hrest
    | some decompressed =>
      cases hrest
      exact hk.frameInstall_page (hf rfl) hopen (List.mem_filter.mp hw).1 hr.1 hr.2

theorem Coherent.release (h : Coherent B s) (job : Job) : Coherent B (job.release s) := by
  unfold Job.release
  split
  · exact h.unclaimIfFetching job.gid
  · exact h

theorem Coherent.finishJob (h : Coherent B s) {j : Nat} {job : Job} (hjob : s.jobs j = some job)
    (hsafe : Safe B s (.finishJob j)) : Coherent B (finishJob B s job) := by
  unfold Fetches.finishJob
  split
  · exact h.release job
  · rename_i writes hok
    split
    · rename_i hcheck
      have hrem := hsafe job writes hjob hok hcheck.1 hcheck.2
      have hinst := h.install_of_mem hrem fun w hw => h.job_page hjob hok hw (hrem w hw)
      split
      · exact hinst.markGroupPresent job.gid
      · exact hinst
    · exact h.release job

theorem Coherent.finishOpening (h : Coherent B s) {o epoch : Nat} {opening : Opening}
    (ho : s.openings o = some opening) (he : opening.epoch = some epoch)
    (hsafe : Safe B s (.openFinish o)) : Coherent B (finishOpening B s opening epoch) := by
  unfold Fetches.finishOpening
  split
  · exact h.unclaimIfFetching 0
  · rename_i writes hws
    split
    · rename_i hepoch
      obtain ⟨hfit, hrem⟩ := hsafe opening writes ho hws (by rw [he, hepoch])
      refine (h.install hrem fun p hp => ?_).markGroupPresent 0
      obtain ⟨w, hw, rfl⟩ := List.mem_map.mp hp
      exact (h.openings o opening ho).eagerInstall_page hfit hws s.cache hp (hrem w hw).1 (hrem w hw).2
    · exact h.unclaimIfFetching 0

theorem jobs_unclaimIfFetching (s : State) (gid : Nat) : (s.unclaimIfFetching gid).jobs = s.jobs := by
  unfold State.unclaimIfFetching
  split <;> rfl

theorem openings_unclaimIfFetching (s : State) (gid : Nat) :
    (s.unclaimIfFetching gid).openings = s.openings := by
  unfold State.unclaimIfFetching
  split <;> rfl

theorem jobs_release (s : State) (job : Job) : (job.release s).jobs = s.jobs := by
  unfold Job.release
  split
  · exact jobs_unclaimIfFetching s job.gid
  · rfl

theorem jobs_finishJob (s : State) (job : Job) : (Fetches.finishJob B s job).jobs = s.jobs := by
  unfold Fetches.finishJob
  split
  · exact jobs_release s job
  · split
    · split <;> rfl
    · exact jobs_release s job

theorem openings_finishOpening (s : State) (opening : Opening) (epoch : Nat) :
    (Fetches.finishOpening B s opening epoch).openings = s.openings := by
  unfold Fetches.finishOpening
  split
  · exact openings_unclaimIfFetching s 0
  · split
    · rfl
    · exact openings_unclaimIfFetching s 0

/-- Jobs that are dropped or go on. -/
theorem Coherent.update_jobs (h : Coherent B s) {j : Nat} {v : Option Job}
    (hv : ∀ job, v = some job → Kin B s.stored job.manifest ∧
      (job.frame.isSome = true → job.manifest.hasFrames job.gid = true)) :
    Coherent B { s with jobs := Function.update s.jobs j v } :=
  { h with
    jobs := fun i job hjob => by
      rcases of_update_eq_some hjob with ⟨-, hjob⟩ | hjob
      · exact hv job hjob
      · exact h.jobs i job hjob }

theorem Coherent.update_openings (h : Coherent B s) {o : Nat} {v : Option Opening}
    (hv : ∀ opening, v = some opening → Kin B s.stored opening.manifest) :
    Coherent B { s with openings := Function.update s.openings o v } :=
  { h with
    openings := fun i opening hopen => by
      rcases of_update_eq_some hopen with ⟨-, hopen⟩ | hopen
      · exact hv opening hopen
      · exact h.openings i opening hopen }

/-! ### Writes and checkpoints -/

/-- All that a write can add to a stored manifest is the frame size. -/
theorem Kin.seedGeometry_eq {stored : PageMap} {m : Manifest} (h : Kin B stored m) (n : Nat) :
    m.seedGeometry n B.manifest.pagesPerGroup B.spf =
      { m with subPagesPerFrame := if m.subPagesPerFrame = 0 then B.spf else m.subPagesPerFrame } := by
  unfold Manifest.seedGeometry
  rw [if_neg h.pageSize_pos.ne', if_neg h.grouped.ne']

theorem Framed.seed {spf : Nat} (h : Framed B spf) : Framed B (if spf = 0 then B.spf else spf) := by
  split
  · rename_i hzero
    rcases h with hstored | ⟨hstored, -⟩
    · exact .inr ⟨hstored.symm.trans hzero, rfl⟩
    · exact .inr ⟨hstored, rfl⟩
  · exact h

theorem Kin.reframe {stored : PageMap} {m : Manifest} (h : Kin B stored m) {spf : Nat}
    (hspf : Framed B spf) : Kin B stored { m with subPagesPerFrame := spf } :=
  { h with
    framed := hspf
    partitioned := ⟨h.partitioned.normal, h.partitioned.covered, h.partitioned.nodup,
      h.partitioned.inverse, h.partitioned.bounded⟩
    keeps := fun p hst hp => ⟨(h.keeps p hst hp).1, fun loc hloc =>
      ⟨((h.keeps p hst hp).2 loc hloc).key, ((h.keeps p hst hp).2 loc hloc).frames,
        ((h.keeps p hst hp).2 loc hloc).overrides⟩⟩ }

/-- A write seeds the geometry of the manifest. -/
theorem Coherent.seedGeometry (h : Coherent B s) (n : Nat) : Coherent B { s with
    manifest := s.manifest.seedGeometry n B.manifest.pagesPerGroup B.spf } := by
  rw [h.manifest.seedGeometry_eq]
  exact { h with manifest := h.manifest.reframe h.manifest.framed.seed }

theorem Coherent.write (h : Coherent B s) (data : Bytes) :
    Coherent B { s with
      cache := Function.update s.cache p (some data)
      dirty := Function.update s.dirty hd ((s.dirty hd).insert p)
      stored := Function.update s.stored p (some data) } := by
  -- one page less is as it is in the store
  have hfew : ∀ q, Function.update s.stored p (some data) q = none → s.stored q = none := by
    intro q hq
    by_cases hqp : q = p
    · rw [hqp, Function.update_self] at hq
      cases hq
    · rw [Function.update_of_ne hqp] at hq
      exact hq
  have hdirty : ∀ h' q, q ∈ s.dirty h' → q ∈ Function.update s.dirty hd ((s.dirty hd).insert p) h' := by
    intro h' q hq
    by_cases hh : h' = hd
    · rw [hh, Function.update_self]
      exact List.mem_insert_iff.mpr (.inr (hh ▸ hq))
    · rw [Function.update_of_ne hh]
      exact hq
  -- the page is dirty now, wherever it lies
  have hself : p ∈ Function.update s.dirty hd ((s.dirty hd).insert p) hd := by
    rw [Function.update_self]
    exact List.mem_insert_self
  exact
    { h with
      cached := fun q d hq => by
        by_cases hqp : q = p
        · rw [hqp] at hq ⊢
          simp only [State.content, Function.update_self] at hq ⊢
          exact (Option.some.inj hq).symm
        · simp only [State.content, Function.update_of_ne hqp] at hq ⊢
          exact h.cached q d hq
      inside := fun q hq => by
        by_cases hqp : q = p
        · exact .inr ⟨hd, hqp ▸ hself⟩
        · dsimp only at hq
          rw [Function.update_of_ne hqp] at hq
          exact (h.inside q hq).imp_right fun ⟨h', hh'⟩ => ⟨h', hdirty h' q hh'⟩
      dirty := fun h' q hq => by
        dsimp only at hq ⊢
        by_cases hqp : q = p
        · rw [hqp, Function.update_self]
          rfl
        · rw [Function.update_of_ne hqp]
          by_cases hh : h' = hd
          · rw [hh, Function.update_self] at hq
            exact h.dirty hd q ((List.mem_insert_iff.mp hq).resolve_left hqp)
          · rw [Function.update_of_ne hh] at hq
            exact h.dirty h' q hq
      nodup := fun h' => by
        dsimp only
        by_cases hh : h' = hd
        · rw [hh, Function.update_self]
          exact (h.nodup hd).insert
        · rw [Function.update_of_ne hh]
          exact h.nodup h'
      past := fun q hq => by
        by_cases hqp : q = p
        · exact .inr ⟨hd, hqp ▸ hself⟩
        · refine (h.past q hq).imp (fun hzero => ?_) fun ⟨h', hh'⟩ => ⟨h', hdirty h' q hh'⟩
          simp only [State.content, Function.update_of_ne hqp]
          exact hzero
      manifest := h.manifest.mono hfew
      reading := fun h' ms hms => ⟨(h.reading h' ms hms).1.mono hfew, (h.reading h' ms hms).2⟩
      jobs := fun j job hjob => ⟨(h.jobs j job hjob).1.mono hfew, (h.jobs j job hjob).2⟩
      openings := fun o opening ho => (h.openings o opening ho).mono hfew }

/-- A local checkpoint only adds pages. -/
theorem le_pageCount_localCheckpoint (m : Manifest) (dirty : List Nat) (ppg : Nat) :
    m.pageCount ≤ (m.localCheckpoint dirty ppg).pageCount := by
  unfold Manifest.localCheckpoint Manifest.assignNewPagesToGroups
  split
  · exact Nat.le_refl _
  · split
    · dsimp only
      split
      · dsimp only
        omega
      · exact Nat.le_refl _
    · exact Nat.le_refl _

theorem keepsPage_localCheckpoint {m : Manifest} {dirty : List Nat} {ppg : Nat}
    (hloc : (m.pageLocation p).isSome = true) : KeepsPage m (m.localCheckpoint dirty ppg) p := by
  obtain ⟨loc, hp⟩ := Option.isSome_iff_exists.mp hloc
  obtain ⟨n, gps, idx, heq⟩ := m.localCheckpoint_eq dirty ppg
  refine ⟨?_, fun loc _ => ?_⟩
  · rw [hp]
    refine Manifest.pageLocation_assignNewPagesToGroups (fun hmem => ?_) hp
    have hnone := (List.mem_filter.mp hmem).2
    rw [hp] at hnone
    cases hnone
  · rw [heq]
    exact ⟨rfl, rfl, rfl⟩

theorem KeepsPage.trans {m₀ m₁ m₂ : Manifest} (h : KeepsPage m₀ m₁ p) (h' : KeepsPage m₁ m₂ p) :
    KeepsPage m₀ m₂ p := by
  refine ⟨h'.1.trans h.1, fun loc hloc => ?_⟩
  have hobj := h.2 loc hloc
  have hobj' := h'.2 loc (h.1.trans hloc)
  exact ⟨hobj'.key.trans hobj.key, hobj'.frames.trans hobj.frames,
    hobj'.overrides.trans hobj.overrides⟩

theorem Kin.localCheckpoint {stored : PageMap} {m : Manifest} (h : Kin B stored m) {dirty : List Nat}
    (hnd : dirty.Nodup) : Kin B stored (m.localCheckpoint dirty B.manifest.pagesPerGroup) := by
  obtain ⟨n, gps, idx, heq⟩ := m.localCheckpoint_eq dirty B.manifest.pagesPerGroup
  obtain ⟨hlaid, hidx⟩ := partitioned_iff.mp h.partitioned
  refine ⟨?_, ?_, ?_, partitioned_iff.mpr (hlaid.localCheckpoint hidx hnd fun _ => ?_),
    fun p hst hp => ?_, fun p hst hp => ?_⟩
  · rw [heq]
    exact h.pageSize
  · rw [heq]
    exact h.framed
  · rw [heq]
    exact h.pagesPerGroup
  · exact ⟨B.grouped, h.pagesPerGroup.symm⟩
  · exact (h.bounded p hst hp).trans_le (le_pageCount_localCheckpoint ..)
  · exact (h.keeps p hst hp).trans (keepsPage_localCheckpoint
      (h.partitioned.isSome_pageLocation h.grouped (h.bounded p hst hp)))

theorem Coherent.checkpoint (h : Coherent B s) (hsafe : Safe B s (.checkpoint hd)) :
    Coherent B { s with
      manifest := s.manifest.localCheckpoint (s.dirty hd) B.manifest.pagesPerGroup
      dirty := Function.update s.dirty hd [] } := by
  have hle := le_pageCount_localCheckpoint s.manifest (s.dirty hd) B.manifest.pagesPerGroup
  -- a page that was dirty is still dirty, or now below the page count
  have hdirty : ∀ q, (∃ h', q ∈ s.dirty h') →
      q < (s.manifest.localCheckpoint (s.dirty hd) B.manifest.pagesPerGroup).pageCount ∨
        ∃ h', q ∈ Function.update s.dirty hd [] h' := by
    rintro q ⟨h', hq⟩
    by_cases hh : h' = hd
    · exact .inl (hsafe q (hh ▸ hq))
    · exact .inr ⟨h', by rw [Function.update_of_ne hh]; exact hq⟩
  have hclean : ∀ h' q, q ∈ Function.update s.dirty hd [] h' → q ∈ s.dirty h' := by
    intro h' q hq
    by_cases hh : h' = hd
    · rw [hh, Function.update_self] at hq
      cases hq
    · rw [Function.update_of_ne hh] at hq
      exact hq
  exact
    { h with
      inside := fun q hq => by
        rcases h.inside q hq with hlt | hex
        · exact .inl (hlt.trans_le hle)
        · exact hdirty q hex
      dirty := fun h' q hq => h.dirty h' q (hclean h' q hq)
      nodup := fun h' => by
        dsimp only
        by_cases hh : h' = hd
        · rw [hh, Function.update_self]
          exact List.nodup_nil
        · rw [Function.update_of_ne hh]
          exact h.nodup h'
      past := fun q hq => by
        rcases h.past q (hle.trans hq) with hzero | hex
        · exact .inl hzero
        · rcases hdirty q hex with hlt | hex
          · exact absurd hq (Nat.not_le.mpr hlt)
          · exact .inr hex
      manifest := h.manifest.localCheckpoint (h.nodup hd) }

/-! ### Replays -/

/-- What a new page count leaves alone. -/
theorem setReplayPageCount_fields (m : Manifest) (old n : Nat) :
    (m.setReplayPageCount old n).pageSize = m.pageSize ∧
      (m.setReplayPageCount old n).subPagesPerFrame = m.subPagesPerFrame ∧
      (m.setReplayPageCount old n).pagesPerGroup = m.pagesPerGroup ∧
      (m.setReplayPageCount old n).pageCount = n := by
  have hbuild : ∀ m' : Manifest, m'.buildPageIndex.pageSize = m'.pageSize ∧
      m'.buildPageIndex.subPagesPerFrame = m'.subPagesPerFrame ∧
      m'.buildPageIndex.pagesPerGroup = m'.pagesPerGroup ∧
      m'.buildPageIndex.pageCount = m'.pageCount := by
    intro m'
    obtain ⟨st, idx, heq⟩ := m'.buildPageIndex_eq
    rw [heq]
    exact ⟨rfl, rfl, rfl, rfl⟩
  unfold Manifest.setReplayPageCount
  split
  · exact ⟨rfl, rfl, rfl, rfl⟩
  · split
    · exact hbuild _
    · split
      · exact hbuild _
      · exact hbuild _

variable {r : ReplayHandle B.manifest.pageSize}

theorem postManifest_fields (m : Manifest) : (r.postManifest m).pageSize = m.pageSize ∧
    (r.postManifest m).subPagesPerFrame = m.subPagesPerFrame ∧
    (r.postManifest m).pagesPerGroup = m.pagesPerGroup ∧
    (r.postManifest m).pageCount = r.newPageCount m := by
  unfold ReplayHandle.postManifest
  dsimp only
  split
  · exact setReplayPageCount_fields m m.pageCount _
  · rename_i hn
    exact ⟨rfl, rfl, rfl, (not_not.mp hn).symm⟩

theorem partitioned_postManifest {m : Manifest} (h : Partitioned m)
    (hgrow : CanGrow m (r.newPageCount m)) : Partitioned (r.postManifest m) := by
  obtain ⟨hlaid, hidx⟩ := partitioned_iff.mp h
  have hmoved : Laid (if r.newPageCount m ≠ m.pageCount then
      m.setReplayPageCount m.pageCount (r.newPageCount m) else m) ∧
      (if r.newPageCount m ≠ m.pageCount then
        m.setReplayPageCount m.pageCount (r.newPageCount m) else m).Indexed := by
    split
    · exact hlaid.setReplayPageCount hidx hgrow
    · exact ⟨hlaid, hidx⟩
  exact partitioned_iff.mpr ⟨⟨hmoved.1.normal, hmoved.1.covered, hmoved.1.nodup, hmoved.1.bounded⟩,
    hmoved.2.positional, hmoved.2.bTreeAware⟩

theorem mem_pages_of_lookup {d : Bytes} (h : r.staged.lookup p = some d) : (p, d) ∈ r.pages :=
  ReplayHandle.mem_pages.mpr h

theorem Coherent.replayed (h : Coherent B s) (hn : r.maxSqlitePageId ≤ r.newPageCount s.manifest)
    (hsafe : Safe B s (.finalize r)) : Coherent B (s.replayed B r) := by
  obtain ⟨hclean, hgrow, hkeeps⟩ := hsafe
  obtain ⟨hps, hspf, hppg, hcount⟩ := postManifest_fields (r := r) s.manifest
  have hinside : ∀ q, (s.cache q).isSome = true → q < s.manifest.pageCount := by
    intro q hq
    rcases h.inside q hq with hlt | ⟨h', hh'⟩
    · exact hlt
    · rw [hclean h'] at hh'
      cases hh'
  have hstaged : ∀ q d, r.staged.lookup q = some d → q < r.newPageCount s.manifest :=
    fun q d hq => (r.below q d hq).trans_le hn
  -- what is cached afterwards was staged, or was cached and is not cut
  have hcache : ∀ q d, (s.replayed B r).cache q = some d → r.staged.lookup q = some d ∨
      (r.staged.lookup q = none ∧ s.cache q = some d ∧ q < r.newPageCount s.manifest) := by
    intro q d hq
    simp only [State.replayed] at hq
    split at hq
    · cases hq
    · rename_i hcut
      rcases s.cache.install_cases r.pages q with ⟨hnot, heq⟩ | ⟨d', hmem, heq⟩
      · rw [heq] at hq
        refine .inr ⟨?_, hq, ?_⟩
        · cases hl : r.staged.lookup q with
          | none => rfl
          | some d' => exact absurd (List.mem_map.mpr ⟨(q, d'), mem_pages_of_lookup hl, rfl⟩) hnot
        · have hlt := hinside q (by rw [hq]; rfl)
          omega
      · rw [heq] at hq
        cases hq
        exact .inl (ReplayHandle.mem_pages.mp hmem)
  have hfew : ∀ q, (s.replayed B r).stored q = none → s.stored q = none ∧
      q < r.newPageCount s.manifest := by
    intro q hq
    simp only [State.replayed] at hq
    split at hq
    · cases hq
    · rename_i hlt
      split at hq
      · cases hq
      · exact ⟨hq, Nat.not_le.mp hlt⟩
  have hmono : ∀ q, (s.replayed B r).stored q = none → s.stored q = none := fun q hq => (hfew q hq).1
  refine
    { h with
      cached := fun q d hq => ?_
      inside := fun q hq => ?_
      dirty := fun h' q hq => ?_
      past := fun q hq => ?_
      manifest := ⟨hps.trans h.manifest.pageSize, hspf ▸ h.manifest.framed,
        hppg.trans h.manifest.pagesPerGroup, partitioned_postManifest h.manifest.partitioned hgrow,
        fun q hst _ => ?_, fun q hst hq => ?_⟩
      reading := fun h' ms hms => ⟨(h.reading h' ms hms).1.mono hmono, (h.reading h' ms hms).2⟩
      jobs := fun j job hjob => ⟨(h.jobs j job hjob).1.mono hmono, (h.jobs j job hjob).2⟩
      openings := fun o opening ho => (h.openings o opening ho).mono hmono }
  · rcases hcache q d hq with hl | ⟨hl, hold, hlt⟩
    · simp only [State.content, State.replayed, if_neg (Nat.not_le.mpr (hstaged q d hl)), hl]
      rfl
    · simp only [State.content, State.replayed, if_neg (Nat.not_le.mpr hlt), hl]
      exact h.cached q d hold
  · obtain ⟨d, hd⟩ := Option.isSome_iff_exists.mp hq
    refine .inl (lt_of_lt_of_eq ?_ hcount.symm)
    rcases hcache q d hd with hl | ⟨-, -, hlt⟩
    · exact hstaged q d hl
    · exact hlt
  · have hq' : q ∈ s.dirty h' := hq
    rw [hclean h'] at hq'
    cases hq'
  · have hq' : r.newPageCount s.manifest ≤ q := hcount ▸ hq
    refine .inl ?_
    simp only [State.content, State.replayed, if_pos hq']
    rfl
  · exact lt_of_lt_of_eq (hfew q hst).2 hcount.symm
  · exact (h.manifest.keeps q (hfew q hst).1 hq).trans
      (hkeeps q ⟨(hfew q hst).1, hq⟩ (hfew q hst).2)

end Parts

/-! ### Steps and runs -/

section Run

variable {s s' : State} {e : Event B.manifest.pageSize}

theorem Coherent.step_lock (h : Coherent B s) {hd : Nat}
    (hs : Fetches.step B s (.lock hd) = some s') : Coherent B s' := by
  simp only [Fetches.step] at hs
  split at hs
  · cases hs
  · cases hs
    exact { h with }

theorem Coherent.step_unlock (h : Coherent B s) {hd : Nat}
    (hs : Fetches.step B s (.unlock hd) = some s') : Coherent B s' := by
  simp only [Fetches.step] at hs
  split at hs
  · cases hs
    exact { h with }
  · cases hs

theorem Coherent.step_write (h : Coherent B s) {hd p : Nat} {data : Bytes}
    (hs : Fetches.step B s (.write hd p data) = some s') : Coherent B s' := by
  simp only [Fetches.step] at hs
  split at hs
  · cases hs
    exact (h.seedGeometry data.length).write data
  · cases hs

theorem Coherent.step_checkpoint (h : Coherent B s) {hd : Nat} (hsafe : Safe B s (.checkpoint hd))
    (hs : Fetches.step B s (.checkpoint hd) = some s') : Coherent B s' := by
  simp only [Fetches.step] at hs
  split at hs
  · cases hs
    exact h.checkpoint hsafe
  · cases hs

theorem Coherent.step_read (h : Coherent B s) {hd p : Nat} {fast : Bool}
    (hsafe : Safe B s (.read hd p fast)) (hs : Fetches.step B s (.read hd p fast) = some s') :
    Coherent B s' := by
  simp only [Fetches.step] at hs
  split at hs
  · obtain ⟨result, hresult, rfl⟩ := Option.map_eq_some_iff.mp hs
    exact h.answer (.inr (h.serve hsafe hresult))
  · cases hs

theorem Coherent.step_miss (h : Coherent B s) {hd p : Nat} {scan : Bool}
    (hsafe : Safe B s (.miss hd p scan)) (hs : Fetches.step B s (.miss hd p scan) = some s') :
    Coherent B s' := by
  simp only [Fetches.step] at hs
  split at hs
  · obtain ⟨loc, hloc, rfl⟩ := Option.map_eq_some_iff.mp hs
    exact h.miss hsafe hloc
  · cases hs

theorem Coherent.step_recheck (h : Coherent B s) {hd : Nat}
    (hs : Fetches.step B s (.recheck hd) = some s') : Coherent B s' := by
  obtain ⟨ms, hms, hs⟩ := Option.bind_eq_some_iff.mp hs
  obtain ⟨data, hdata, hs⟩ := Option.bind_eq_some_iff.mp hs
  cases hs
  exact h.answer (.inr (by rw [← h.cached ms.page data hdata]))

theorem Coherent.step_finishFrame (h : Coherent B s) {hd : Nat} (hsafe : Safe B s (.finishFrame hd))
    (hs : Fetches.step B s (.finishFrame hd) = some s') : Coherent B s' := by
  obtain ⟨ms, hms, hs⟩ := Option.bind_eq_some_iff.mp hs
  split at hs
  · cases hs
  · rename_i hwhole
    cases hs
    exact h.finishFrame hms (Bool.eq_false_iff.mpr hwhole) (hsafe ms hms)

theorem Coherent.step_claim (h : Coherent B s) {hd : Nat}
    (hs : Fetches.step B s (.claim hd) = some s') : Coherent B s' := by
  obtain ⟨ms, hms, hs⟩ := Option.bind_eq_some_iff.mp hs
  split at hs
  · cases hs
    refine { h with reading := fun h' ms' hms' => ?_ }
    rcases of_update_eq_some hms' with ⟨-, hms'⟩ | hms'
    · cases hms'
      obtain ⟨hk, hb⟩ := h.reading hd ms hms
      exact ⟨hk, { hb with }⟩
    · exact h.reading h' ms' hms'
  · cases hs

theorem Coherent.step_finishGroup (h : Coherent B s) {hd : Nat} (hsafe : Safe B s (.finishGroup hd))
    (hs : Fetches.step B s (.finishGroup hd) = some s') : Coherent B s' := by
  obtain ⟨ms, hms, hs⟩ := Option.bind_eq_some_iff.mp hs
  split at hs
  · cases hs
    exact h.finishGroup hms (hsafe ms hms).1 (hsafe ms hms).2
  · cases hs

theorem Coherent.step_submit (h : Coherent B s) {hd j gid : Nat} {frame : Option Nat}
    (hs : Fetches.step B s (.submit hd j gid frame) = some s') : Coherent B s' := by
  obtain ⟨ms, hms, hs⟩ := Option.bind_eq_some_iff.mp hs
  split at hs
  · rename_i hguard
    cases hs
    refine h.update_jobs fun job hjob => ?_
    cases hjob
    exact ⟨(h.reading hd ms hms).1, hguard.2.2.2⟩
  · cases hs

theorem Coherent.step_start (h : Coherent B s) {j : Nat}
    (hs : Fetches.step B s (.start j) = some s') : Coherent B s' := by
  obtain ⟨job, hjob, hs⟩ := Option.bind_eq_some_iff.mp hs
  have hkept := h.jobs j job hjob
  split at hs
  · split at hs
    · cases hs
      refine { h.update_jobs (j := j) (v := some { job with started := true }) ?_ with }
      intro job' hjob'
      cases hjob'
      exact hkept
    · cases hs
  · cases hs
    refine h.update_jobs fun job' hjob' => ?_
    cases hjob'
    exact hkept

theorem Coherent.step_finishJob (h : Coherent B s) {j : Nat} (hsafe : Safe B s (.finishJob j))
    (hs : Fetches.step B s (.finishJob j) = some s') : Coherent B s' := by
  obtain ⟨job, hjob, hs⟩ := Option.bind_eq_some_iff.mp hs
  split at hs
  · cases hs
    have hdone := (h.finishJob hjob hsafe).update_jobs (j := j) (v := none)
      fun _ hnone => by cases hnone
    rw [jobs_finishJob] at hdone
    exact hdone
  · cases hs

theorem Coherent.step_dropJob (h : Coherent B s) {j : Nat}
    (hs : Fetches.step B s (.dropJob j) = some s') : Coherent B s' := by
  obtain ⟨job, hjob, hs⟩ := Option.bind_eq_some_iff.mp hs
  cases hs
  split
  · have hdone := (h.release job).update_jobs (j := j) (v := none) fun _ hnone => by cases hnone
    rw [jobs_release] at hdone
    exact hdone
  · exact h.update_jobs fun _ hnone => by cases hnone

theorem Coherent.step_openHandle (h : Coherent B s) {o : Nat}
    (hs : Fetches.step B s (.openHandle o) = some s') : Coherent B s' := by
  simp only [Fetches.step] at hs
  split at hs
  · cases hs
    refine h.update_openings fun opening hopen => ?_
    cases hopen
    exact h.manifest
  · cases hs

theorem Coherent.step_openClaim (h : Coherent B s) {o : Nat}
    (hs : Fetches.step B s (.openClaim o) = some s') : Coherent B s' := by
  obtain ⟨opening, hopen, hs⟩ := Option.bind_eq_some_iff.mp hs
  split at hs
  · cases hs
    refine { h.update_openings (o := o) (v := some { opening with epoch := some s.epoch }) ?_ with }
    intro opening' hopen'
    cases hopen'
    exact h.openings o opening hopen
  · cases hs

theorem Coherent.step_openFinish (h : Coherent B s) {o : Nat} (hsafe : Safe B s (.openFinish o))
    (hs : Fetches.step B s (.openFinish o) = some s') : Coherent B s' := by
  obtain ⟨opening, hopen, hs⟩ := Option.bind_eq_some_iff.mp hs
  obtain ⟨epoch, hepoch, hs⟩ := Option.bind_eq_some_iff.mp hs
  cases hs
  have hdone := (h.finishOpening hopen hepoch hsafe).update_openings (o := o) (v := none)
    fun _ hnone => by cases hnone
  rw [openings_finishOpening] at hdone
  exact hdone

theorem Coherent.step_openDrop (h : Coherent B s) {o : Nat}
    (hs : Fetches.step B s (.openDrop o) = some s') : Coherent B s' := by
  obtain ⟨opening, hopen, hs⟩ := Option.bind_eq_some_iff.mp hs
  cases hs
  split
  · have hdone := (h.unclaimIfFetching 0).update_openings (o := o) (v := none)
      fun _ hnone => by cases hnone
    rw [openings_unclaimIfFetching] at hdone
    exact hdone
  · exact h.update_openings fun _ hnone => by cases hnone

theorem Coherent.step_finalize (h : Coherent B s) {r : ReplayHandle B.manifest.pageSize}
    (hsafe : Safe B s (.finalize r)) (hs : Fetches.step B s (.finalize r) = some s') :
    Coherent B s' := by
  simp only [Fetches.step] at hs
  split at hs
  · rename_i hguard
    cases hs
    exact h.replayed hguard.2.1 hsafe
  · cases hs

/-- Every safe step keeps the invariant. -/
theorem Coherent.step (h : Coherent B s) (hsafe : Safe B s e) (hs : step B s e = some s') :
    Coherent B s' := by
  cases e with
  | lock hd => exact h.step_lock hs
  | unlock hd => exact h.step_unlock hs
  | write hd p data => exact h.step_write hs
  | checkpoint hd => exact h.step_checkpoint hsafe hs
  | read hd p fast => exact h.step_read hsafe hs
  | miss hd p scan => exact h.step_miss hsafe hs
  | recheck hd => exact h.step_recheck hs
  | finishFrame hd => exact h.step_finishFrame hsafe hs
  | claim hd => exact h.step_claim hs
  | finishGroup hd => exact h.step_finishGroup hsafe hs
  | giveUp hd => exact absurd hsafe id
  | submit hd j gid frame => exact h.step_submit hs
  | start j => exact h.step_start hs
  | finishJob j => exact h.step_finishJob hsafe hs
  | dropJob j => exact h.step_dropJob hs
  | openHandle o => exact h.step_openHandle hs
  | openClaim o => exact h.step_openClaim hs
  | openFinish o => exact h.step_openFinish hsafe hs
  | openDrop o => exact h.step_openDrop hs
  | finalize r => exact h.step_finalize hsafe hs

theorem coherent_initial : Coherent B B.initial where
  cached _ _ h := by cases h
  inside _ h := by cases h
  dirty _ _ h := by cases h
  nodup _ := List.nodup_nil
  past p hp := .inl (if_neg (Nat.not_lt.mpr hp))
  manifest := kin_base
  reading _ _ h := by cases h
  jobs _ _ h := by cases h
  openings _ _ h := by cases h
  answers _ h := by cases h

theorem coherent_run {es : List (Event B.manifest.pageSize)}
    (hsafe : Meets (Fetches.step B) (Safe B) B.initial es)
    (hrun : run (Fetches.step B) B.initial es = some s') : Coherent B s' :=
  run_invariant (fun _ _ _ h hcond hstep => h.step hcond hstep) coherent_initial hsafe hrun

end Run

/-! ### Read your writes -/

namespace Event

variable {n : Nat}

/-- The replay side. -/
def IsReplay : Event n → Prop
  | .finalize _ => True
  | _ => False

/-- The write side. -/
def IsWrite : Event n → Prop
  | .write .. | .checkpoint _ => True
  | _ => False

/-- The bytes an event writes to a page. -/
def written (p : Nat) : Event n → Option Bytes
  | .write _ q data => if q = p then some data else none
  | _ => none

end Event

/-- The last write to a page in a run. -/
def lastWrite {n : Nat} (es : List (Event n)) (p : Nat) : Option Bytes :=
  (es.filterMap (Event.written p)).getLast?

section ReadYourWrites

variable {s s' : State} {e : Event B.manifest.pageSize}

/-- The second state differs in the cache and in what fetches know, not in what was stored, read or
replayed. -/
structure Aside (s s' : State) : Prop where
  stored : s'.stored = s.stored
  batches : s'.batches = s.batches
  inside : s'.inside = s.inside
  reading : s'.reading = s.reading
  answers : s'.answers = s.answers

theorem aside_refl (s : State) : Aside s s := ⟨rfl, rfl, rfl, rfl, rfl⟩

theorem aside_unclaimIfFetching (s : State) (gid : Nat) : Aside s (s.unclaimIfFetching gid) := by
  unfold State.unclaimIfFetching
  split
  · exact ⟨rfl, rfl, rfl, rfl, rfl⟩
  · exact aside_refl s

theorem aside_release (s : State) (job : Job) : Aside s (job.release s) := by
  unfold Job.release
  split
  · exact aside_unclaimIfFetching s job.gid
  · exact aside_refl s

theorem aside_finishJob (s : State) (job : Job) : Aside s (finishJob B s job) := by
  unfold finishJob
  split
  · exact aside_release s job
  · split
    · split
      · exact ⟨rfl, rfl, rfl, rfl, rfl⟩
      · exact ⟨rfl, rfl, rfl, rfl, rfl⟩
    · exact aside_release s job

theorem aside_finishOpening (s : State) (opening : Opening) (epoch : Nat) :
    Aside s (finishOpening B s opening epoch) := by
  unfold finishOpening
  split
  · exact aside_unclaimIfFetching s 0
  · split
    · exact ⟨rfl, rfl, rfl, rfl, rfl⟩
    · exact aside_unclaimIfFetching s 0

/-- The end of a foreground read: it returns, or goes on with the whole group. -/
theorem finishFrame_cases (s : State) (hd : Nat) (ms : Miss) :
    (∃ t result, Aside s t ∧ finishFrame B s hd ms = t.answer B hd ms.page ms.before result) ∨
      finishFrame B s hd ms =
        { s with reading := Function.update s.reading hd (some { ms with whole := true }) } := by
  unfold finishFrame
  dsimp only
  split
  · exact .inl ⟨s, _, aside_refl s, rfl⟩
  · exact .inr rfl
  · split
    · exact .inl ⟨s, _, aside_refl s, rfl⟩
    · exact .inl ⟨s.install _, _, ⟨rfl, rfl, rfl, rfl, rfl⟩, rfl⟩

theorem finishGroup_cases (s : State) (hd : Nat) (ms : Miss) :
    ∃ t result, Aside s t ∧ finishGroup B s hd ms = t.answer B hd ms.page ms.before result := by
  unfold finishGroup
  dsimp only
  split
  · exact ⟨_, _, aside_unclaimIfFetching s _, rfl⟩
  · split
    · exact ⟨_, _, aside_unclaimIfFetching s _, rfl⟩
    · exact ⟨(s.install _).markGroupPresent _, _, ⟨rfl, rfl, rfl, rfl, rfl⟩, rfl⟩

variable (B) in
/-- What a step does that is neither a write nor a replay. -/
inductive Quiet (s : State) : State → Prop
  /-- fetches go on -/
  | aside {t : State} (h : Aside s t) : Quiet s t
  | lock {hd : Nat} (h : hd ∉ s.inside) :
      Quiet s { s with inside := s.inside.insert hd s.batches.length }
  | unlock {hd : Nat} (h : s.reading hd = none) : Quiet s { s with inside := s.inside.erase hd }
  /-- a read that needed no fetch -/
  | read {hd p : Nat} {result : IoResult Bytes} (h : hd ∈ s.inside) :
      Quiet s (s.answer B hd p (s.content B p) result)
  | miss {hd p : Nat} {ms : Miss} (h : hd ∈ s.inside) (hp : ms.page = p)
      (hb : ms.before = s.content B p) :
      Quiet s { s with reading := Function.update s.reading hd (some ms) }
  /-- a read goes on -/
  | goOn {hd : Nat} {ms : Miss} {t : State} (ms' : Miss) (h : s.reading hd = some ms)
      (hp : ms'.page = ms.page) (hb : ms'.before = ms.before)
      (ht : Aside { s with reading := Function.update s.reading hd (some ms') } t) : Quiet s t
  /-- a read that waited returns -/
  | finish {hd : Nat} {ms : Miss} {t : State} {result : IoResult Bytes} (h : s.reading hd = some ms)
      (ht : Aside s t) : Quiet s (t.answer B hd ms.page ms.before result)

theorem Aside.trans {s t u : State} (h : Aside s t) (h' : Aside t u) : Aside s u :=
  ⟨h'.stored.trans h.stored, h'.batches.trans h.batches, h'.inside.trans h.inside,
    h'.reading.trans h.reading, h'.answers.trans h.answers⟩

/-- Every step is a write, a replay, or quiet. -/
theorem quiet_of_step (hs : step B s e = some s') (hr : ¬ e.IsReplay) (hw : ¬ e.IsWrite) :
    Quiet B s s' := by
  cases e with
  | lock hd =>
    simp only [step] at hs
    split at hs
    · cases hs
    · rename_i hnot
      cases hs
      exact .lock hnot
  | unlock hd =>
    simp only [step] at hs
    split at hs
    · rename_i hfree
      cases hs
      exact .unlock (Option.isNone_iff_eq_none.mp hfree.2)
    · cases hs
  | write hd p data => exact absurd trivial hw
  | checkpoint hd => exact absurd trivial hw
  | read hd p fast =>
    simp only [step] at hs
    split at hs
    · rename_i hfree
      obtain ⟨result, -, rfl⟩ := Option.map_eq_some_iff.mp hs
      exact .read hfree.1
    · cases hs
  | miss hd p scan =>
    simp only [step] at hs
    split at hs
    · rename_i hguard
      obtain ⟨loc, -, rfl⟩ := Option.map_eq_some_iff.mp hs
      exact .miss hguard.1.1 rfl rfl
    · cases hs
  | recheck hd =>
    obtain ⟨ms, hms, hs⟩ := Option.bind_eq_some_iff.mp hs
    obtain ⟨data, -, hs⟩ := Option.bind_eq_some_iff.mp hs
    cases hs
    exact .finish hms (aside_refl s)
  | finishFrame hd =>
    obtain ⟨ms, hms, hs⟩ := Option.bind_eq_some_iff.mp hs
    split at hs
    · cases hs
    · cases hs
      rcases finishFrame_cases s hd ms with ⟨t, result, ht, heq⟩ | heq
      · rw [heq]
        exact .finish hms ht
      · rw [heq]
        exact .goOn { ms with whole := true } hms rfl rfl (aside_refl _)
  | claim hd =>
    obtain ⟨ms, hms, hs⟩ := Option.bind_eq_some_iff.mp hs
    split at hs
    · cases hs
      exact .goOn { ms with claimed := true } hms rfl rfl ⟨rfl, rfl, rfl, rfl, rfl⟩
    · cases hs
  | finishGroup hd =>
    obtain ⟨ms, hms, hs⟩ := Option.bind_eq_some_iff.mp hs
    split at hs
    · cases hs
      obtain ⟨t, result, ht, heq⟩ := finishGroup_cases s hd ms
      rw [heq]
      exact .finish hms ht
    · cases hs
  | giveUp hd =>
    obtain ⟨ms, hms, hs⟩ := Option.bind_eq_some_iff.mp hs
    split at hs
    · cases hs
      exact .finish hms (aside_refl s)
    · cases hs
  | submit hd j gid frame =>
    obtain ⟨ms, -, hs⟩ := Option.bind_eq_some_iff.mp hs
    split at hs
    · cases hs
      exact .aside ⟨rfl, rfl, rfl, rfl, rfl⟩
    · cases hs
  | start j =>
    obtain ⟨job, -, hs⟩ := Option.bind_eq_some_iff.mp hs
    split at hs
    · split at hs
      · cases hs
        exact .aside ⟨rfl, rfl, rfl, rfl, rfl⟩
      · cases hs
    · cases hs
      exact .aside ⟨rfl, rfl, rfl, rfl, rfl⟩
  | finishJob j =>
    obtain ⟨job, -, hs⟩ := Option.bind_eq_some_iff.mp hs
    split at hs
    · cases hs
      exact .aside ((aside_finishJob s job).trans ⟨rfl, rfl, rfl, rfl, rfl⟩)
    · cases hs
  | dropJob j =>
    obtain ⟨job, -, hs⟩ := Option.bind_eq_some_iff.mp hs
    cases hs
    split
    · exact .aside ((aside_release s job).trans ⟨rfl, rfl, rfl, rfl, rfl⟩)
    · exact .aside ⟨rfl, rfl, rfl, rfl, rfl⟩
  | openHandle o =>
    simp only [step] at hs
    split at hs
    · cases hs
      exact .aside ⟨rfl, rfl, rfl, rfl, rfl⟩
    · cases hs
  | openClaim o =>
    obtain ⟨opening, -, hs⟩ := Option.bind_eq_some_iff.mp hs
    split at hs
    · cases hs
      exact .aside ⟨rfl, rfl, rfl, rfl, rfl⟩
    · cases hs
  | openFinish o =>
    obtain ⟨opening, -, hs⟩ := Option.bind_eq_some_iff.mp hs
    obtain ⟨epoch, -, hs⟩ := Option.bind_eq_some_iff.mp hs
    cases hs
    exact .aside ((aside_finishOpening s opening epoch).trans ⟨rfl, rfl, rfl, rfl, rfl⟩)
  | openDrop o =>
    obtain ⟨opening, -, hs⟩ := Option.bind_eq_some_iff.mp hs
    cases hs
    split
    · exact .aside ((aside_unclaimIfFetching s 0).trans ⟨rfl, rfl, rfl, rfl, rfl⟩)
    · exact .aside ⟨rfl, rfl, rfl, rfl, rfl⟩
  | finalize r => exact absurd trivial hr

theorem Quiet.stored (h : Quiet B s s') : s'.stored = s.stored := by
  cases h with
  | aside h => exact h.stored
  | lock => rfl
  | unlock => rfl
  | read => rfl
  | miss => rfl
  | goOn _ _ _ _ ht => exact ht.stored
  | finish _ ht => exact ht.stored

/-- Only a write stores something. -/
theorem stored_step (hs : step B s e = some s') (he : ¬ e.IsReplay) (p : Nat) :
    s'.stored p = (e.written p).or (s.stored p) := by
  by_cases hw : e.IsWrite
  · cases e with
    | write hd q data =>
      simp only [step] at hs
      split at hs
      · cases hs
        by_cases hq : q = p
        · subst hq
          simp [Event.written]
        · simp [Event.written, hq, Function.update_of_ne (Ne.symm hq)]
      · cases hs
    | checkpoint hd =>
      simp only [step] at hs
      split at hs
      · cases hs
        rfl
      · cases hs
    | _ => exact absurd hw id
  · have hnone : e.written p = none := by
      cases e with
      | write => exact absurd trivial hw
      | _ => rfl
    rw [(quiet_of_step hs he hw).stored, hnone]
    rfl

theorem stored_run {es : List (Event B.manifest.pageSize)} (hes : ∀ e ∈ es, ¬ e.IsReplay)
    (hrun : run (step B) s es = some s') (p : Nat) :
    s'.stored p = (lastWrite es p).or (s.stored p) := by
  induction es generalizing s with
  | nil =>
    cases hrun
    rfl
  | cons e es ih =>
    obtain ⟨m, hm, hrun⟩ := run_cons.mp hrun
    rw [ih (fun e he => hes e (List.mem_cons_of_mem _ he)) hrun, stored_step hm (hes e List.mem_cons_self)]
    unfold lastWrite
    rw [List.filterMap_cons]
    cases e.written p with
    | none => rfl
    | some d =>
      dsimp only
      rw [List.getLast?_cons]
      cases (es.filterMap (Event.written p)).getLast? with
      | none => rfl
      | some x => rfl

end ReadYourWrites

/-! ### Four pages in two frames -/

namespace Example

/-- A page filled with one byte. -/
def page (x : UInt8) : Bytes := List.replicate 512 x

theorem length_page (x : UInt8) : (page x).length = 512 := List.length_replicate ..

/-- The pages of group 0. -/
def pages : List (Option Bytes) := [some (page 1), some (page 2), some (page 3), some (page 4)]

/-- The object of group 0: pages 0 and 1 in one frame, 2 and 3 in another. -/
def group : Bytes × List FrameEntry :=
  CodecConfig.plain.encodePageGroupSeekable (aadPageGroup 0) 512 2 pages

/-- Four pages in group 0. -/
def manifest : Manifest where
  version := 1
  pageCount := 4
  pageSize := 512
  pagesPerGroup := 4
  pageGroupKeys := [some (.pageGroup 0 1)]
  frameTables := [group.2]
  subPagesPerFrame := 2

/-- Its object. -/
def backend : Backend where
  objects := fun
    | .pageGroup 0 1 => some group.1
    | _ => none

/-- The four pages, without overrides. -/
def content : Nat → GroupContent := fun _ =>
  { base := pages.map (CodecConfig.padPage 512)
    overFrames := fun _ => none }

theorem located {p gid i : Nat} (h : manifest.pageLocation p = some ⟨gid, i⟩) :
    p < 4 ∧ gid = 0 ∧ i = p := by
  have heq : manifest.pageLocation p = if 4 = 0 ∨ 4 ≤ p then none else some ⟨p / 4, p % 4⟩ := rfl
  rw [heq] at h
  by_cases hp : 4 = 0 ∨ 4 ≤ p
  · rw [if_pos hp] at h
    cases h
  · rw [if_neg hp] at h
    cases h
    omega

theorem holdsGroup : HoldsGroup .plain manifest backend 0 (content 0) where
  base := ⟨.pageGroup 0 1, group.1, rfl, rfl,
    fun _ => CodecConfig.encodePageGroupSeekable_holds Codecs.plain_lawful _ (by
      intro data hd
      simp only [pages, List.mem_cons, Option.some.injEq, List.not_mem_nil, or_false] at hd
      rcases hd with rfl | rfl | rfl | rfl <;> exact (length_page _).le),
    fun h => absurd h (by decide)⟩
  size := show 8 + 4 * 512 ≤ 2 ^ 30 by decide
  overFrames := fun _ => rfl

theorem represents : Represents .plain manifest backend content where
  pageSize_pos := by decide
  located := by
    intro p gid i h
    obtain ⟨hp, rfl, rfl⟩ := located h
    obtain rfl | rfl | rfl | rfl : i = 0 ∨ i = 1 ∨ i = 2 ∨ i = 3 := by omega
    · rfl
    · rfl
    · rfl
    · rfl
  nodup := fun gid => List.nodup_range'
  legacy := fun h => absurd h (by decide)
  holds := by
    rintro gid ⟨p, i, -, hloc⟩
    obtain ⟨-, rfl, -⟩ := located hloc
    exact holdsGroup
  defined := by
    intro p gid i _ hloc
    obtain ⟨hp, rfl, rfl⟩ := located hloc
    obtain rfl | rfl | rfl | rfl : i = 0 ∨ i = 1 ∨ i = 2 ∨ i = 3 := by omega
    · rfl
    · rfl
    · rfl
    · rfl

/-- The database of the four pages, under a cache with the same frames. -/
def base : Base .plain where
  manifest := manifest
  backend := backend
  content := content
  subPagesPerFrame := 2
  represents := represents
  partitioned := ⟨fun _ => rfl, (fun h => by cases h), List.nodup_nil, (fun h => by cases h),
    fun _ h => by cases h⟩
  grouped := by decide
  plain := fun h => absurd h (by decide)

end Example

/-- In a run of writes, checkpoints and fetches, whose steps are safe, every read returns the last write
of its page or else the remote bytes, and these are what the cache holds. -/
theorem reads_return_last_write (B : Base cfg) {es : List (Event B.manifest.pageSize)} {s' : State}
    (hes : ∀ e ∈ es, ¬ e.IsReplay) (hsafe : Meets (step B) (Safe B) B.initial es)
    (hrun : run (step B) B.initial es = some s') :
    (∀ a ∈ s'.answers, a.Right) ∧ (∀ p, s'.content B p = (lastWrite es p).getD (B.page p)) ∧
      ∀ p data, s'.cache p = some data → data = (lastWrite es p).getD (B.page p) := by
  have h := coherent_run hsafe hrun
  have hcontent : ∀ p, s'.content B p = (lastWrite es p).getD (B.page p) := by
    intro p
    unfold State.content
    rw [stored_run hes hrun]
    cases lastWrite es p with
    | none => rfl
    | some d => rfl
  exact ⟨h.answers, hcontent, fun p data hp => (h.cached p data hp).trans (hcontent p)⟩

namespace Example

/-- A page of the first frame is written, then the second frame is fetched. -/
def fetching : List (Event base.manifest.pageSize) :=
  [.lock 0, .write 0 0 (page 7), .miss 0 2 false, .finishFrame 0, .read 0 0 true, .read 0 2 true]

theorem fetching_no_replay : ∀ e ∈ fetching, ¬ e.IsReplay := by
  intro e he
  simp only [fetching, List.mem_cons, List.not_mem_nil, or_false] at he
  rcases he with rfl | rfl | rfl | rfl | rfl | rfl <;> exact id

/-- A page that was not written so far is as it is in the store. -/
theorem fetching_remote {n p : Nat} {s : State}
    (hrun : run (step base) base.initial (fetching.take n) = some s)
    (hw : lastWrite (fetching.take n) p = none) (hp : p < 4) : s.Remote base p := by
  refine ⟨?_, hp⟩
  rw [stored_run (fun e he => fetching_no_replay e (List.mem_of_mem_take he)) hrun, hw]
  rfl

/-- What the fetch installs was not written. -/
theorem fetching_frame {s : State} (hrun : run (step base) base.initial (fetching.take 3) = some s) :
    Safe base s (.finishFrame 0) := by
  have hpages : (run (step base) base.initial (fetching.take 3)).map
      (fun s => (s.reading 0).map fun ms => (ms.frameWrites base).map (·.1)) =
      some (some [2, 3]) := by decide +kernel
  rw [hrun] at hpages
  intro ms hms w hw
  have hreads : (s.reading 0).map (fun ms => (ms.frameWrites base).map (·.1)) = some [2, 3] :=
    Option.some.inj hpages
  rw [hms] at hreads
  have hlist : (ms.frameWrites base).map (·.1) = [2, 3] := Option.some.inj hreads
  have hmem := List.mem_map_of_mem (f := (·.1)) hw
  rw [hlist] at hmem
  simp only [List.mem_cons, List.not_mem_nil, or_false] at hmem
  rcases hmem with hp | hp
  · rw [hp]
    exact fetching_remote hrun rfl (by decide)
  · rw [hp]
    exact fetching_remote hrun rfl (by decide)

theorem fetching_read {n p : Nat} {fast : Bool} {s : State} (hp : p < 4)
    (hcount : (run (step base) base.initial (fetching.take n)).map (·.manifest.pageCount) = some 4)
    (hrun : run (step base) base.initial (fetching.take n) = some s) :
    Safe base s (.read 0 p fast) := by
  rw [hrun] at hcount
  exact fun _ _ => .inr (hp.trans_eq (Option.some.inj hcount).symm)

theorem fetching_safe : Meets (step base) (Safe base) base.initial fetching := by
  refine ⟨trivial, fun s₁ h₁ => ⟨trivial, fun s₂ h₂ => ?_⟩⟩
  have hrun₂ : run (step base) base.initial (fetching.take 2) = some s₂ :=
    run_cons.mpr ⟨s₁, h₁, run_cons.mpr ⟨s₂, h₂, rfl⟩⟩
  refine ⟨fetching_remote hrun₂ rfl (by decide), fun s₃ h₃ => ?_⟩
  have hrun₃ : run (step base) base.initial (fetching.take 3) = some s₃ :=
    run_cons.mpr ⟨s₁, h₁, run_cons.mpr ⟨s₂, h₂, run_cons.mpr ⟨s₃, h₃, rfl⟩⟩⟩
  refine ⟨fetching_frame hrun₃, fun s₄ h₄ => ?_⟩
  have hrun₄ : run (step base) base.initial (fetching.take 4) = some s₄ :=
    run_cons.mpr ⟨s₁, h₁, run_cons.mpr ⟨s₂, h₂, run_cons.mpr ⟨s₃, h₃, run_cons.mpr ⟨s₄, h₄, rfl⟩⟩⟩⟩
  refine ⟨fetching_read (by decide) (by decide +kernel) hrun₄, fun s₅ h₅ => ?_⟩
  have hrun₅ : run (step base) base.initial (fetching.take 5) = some s₅ :=
    run_cons.mpr ⟨s₁, h₁, run_cons.mpr ⟨s₂, h₂, run_cons.mpr ⟨s₃, h₃, run_cons.mpr ⟨s₄, h₄,
      run_cons.mpr ⟨s₅, h₅, rfl⟩⟩⟩⟩⟩
  exact ⟨fetching_read (by decide) (by decide +kernel) hrun₅, fun _ _ => trivial⟩

end Example

/-- A write, an install of the frame beside it, and reads of both. -/
theorem write_is_read : ∃ s', run (step Example.base) Example.base.initial Example.fetching = some s' ∧
    s'.answers.map (fun a => (a.page, a.result.toOption)) =
      [(2, some (Example.page 3)), (0, some (Example.page 7)), (2, some (Example.page 3))] ∧
    (∀ a ∈ s'.answers, a.Right) ∧ s'.content Example.base 0 = Example.page 7 ∧
    ∀ data, s'.cache 3 = some data → data = Example.page 4 := by
  have hrun : (run (step Example.base) Example.base.initial Example.fetching).map
      (fun s => s.answers.map fun a => (a.page, a.result.toOption)) =
      some [(2, some (Example.page 3)), (0, some (Example.page 7)), (2, some (Example.page 3))] := by
    decide +kernel
  obtain ⟨s', hs', hans⟩ := Option.map_eq_some_iff.mp hrun
  obtain ⟨hright, hcontent, hcached⟩ :=
    reads_return_last_write Example.base Example.fetching_no_replay Example.fetching_safe hs'
  have hwritten : lastWrite Example.fetching 0 = some (Example.page 7) := rfl
  have hremote : lastWrite Example.fetching 3 = none := rfl
  have hpage : Example.base.page 3 = Example.page 4 := by decide +kernel
  refine ⟨s', hs', hans, hright, ?_, fun data hd => ?_⟩
  · rw [hcontent 0, hwritten]
    rfl
  · rw [hcached 3 data hd, hremote, ← hpage]
    rfl

/-- The read of page 1 installs the whole frame, and page 0 is back to its remote bytes. -/
theorem write_lost_to_frame : ∃ s', run (step Example.base) Example.base.initial
      [.lock 0, .write 0 0 (Example.page 7), .miss 0 1 false, .finishFrame 0, .read 0 0 true] =
        some s' ∧
    s'.answers.map (fun a => (a.page, a.result.toOption, a.after)) =
      [(1, some (Example.page 2), Example.page 2), (0, some (Example.page 1), Example.page 7)] ∧
    ¬ ∀ a ∈ s'.answers, a.Right := by
  have hrun : (run (step Example.base) Example.base.initial
      [.lock 0, .write 0 0 (Example.page 7), .miss 0 1 false, .finishFrame 0, .read 0 0 true]).map
        (fun s => s.answers.map fun a => (a.page, a.result.toOption, a.before, a.after)) =
      some [(1, some (Example.page 2), Example.page 2, Example.page 2),
        (0, some (Example.page 1), Example.page 7, Example.page 7)] := by decide +kernel
  obtain ⟨s', hs', hans⟩ := Option.map_eq_some_iff.mp hrun
  refine ⟨s', hs', ?_, fun hall => ?_⟩
  · have hmap := congrArg (List.map fun x : Nat × Option Bytes × Bytes × Bytes =>
      (x.1, x.2.1, x.2.2.2)) hans
    rw [List.map_map] at hmap
    exact hmap
  · have hmem : (0, some (Example.page 1), Example.page 7, Example.page 7) ∈
        s'.answers.map fun a => (a.page, a.result.toOption, a.before, a.after) := by
      rw [hans]
      exact List.mem_cons_of_mem _ List.mem_cons_self
    obtain ⟨a, ha, heq⟩ := List.mem_map.mp hmem
    obtain ⟨-, hres, hbef, haft⟩ : a.page = 0 ∧ a.result.toOption = some (Example.page 1) ∧
        a.before = Example.page 7 ∧ a.after = Example.page 7 := by simpa using heq
    rcases hall a ha with hr | hr
    · rw [hr, hbef] at hres
      exact absurd hres (by decide +kernel)
    · rw [hr, haft] at hres
      exact absurd hres (by decide +kernel)

/-! ### Replays and their readers -/

/-- The image under a batch: overwritten by its pages, cut or extended to its page count. -/
def Batch.apply (B : Base cfg) (img : Nat → Bytes) (batch : Batch) (p : Nat) : Bytes :=
  if batch.pageCount ≤ p then zeroPage B.manifest else (batch.staged p).getD (img p)

/-- The base image after some replays. -/
def imageAfter (B : Base cfg) (batches : List Batch) : Nat → Bytes :=
  batches.foldl (Batch.apply B) B.page

/-- Every reader sees one image. -/
structure Fenced (B : Base cfg) (s : State) : Prop where
  content : ∀ p, s.content B p = imageAfter B s.batches p
  inside : ∀ h n, s.inside.lookup h = some n → n = s.batches.length
  reading : ∀ h ms, s.reading h = some ms → h ∈ s.inside ∧ ms.before = imageAfter B s.batches ms.page
  answers : ∀ a ∈ s.answers, a.seen ≤ s.batches.length ∧
    a.before = imageAfter B (s.batches.take a.seen) a.page ∧ a.after = a.before

section Fenced

variable {s s' : State}

theorem imageAfter_append (batches : List Batch) (batch : Batch) :
    imageAfter B (batches ++ [batch]) = Batch.apply B (imageAfter B batches) batch := by
  unfold imageAfter
  rw [List.foldl_append]
  rfl

theorem fenced_initial : Fenced B B.initial where
  content _ := rfl
  inside _ _ h := by cases h
  reading _ _ h := by cases h
  answers _ h := by cases h

theorem Aside.content (h : Aside s s') (p : Nat) : s'.content B p = s.content B p := by
  unfold State.content
  rw [h.stored]

theorem Fenced.aside (h : Fenced B s) (ha : Aside s s') : Fenced B s' := by
  refine ⟨fun p => ?_, ?_, ?_, ?_⟩
  · rw [ha.content, ha.batches]
    exact h.content p
  · rw [ha.inside, ha.batches]
    exact h.inside
  · rw [ha.reading, ha.inside, ha.batches]
    exact h.reading
  · rw [ha.answers, ha.batches]
    exact h.answers

/-- A read in a transaction returns. -/
theorem Fenced.answer (h : Fenced B s) {hd p : Nat} {before : Bytes} {result : IoResult Bytes}
    (hin : hd ∈ s.inside) (hb : before = imageAfter B s.batches p) :
    Fenced B (s.answer B hd p before result) := by
  obtain ⟨n, hn⟩ := Option.isSome_iff_exists.mp (AList.lookup_isSome.mpr hin)
  have hseen : (s.inside.lookup hd).getD 0 = s.batches.length := by
    rw [hn, h.inside hd n hn]
    rfl
  refine
    { h with
      reading := fun h' ms hms => ?_
      answers := fun a ha => ?_ }
  · rcases of_update_eq_some hms with ⟨-, hnone⟩ | hms
    · cases hnone
    · exact h.reading h' ms hms
  · rcases List.mem_append.mp ha with ha | ha
    · exact h.answers a ha
    · rw [List.mem_singleton.mp ha]
      dsimp only
      rw [hseen]
      refine ⟨Nat.le_refl _, ?_, ?_⟩
      · show before = imageAfter B (s.batches.take s.batches.length) p
        rw [List.take_length, hb]
      · rw [hb]
        exact h.content p

theorem Fenced.quiet (h : Fenced B s) (hq : Quiet B s s') : Fenced B s' := by
  cases hq with
  | aside ha => exact h.aside ha
  | lock hnot =>
    rename_i hd'
    refine
      { h with
        inside := fun h' n hn => ?_
        reading := fun h' ms hms => ⟨?_, (h.reading h' ms hms).2⟩ }
    · by_cases hh : h' = hd'
      · rw [hh, AList.lookup_insert] at hn
        exact (Option.some.inj hn).symm
      · rw [AList.lookup_insert_ne hh] at hn
        exact h.inside h' n hn
    · exact (AList.mem_insert _).mpr (.inr (h.reading h' ms hms).1)
  | unlock hfree =>
    rename_i hd'
    have hne : ∀ h' ms, s.reading h' = some ms → h' ≠ hd' := by
      rintro h' ms hms rfl
      rw [hfree] at hms
      cases hms
    refine
      { h with
        inside := fun h' n hn => ?_
        reading := fun h' ms hms => ⟨?_, (h.reading h' ms hms).2⟩ }
    · by_cases hh : h' = hd'
      · rw [hh, AList.lookup_erase] at hn
        cases hn
      · rw [AList.lookup_erase_ne hh] at hn
        exact h.inside h' n hn
    · exact AList.mem_erase.mpr ⟨hne h' ms hms, (h.reading h' ms hms).1⟩
  | read hin => exact h.answer hin (h.content _)
  | miss hin hp hb =>
    refine { h with reading := fun h' ms' hms => ?_ }
    rcases of_update_eq_some hms with ⟨hh, hms⟩ | hms
    · cases hms
      refine ⟨hh ▸ hin, ?_⟩
      rw [hb, hp]
      exact h.content _
    · exact h.reading h' ms' hms
  | goOn ms' hms hp hb ht =>
    refine Fenced.aside (s := { s with reading := Function.update s.reading _ (some ms') }) ?_ ht
    refine { h with reading := fun h' ms'' hms'' => ?_ }
    rcases of_update_eq_some hms'' with ⟨hh, hms''⟩ | hms''
    · cases hms''
      rw [hb, hp, hh]
      exact h.reading _ _ hms
    · exact h.reading h' ms'' hms''
  | finish hms ht =>
    have hread := h.reading _ _ hms
    refine (h.aside ht).answer ?_ ?_
    · rw [ht.inside]
      exact hread.1
    · rw [ht.batches]
      exact hread.2

/-- A replay waits for every reader, so no image changes under one. -/
theorem Fenced.replayed (h : Fenced B s) {r : ReplayHandle B.manifest.pageSize}
    (hout : s.inside.keys = []) : Fenced B (s.replayed B r) := by
  have hnone : ∀ h', h' ∉ s.inside := by
    intro h' hmem
    have hkey := AList.mem_keys.mp hmem
    rw [hout] at hkey
    cases hkey
  refine ⟨fun p => ?_, fun h' n hn => ?_, fun h' ms hms => ?_, fun a ha => ?_⟩
  · show _ = imageAfter B (s.batches ++ [⟨fun p => r.staged.lookup p, r.newPageCount s.manifest⟩]) p
    rw [imageAfter_append]
    simp only [State.content, State.replayed, Batch.apply]
    split
    · rfl
    · cases r.staged.lookup p with
      | some d => rfl
      | none => exact h.content p
  · have hsome : s.inside.lookup h' = some n := hn
    exact absurd (AList.lookup_isSome.mp (by rw [hsome]; rfl)) (hnone h')
  · exact absurd (h.reading h' ms hms).1 (hnone h')
  · obtain ⟨hle, hb, haft⟩ := h.answers a ha
    refine ⟨hle.trans ?_, ?_, haft⟩
    · show s.batches.length ≤ (s.batches ++ [_]).length
      rw [List.length_append]
      exact Nat.le_add_right _ _
    · show a.before = imageAfter B ((s.batches ++ [_]).take a.seen) a.page
      rw [List.take_append_of_le_length hle]
      exact hb

theorem Fenced.step {e : Event B.manifest.pageSize} (h : Fenced B s) (hw : ¬ e.IsWrite)
    (hs : step B s e = some s') : Fenced B s' := by
  by_cases hr : e.IsReplay
  · cases e with
    | finalize r =>
      simp only [Fetches.step] at hs
      split at hs
      · rename_i hguard
        cases hs
        exact h.replayed hguard.1
      · cases hs
    | _ => exact absurd hr id
  · exact h.quiet (quiet_of_step hs hr hw)

theorem fenced_run {es : List (Event B.manifest.pageSize)} (hes : ∀ e ∈ es, ¬ e.IsWrite)
    (h : Fenced B s) (hrun : run (Fetches.step B) s es = some s') : Fenced B s' := by
  induction es generalizing s with
  | nil =>
    cases hrun
    exact h
  | cons e es ih =>
    obtain ⟨m, hm, hrun⟩ := run_cons.mp hrun
    exact ih (fun e he => hes e (List.mem_cons_of_mem _ he)) (h.step (hes e List.mem_cons_self) hm) hrun

end Fenced

/-- In a run of replays, readers and fetches, whose steps are safe, every read returns its page of the
image that was there when its transaction began: the base image after the replays done by then. No
install overwrites a replayed page. -/
theorem readers_see_one_image (B : Base cfg) {es : List (Event B.manifest.pageSize)} {s' : State}
    (hes : ∀ e ∈ es, ¬ e.IsWrite) (hsafe : Meets (step B) (Safe B) B.initial es)
    (hrun : run (step B) B.initial es = some s') :
    (∀ a ∈ s'.answers, a.seen ≤ s'.batches.length ∧
      a.result = .ok (imageAfter B (s'.batches.take a.seen) a.page)) ∧
    ∀ p data, s'.cache p = some data → data = imageAfter B s'.batches p := by
  have h := coherent_run hsafe hrun
  have hf := fenced_run hes fenced_initial hrun
  refine ⟨fun a ha => ?_, fun p data hp => (h.cached p data hp).trans (hf.content p)⟩
  obtain ⟨hle, hb, haft⟩ := hf.answers a ha
  refine ⟨hle, ?_⟩
  rcases h.answers a ha with hr | hr
  · rw [hr, hb]
  · rw [hr, haft, hb]

theorem Example.replay_sized (p : Nat) (d : Bytes)
    (h : (AList.insert 0 (page 7) (∅ : HMap Nat Bytes)).lookup p = some d) :
    d.length = base.manifest.pageSize := by
  rw [(ReplayHandle.lookup_single h).2]
  exact length_page _

theorem Example.replay_below (p : Nat) (d : Bytes)
    (h : (AList.insert 0 (page 7) (∅ : HMap Nat Bytes)).lookup p = some d) : p < 1 := by
  rw [(ReplayHandle.lookup_single h).1]
  exact Nat.one_pos

/-- Page 0 is replayed. -/
def Example.replay : ReplayHandle Example.base.manifest.pageSize where
  staged := AList.insert 0 (page 7) ∅
  maxSqlitePageId := 1
  sized := replay_sized
  below := replay_below

/-- A replay, and a read of its page. -/
theorem replayed_page_is_read : ∃ s', run (step Example.base) Example.base.initial
      [.finalize Example.replay, .lock 0, .read 0 0 true] = some s' ∧
    (∀ a ∈ s'.answers, a.seen ≤ s'.batches.length ∧
      a.result = .ok (imageAfter Example.base (s'.batches.take a.seen) a.page)) := by
  have hrun : (run (step Example.base) Example.base.initial
    [.finalize Example.replay, .lock 0, .read 0 0 true]).isSome = true := by decide +kernel
  obtain ⟨s', hs'⟩ := Option.isSome_iff_exists.mp hrun
  have hall := readers_see_one_image Example.base ?_ ?_ hs'
  · exact ⟨s', hs', hall.1⟩
  · intro e he
    simp only [List.mem_cons, List.not_mem_nil, or_false] at he
    rcases he with rfl | rfl | rfl <;> exact id
  · refine ⟨⟨fun _ => rfl, ⟨fun h => (by cases h), fun h => (by cases h)⟩, fun p _ _ => ⟨rfl, fun _ _ =>
      ⟨rfl, rfl, rfl⟩⟩⟩, fun s₁ h₁ => ⟨trivial, fun s₂ h₂ => ⟨fun h' _ => .inr ?_, fun _ _ => trivial⟩⟩⟩
    simp only [step] at h₁ h₂
    split at h₁
    · cases h₁
      split at h₂
      · cases h₂
      · cases h₂
        decide
    · cases h₁

/-- A reader that misses page 1 installs the whole frame, and page 0 is back to its remote bytes. -/
theorem replay_lost_to_frame : ∃ s', run (step Example.base) Example.base.initial
      [.finalize Example.replay, .lock 0, .miss 0 1 false, .finishFrame 0, .read 0 0 true] = some s' ∧
    imageAfter Example.base s'.batches 0 = Example.page 7 ∧
    s'.answers.map (fun a => (a.page, a.result.toOption, a.seen)) =
      [(1, some (Example.page 2), 1), (0, some (Example.page 1), 1)] ∧
    ¬ ∀ a ∈ s'.answers, a.seen ≤ s'.batches.length ∧
      a.result = .ok (imageAfter Example.base (s'.batches.take a.seen) a.page) := by
  have hrun : (run (step Example.base) Example.base.initial
      [.finalize Example.replay, .lock 0, .miss 0 1 false, .finishFrame 0, .read 0 0 true]).map
        (fun s => s.answers.map fun a => (a.page, a.result.toOption, a.seen)) =
      some [(1, some (Example.page 2), 1), (0, some (Example.page 1), 1)] := by decide +kernel
  have hbatch : (run (step Example.base) Example.base.initial
      [.finalize Example.replay, .lock 0, .miss 0 1 false, .finishFrame 0, .read 0 0 true]).map
        (fun s => (imageAfter Example.base (s.batches.take 1) 0, s.batches.length)) =
      some (Example.page 7, 1) := by decide +kernel
  obtain ⟨s', hs', hans⟩ := Option.map_eq_some_iff.mp hrun
  rw [hs'] at hbatch
  obtain ⟨himg, hlen⟩ : imageAfter Example.base (s'.batches.take 1) 0 = Example.page 7 ∧
      s'.batches.length = 1 := Prod.ext_iff.mp (Option.some.inj hbatch)
  refine ⟨s', hs', ?_, hans, fun hright => ?_⟩
  · rw [← hlen, List.take_length] at himg
    exact himg
  · have hmem : (0, some (Example.page 1), 1) ∈
        s'.answers.map fun a => (a.page, a.result.toOption, a.seen) := by
      rw [hans]
      exact List.mem_cons_of_mem _ List.mem_cons_self
    obtain ⟨a, ha, heq⟩ := List.mem_map.mp hmem
    obtain ⟨hpage, hres, hseen⟩ : a.page = 0 ∧ a.result.toOption = some (Example.page 1) ∧
        a.seen = 1 := by simpa using heq
    have hread := (hright a ha).2
    rw [hpage, hseen, himg] at hread
    rw [hread] at hres
    exact absurd hres (by decide +kernel)

end Fetches

end Turbolite
