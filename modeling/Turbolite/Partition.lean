import Mathlib.Data.List.Perm.Basic
import Turbolite.Lifecycle

/-!
# Turbolite.Partition

The groups of a B-tree-aware manifest partition its pages: every page below the page count has exactly
one slot, no page is listed twice, the reverse index is the inverse of the lists, and no group is
overfull. `groups_partition` says over which runs this is kept.

A checkpoint gives slots to pages past the end and leaves the page count alone. Growth counts from the
page count, so it must not meet such a page.
-/

namespace Turbolite.Partition

open Blocks Runs Lifecycle

/-- The groups partition the pages. -/
structure Partitioned (m : Manifest) : Prop where
  normal : m.strategy = .positional → m.groupPages = []
  covered : m.strategy = .bTreeAware → ∀ p < m.pageCount,
    ∃! loc : PageLocation, (m.groupPages.getD loc.groupId [])[loc.index]? = some p
  nodup : m.groupPages.flatten.Nodup
  inverse : m.strategy = .bTreeAware → ∀ p loc, m.pageIndex.lookup p = some loc ↔
    (m.groupPages.getD loc.groupId [])[loc.index]? = some p
  bounded : ∀ g ∈ m.groupPages, g.length ≤ m.pagesPerGroup

/-- The layout alone, without the reverse index. -/
structure Laid (m : Manifest) : Prop where
  normal : m.strategy = .positional → m.groupPages = []
  covered : m.strategy = .bTreeAware → ∀ p < m.pageCount, p ∈ m.groupPages.flatten
  nodup : m.groupPages.flatten.Nodup
  bounded : ∀ g ∈ m.groupPages, g.length ≤ m.pagesPerGroup

/-! ### Slots -/

theorem map_fst_slotEntries (gps : List (List Nat)) :
    (Manifest.slotEntries gps).map (·.1) = gps.flatten := by
  have hgen : ∀ (gps : List (List Nat)) (k : Nat), ((gps.zipIdx k).flatMap fun gp =>
      gp.1.zipIdx.map fun pi => (pi.1, (⟨gp.2, pi.2⟩ : PageLocation))).map (·.1) = gps.flatten := by
    intro gps
    induction gps with
    | nil => intro k; rfl
    | cons g gps ih =>
      intro k
      rw [List.zipIdx_cons, List.flatMap_cons, List.map_append, ih, List.flatten_cons, List.map_map]
      congr 1
      exact List.zipIdx_map_fst ..
  exact hgen gps 0

theorem lookup_pageIndexOf {gps : List (List Nat)} (h : gps.flatten.Nodup) (p : Nat)
    (loc : PageLocation) : (Manifest.pageIndexOf gps).lookup p = some loc ↔
      (gps.getD loc.groupId [])[loc.index]? = some p := by
  have hnd : ((Manifest.slotEntries gps).map (·.1)).Nodup := (map_fst_slotEntries gps).symm ▸ h
  exact (Manifest.lookup_collectPairs hnd).trans Manifest.mem_slotEntries

theorem mem_flatten_iff_slot {gps : List (List Nat)} {p : Nat} :
    p ∈ gps.flatten ↔ ∃ loc : PageLocation, (gps.getD loc.groupId [])[loc.index]? = some p := by
  rw [← map_fst_slotEntries, List.mem_map]
  constructor
  · rintro ⟨⟨q, loc⟩, hmem, rfl⟩
    exact ⟨loc, Manifest.mem_slotEntries.mp hmem⟩
  · rintro ⟨loc, hloc⟩
    exact ⟨(p, loc), Manifest.mem_slotEntries.mpr hloc, rfl⟩

/-- A partition is a layout with the index built from it. -/
theorem partitioned_iff {m : Manifest} : Partitioned m ↔ Laid m ∧ m.Indexed := by
  constructor
  · intro h
    refine ⟨⟨h.normal, fun hst p hp => ?_, h.nodup, h.bounded⟩, h.normal, fun hst p => ?_⟩
    · obtain ⟨loc, hloc, -⟩ := h.covered hst p hp
      exact mem_flatten_iff_slot.mpr ⟨loc, hloc⟩
    · refine Option.ext fun loc => ?_
      exact (h.inverse hst p loc).trans (lookup_pageIndexOf h.nodup p loc).symm
  · rintro ⟨h, hidx⟩
    refine ⟨h.normal, fun hst p hp => ?_, h.nodup, fun hst p loc => ?_, h.bounded⟩
    · obtain ⟨loc, hloc⟩ := mem_flatten_iff_slot.mp (h.covered hst p hp)
      refine ⟨loc, hloc, fun loc' hloc' => ?_⟩
      have h1 := (lookup_pageIndexOf h.nodup p loc).mpr hloc
      have h2 := (lookup_pageIndexOf h.nodup p loc').mpr hloc'
      exact Option.some.inj (h2.symm.trans h1)
    · rw [hidx.bTreeAware hst]
      exact lookup_pageIndexOf h.nodup p loc

/-! ### Appending pages -/

/-- Appended pages come after the ones that are there. -/
theorem flatten_appendPages {groups : List (List Nat)} {room ppg : Nat} {pages : List Nat}
    (hppg : 0 < ppg) (h : groups = [] → room = 0) :
    (appendPages groups room ppg pages).flatten = groups.flatten ++ pages := by
  rcases List.eq_nil_or_concat groups with rfl | ⟨init, last, rfl⟩
  · rw [appendPages, h rfl, List.take_zero, List.drop_zero]
    exact flatten_blocks hppg pages
  · rw [appendPages, Manifest.appendToLast_concat, List.flatten_append, flatten_blocks hppg]
    simp [List.take_append_drop]

theorem length_le_of_mem_blocks {k : Nat} {xs b : List Nat} (h : b ∈ blocks k xs) : b.length ≤ k := by
  obtain ⟨i, -, rfl⟩ := List.mem_map.mp h
  rw [length_block]
  exact min_le_left _ _

theorem bounded_appendPages {groups : List (List Nat)} {room ppg : Nat} {pages : List Nat}
    (hb : ∀ g ∈ groups, g.length ≤ ppg)
    (hroom : ∀ last, groups.getLast? = some last → last.length + room ≤ ppg) :
    ∀ g ∈ appendPages groups room ppg pages, g.length ≤ ppg := by
  intro g hg
  rcases List.mem_append.mp hg with hg | hg
  · rcases List.eq_nil_or_concat groups with rfl | ⟨init, last, rfl⟩
    · cases hg
    · rw [Manifest.appendToLast_concat] at hg
      rcases List.mem_append.mp hg with hg | hg
      · exact hb g (by simp [hg])
      · rw [List.mem_singleton.mp hg, List.length_append, List.length_take]
        have hlast := hroom last (by simp)
        omega
  · exact length_le_of_mem_blocks hg

theorem lastGroupRoom_le {groups : List (List Nat)} {ppg : Nat} (hb : ∀ g ∈ groups, g.length ≤ ppg)
    {last : List Nat} (hlast : groups.getLast? = some last) :
    last.length + lastGroupRoom groups ppg ≤ ppg := by
  have hle := hb last (List.mem_of_getLast? hlast)
  rw [lastGroupRoom, hlast]
  have hmod : (ppg + 2 ^ 64 - last.length) % 2 ^ 64 = (ppg - last.length) % 2 ^ 64 := by
    rw [show ppg + 2 ^ 64 - last.length = ppg - last.length + 2 ^ 64 by omega, Nat.add_mod_right]
  have hm := Nat.mod_le (ppg - last.length) (2 ^ 64)
  dsimp only
  omega

/-! ### The edits keep a layout -/

variable {m : Manifest}

theorem Laid.buildPageIndex (h : Laid m) : Laid m.buildPageIndex ∧ m.buildPageIndex.Indexed := by
  refine ⟨?_, m.indexed_buildPageIndex⟩
  cases hst : m.strategy with
  | positional =>
    have heq : m.buildPageIndex = { m with strategy := .positional, pageIndex := ∅ } := by
      simp [Manifest.buildPageIndex, h.normal hst, hst]
    rw [heq]
    exact ⟨fun _ => h.normal hst, (fun hb => by cases hb), h.nodup, h.bounded⟩
  | bTreeAware =>
    rw [Manifest.buildPageIndex_eq_of_bTreeAware hst]
    exact ⟨h.normal, h.covered, h.nodup, h.bounded⟩

/-- New pages are listed after the ones that are there. -/
theorem assignNewPagesToGroups_spec (hst : m.strategy = .bTreeAware) (pages : List Nat) {ppg : Nat}
    (hppg : pages ≠ [] → 0 < ppg ∧ ppg = m.pagesPerGroup)
    (hb : ∀ g ∈ m.groupPages, g.length ≤ m.pagesPerGroup) :
    (m.assignNewPagesToGroups pages ppg).groupPages.flatten.Perm (m.groupPages.flatten ++ pages) ∧
      ∀ g ∈ (m.assignNewPagesToGroups pages ppg).groupPages, g.length ≤ m.pagesPerGroup := by
  unfold Manifest.assignNewPagesToGroups
  split
  · rename_i hnil
    rw [hnil, List.append_nil]
    exact ⟨.refl _, hb⟩
  · rename_i hne
    obtain ⟨hpos, heq⟩ := hppg hne
    rw [hst]
    dsimp only
    rw [← heq] at hb ⊢
    constructor
    · rw [flatten_appendPages hpos]
      · exact (List.perm_insertionSort (· ≤ ·) pages).append_left _
      · intro hg
        simp [hg, lastGroupRoom]
    · refine bounded_appendPages hb fun last hlast => ?_
      have hroom := lastGroupRoom_le hb hlast
      omega

/-- A layout with more pages: the new ones are in no group, and cover what the page count grew by. -/
theorem Laid.extend (h : Laid m) (hst : m.strategy = .bTreeAware) {pages : List Nat} {m' : Manifest}
    (hs : m'.strategy = .bTreeAware)
    (hflat : m'.groupPages.flatten.Perm (m.groupPages.flatten ++ pages))
    (hb : ∀ g ∈ m'.groupPages, g.length ≤ m.pagesPerGroup) (hppg : m'.pagesPerGroup = m.pagesPerGroup)
    (hnd : pages.Nodup) (hdisj : ∀ p ∈ pages, p ∉ m.groupPages.flatten)
    (hnew : ∀ p < m'.pageCount, m.pageCount ≤ p → p ∈ m.groupPages.flatten ++ pages) : Laid m' := by
  refine ⟨fun hp => ?_, fun _ p hp => ?_, ?_, ?_⟩
  · rw [hs] at hp
    cases hp
  · rw [hflat.mem_iff]
    rcases Nat.lt_or_ge p m.pageCount with hlt | hge
    · exact List.mem_append_left _ (h.covered hst p hlt)
    · exact hnew p hp hge
  · rw [hflat.nodup_iff]
    exact h.nodup.append hnd fun p hp1 hp2 => hdisj p hp2 hp1
  · rw [hppg]
    exact hb

theorem Laid.assignNewPagesToGroups (h : Laid m) {pages : List Nat} {ppg : Nat} (hnd : pages.Nodup)
    (hdisj : m.strategy = .bTreeAware → ∀ p ∈ pages, p ∉ m.groupPages.flatten)
    (hppg : m.strategy = .bTreeAware → pages ≠ [] → 0 < ppg ∧ ppg = m.pagesPerGroup) :
    Laid (m.assignNewPagesToGroups pages ppg) := by
  cases hst : m.strategy with
  | positional =>
    have hs := (m.assignNewPagesToGroups_strategy pages ppg).trans hst
    have hg := Manifest.assignNewPagesToGroups_groupPages hst pages ppg
    refine ⟨fun _ => hg.trans (h.normal hst), (fun hb => by rw [hs] at hb; cases hb), ?_, ?_⟩
    · rw [hg]
      exact h.nodup
    · rw [hg, h.normal hst]
      exact fun g hg => absurd hg List.not_mem_nil
  | bTreeAware =>
    obtain ⟨hflat, hb⟩ := assignNewPagesToGroups_spec hst pages (hppg hst) h.bounded
    have hcount : (m.assignNewPagesToGroups pages ppg).pageCount = m.pageCount := by
      rw [Manifest.assignNewPagesToGroups, hst]
      split <;> rfl
    have hsize : (m.assignNewPagesToGroups pages ppg).pagesPerGroup = m.pagesPerGroup := by
      obtain ⟨n, gps, idx, heq⟩ := m.assignNewPagesToGroups_eq pages ppg
      rw [heq]
    refine h.extend hst ((m.assignNewPagesToGroups_strategy pages ppg).trans hst) hflat hb hsize hnd
      (hdisj hst) fun p hp hge => ?_
    rw [hcount] at hp
    omega

/-- A local checkpoint gives slots to pages that have none. -/
theorem Laid.localCheckpoint (h : Laid m) (hidx : m.Indexed) {dirty : List Nat} {ppg : Nat}
    (hd : dirty.Nodup) (hppg : dirty ≠ [] → 0 < ppg ∧ ppg = m.pagesPerGroup) :
    Laid (m.localCheckpoint dirty ppg) ∧ (m.localCheckpoint dirty ppg).Indexed := by
  refine ⟨h.assignNewPagesToGroups (hd.filter _) (fun hst p hp hmem => ?_) fun _ hne => hppg ?_,
    hidx.assignNewPagesToGroups _ _⟩
  · obtain ⟨g, hg, hpg⟩ := List.mem_flatten.mp hmem
    have hsome := hidx.isSome_pageLocation hst hg hpg
    have hnone := (List.mem_filter.mp hp).2
    rw [Option.isNone_iff_eq_none] at hnone
    rw [hnone] at hsome
    cases hsome
  · intro hnil
    exact hne (by rw [Manifest.unassigned, hnil]; rfl)

theorem flatten_map_filter (gps : List (List Nat)) (n : Nat) :
    (gps.map fun g => g.filter (· < n)).flatten = gps.flatten.filter (· < n) := by
  rw [List.filter_flatten]

/-- The groups a shrinking replay keeps list the surviving pages in their order. -/
theorem flatten_keptGroups (m : Manifest) (n : Nat) :
    ((m.keptGroups n).map (·.2)).flatten = m.groupPages.flatten.filter (· < n) := by
  have hgen : ∀ (gps : List (List Nat)) (k : Nat), (((gps.zipIdx k).filterMap fun g =>
      if g.1.filter (· < n) = [] then none else some (g.2, g.1.filter (· < n))).map
        (·.2)).flatten = gps.flatten.filter (· < n) := by
    intro gps
    induction gps with
    | nil => intro k; rfl
    | cons g gps ih =>
      intro k
      rw [List.zipIdx_cons, List.flatten_cons, List.filter_append, ← ih (k + 1),
        List.filterMap_cons]
      dsimp only
      by_cases hg : g.filter (· < n) = []
      · rw [if_pos hg, hg, List.nil_append]
      · rw [if_neg hg]
        rfl
  exact hgen m.groupPages 0

theorem mem_keptGroups {n : Nat} {g : List Nat} (h : g ∈ (m.keptGroups n).map (·.2)) :
    ∃ g' ∈ m.groupPages, g = g'.filter (· < n) := by
  obtain ⟨⟨k, g1⟩, hmem, rfl⟩ := List.mem_map.mp h
  obtain ⟨⟨g', k'⟩, hg', heq⟩ := List.mem_filterMap.mp hmem
  dsimp only at heq
  split at heq
  · cases heq
  · cases heq
    exact ⟨g', (List.mem_zipIdx_iff_getElem?.mp hg') |> List.mem_of_getElem?, rfl⟩

/-- Dropping the pages from `n` on. -/
theorem Laid.shrink (h : Laid m) (hst : m.strategy = .bTreeAware) {n : Nat} {gps : List (List Nat)}
    (hn : n ≤ m.pageCount) (hflat : gps.flatten = m.groupPages.flatten.filter (· < n))
    (hmem : ∀ g ∈ gps, ∃ g' ∈ m.groupPages, g = g'.filter (· < n)) {m' : Manifest}
    (hm' : m'.groupPages = gps ∧ m'.pageCount = n ∧ m'.strategy = m.strategy ∧
      m'.pagesPerGroup = m.pagesPerGroup) : Laid m' := by
  obtain ⟨hg, hpc, hs, hppg⟩ := hm'
  refine ⟨fun hp => ?_, fun _ p hp => ?_, ?_, fun g hgm => ?_⟩
  · rw [hs, hst] at hp
    cases hp
  · rw [hpc] at hp
    rw [hg, hflat, List.mem_filter]
    exact ⟨h.covered hst p (lt_of_lt_of_le hp hn), decide_eq_true hp⟩
  · rw [hg, hflat]
    exact h.nodup.filter _
  · rw [hg] at hgm
    obtain ⟨g', hg', rfl⟩ := hmem g hgm
    rw [hppg]
    exact (List.length_filter_le _ _).trans (h.bounded g' hg')

/-- Growth over pages that have no slot. -/
structure CanGrow (m : Manifest) (n : Nat) : Prop where
  ppg : m.strategy = .bTreeAware → m.pageCount < n → 0 < m.pagesPerGroup
  fresh : m.strategy = .bTreeAware → ∀ p, m.pageCount ≤ p → p < n → m.pageLocation p = none

theorem CanGrow.notMem {n : Nat} (h : CanGrow m n) (hidx : m.Indexed) (hst : m.strategy = .bTreeAware)
    {p : Nat} (hp : p ∈ List.range' m.pageCount (n - m.pageCount)) : p ∉ m.groupPages.flatten := by
  intro hmem
  obtain ⟨g, hg, hpg⟩ := List.mem_flatten.mp hmem
  have hsome := hidx.isSome_pageLocation hst hg hpg
  rw [List.mem_range'_1] at hp
  rw [h.fresh hst p hp.1 (by omega)] at hsome
  cases hsome

theorem Laid.setLen (h : Laid m) (hidx : m.Indexed) {n : Nat} (hgrow : CanGrow m n) :
    Laid (m.setLen n) ∧ (m.setLen n).Indexed := by
  unfold Manifest.setLen Manifest.setLenFrom
  split
  · rename_i hst
    exact ⟨⟨h.normal, (fun hb => by rw [hst] at hb; cases hb), h.nodup, h.bounded⟩, hidx.positional,
      fun hb => by rw [hst] at hb; cases hb⟩
  · rename_i hst
    split
    · rename_i hlt
      refine Laid.buildPageIndex (h.shrink hst hlt.le (flatten_map_filter _ _) (fun g hg => ?_)
        ⟨rfl, rfl, rfl, rfl⟩)
      obtain ⟨g', hg', rfl⟩ := List.mem_map.mp hg
      exact ⟨g', hg', rfl⟩
    · split
      · rename_i hge hlt
        have hpages : ∀ p, p ∈ List.range' m.pageCount (n - m.pageCount) ↔
            m.pageCount ≤ p ∧ p < n := by
          intro p
          rw [List.mem_range'_1]
          omega
        have hspec := assignNewPagesToGroups_spec (m := { m with pageCount := n }) hst
          (List.range' m.pageCount (n - m.pageCount))
          (fun _ => ⟨hgrow.ppg hst hlt, rfl⟩) h.bounded
        refine ⟨h.extend hst ?_ hspec.1 hspec.2 ?_ List.nodup_range'
          (fun p hp => hgrow.notMem hidx hst hp) fun p hp hge => ?_, ?_⟩
        · exact (Manifest.assignNewPagesToGroups_strategy ..).trans hst
        · obtain ⟨n', gps, idx, heq⟩ := Manifest.assignNewPagesToGroups_eq { m with pageCount := n }
            (List.range' m.pageCount (n - m.pageCount)) m.pagesPerGroup
          rw [heq]
        · refine List.mem_append_right _ ((hpages p).mpr ⟨hge, ?_⟩)
          have hcount : (({ m with pageCount := n } : Manifest).assignNewPagesToGroups
              (List.range' m.pageCount (n - m.pageCount)) m.pagesPerGroup).pageCount = n := by
            rw [Manifest.assignNewPagesToGroups]
            simp only [hst]
            split <;> rfl
          rwa [hcount] at hp
        · have hcounted : ({ m with pageCount := n } : Manifest).Indexed :=
            ⟨hidx.positional, hidx.bTreeAware⟩
          exact hcounted.assignNewPagesToGroups _ _
      · rename_i hge hle
        have hn : n = m.pageCount := by omega
        rw [hn]
        exact ⟨h, hidx⟩

theorem Laid.setReplayPageCount (h : Laid m) {n : Nat} (hidx : m.Indexed) (hgrow : CanGrow m n) :
    Laid (m.setReplayPageCount m.pageCount n) ∧ (m.setReplayPageCount m.pageCount n).Indexed := by
  unfold Manifest.setReplayPageCount
  split
  · rename_i hst
    exact ⟨⟨h.normal, (fun hb => by rw [hst] at hb; cases hb), h.nodup, h.bounded⟩, hidx.positional,
      fun hb => by rw [hst] at hb; cases hb⟩
  · rename_i hst
    split
    · rename_i hle
      exact Laid.buildPageIndex (h.shrink hst hle (flatten_keptGroups m n) (fun g => mem_keptGroups)
        ⟨rfl, rfl, rfl, rfl⟩)
    · rename_i hgt
      have hpos := hgrow.ppg hst (Nat.lt_of_not_le hgt)
      rw [if_neg hpos.ne']
      refine Laid.buildPageIndex (h.extend hst hst
        (List.Perm.of_eq (flatten_appendPages hpos fun hg => by rw [hg]; rfl)) ?_ rfl List.nodup_range'
        (fun p hp => hgrow.notMem hidx hst hp) fun p hp hge => ?_)
      · refine bounded_appendPages h.bounded fun last hlast => ?_
        have hle := h.bounded last (List.mem_of_getLast? hlast)
        rw [hlast]
        dsimp only
        omega
      · refine List.mem_append_right _ ?_
        rw [List.mem_range'_1]
        have hp' : p < n := hp
        omega

/-! ### Walked groups -/

/-- The walk lists every page below `n` once, and no other. -/
def Covers (w : Walk) (n : Nat) : Prop :=
  (w.btrees.flatMap (·.2.pages) ++ w.unowned).Perm (List.range n)

/-- Packing keeps the pages. -/
theorem flatten_walkGroups (w : Walk) {ppg : Nat} (hppg : 0 < ppg) :
    (w.groups ppg).flatten.Perm (w.btrees.flatMap (·.2.pages) ++ w.unowned) := by
  have hsort : ∀ ps : List Nat, (ps.insertionSort (· ≤ ·)).Perm ps :=
    List.perm_insertionSort (· ≤ ·)
  have htrees := List.perm_insertionSort (fun a b : BTreeEntry => b.pages.length ≤ a.pages.length)
    (w.btrees.map (·.2))
  have hpages : ∀ ts : List BTreeEntry, (ts.flatMap fun t => t.pages.insertionSort (· ≤ ·)).Perm
      (ts.flatMap (·.pages)) := fun ts => List.Perm.flatMap_left ts fun t _ => hsort t.pages
  have hblocks : ∀ ts : List BTreeEntry, (ts.flatMap fun t =>
      blocks ppg (t.pages.insertionSort (· ≤ ·))).flatten = ts.flatMap fun t =>
        t.pages.insertionSort (· ≤ ·) := by
    intro ts
    induction ts with
    | nil => rfl
    | cons t ts ih => rw [List.flatMap_cons, List.flatten_append, ih, flatten_blocks hppg]; rfl
  unfold Walk.groups
  dsimp only
  rw [List.flatten_append, hblocks, flatten_blocks hppg, ← List.append_assoc,
    ← List.flatMap_append]
  refine List.Perm.append ?_ (hsort w.unowned)
  -- large and small trees together are all trees
  refine (hpages _).trans ?_
  refine ((List.filter_append_perm _ _).flatMap_right _).trans ?_
  refine (htrees.flatMap_right _).trans (.of_eq ?_)
  exact List.flatMap_map ..

theorem bounded_walkGroups (w : Walk) (ppg : Nat) : ∀ g ∈ w.groups ppg, g.length ≤ ppg := by
  intro g hg
  rcases List.mem_append.mp hg with hg | hg
  · obtain ⟨t, -, hg⟩ := List.mem_flatMap.mp hg
    exact length_le_of_mem_blocks hg
  · exact length_le_of_mem_blocks hg

/-- Groups that list every page below the page count once are a layout. -/
theorem laid_of_perm (hst : m.strategy = .bTreeAware)
    (hflat : m.groupPages.flatten.Perm (List.range m.pageCount))
    (hb : ∀ g ∈ m.groupPages, g.length ≤ m.pagesPerGroup) : Laid m := by
  refine ⟨(fun hp => by rw [hst] at hp; cases hp), fun _ p hp => ?_, ?_, hb⟩
  · exact hflat.mem_iff.mpr (List.mem_range.mpr hp)
  · exact hflat.nodup_iff.mpr List.nodup_range

theorem laid_rewalk {n : Nat} {w : Walk} {ppg : Nat} (hst : m.strategy = .bTreeAware)
    (hppg : 0 < ppg) (heq : ppg = m.pagesPerGroup) (hw : Covers w n) :
    Laid (m.rewalk n w ppg) ∧ (m.rewalk n w ppg).Indexed := by
  refine Laid.buildPageIndex (laid_of_perm hst ?_ ?_)
  · exact (flatten_walkGroups w hppg).trans hw
  · intro g hg
    show g.length ≤ m.pagesPerGroup
    rw [← heq]
    exact bounded_walkGroups w ppg g hg

/-! ### Syncs -/

theorem bTreeAware_of_vacuum {i : SyncInput} {n : Nat} (hv : i.vacuum = some n) :
    i.manifest.strategy = .bTreeAware := by
  unfold SyncInput.vacuum at hv
  split at hv
  · rename_i h
    exact h.2
  · cases hv

/-- What the walker found covers the file. -/
def WalkCovers (i : SyncInput) : Prop :=
  ∀ n, i.vacuum = some n → Covers (i.walkAllBtrees n i.manifest.pageSize i.cache.file) n

theorem ppg_pos_of_not_panics {i : SyncInput} (hp : i.panics = false)
    (hst : i.manifest.strategy = .bTreeAware)
    (hne : i.vacuum.isSome = true ∨ i.unassigned ≠ []) : 0 < i.manifest.pagesPerGroup := by
  rw [Nat.pos_iff_ne_zero]
  intro h0
  simp only [SyncInput.panics, h0, hst, decide_true, Bool.true_and, Bool.or_eq_false_iff,
    Bool.not_eq_false', List.isEmpty_iff] at hp
  rcases hne with hv | hu
  · rw [hv] at hp
    exact absurd hp.1.1 (by decide)
  · exact hu hp.1.2

theorem laid_walked {i : SyncInput} (h : Laid i.manifest) (hidx : i.manifest.Indexed)
    (hp : i.panics = false) (hw : WalkCovers i) : Laid i.walked ∧ i.walked.Indexed := by
  unfold SyncInput.walked
  split
  · rename_i n hv
    have hst := bTreeAware_of_vacuum hv
    exact laid_rewalk hst (ppg_pos_of_not_panics hp hst (.inl (by rw [hv]; rfl))) rfl (hw n hv)
  · exact ⟨h, hidx⟩

theorem laid_snap {i : SyncInput} (h : Laid i.manifest) (hidx : i.manifest.Indexed)
    (hp : i.panics = false) (hw : WalkCovers i) : Laid i.snap ∧ i.snap.Indexed := by
  obtain ⟨hl, hi⟩ := laid_walked h hidx hp hw
  have hppg := i.walked_fields.2.2
  refine ⟨hl.assignNewPagesToGroups (i.dirty_nodup.filter _) (fun hst p hmem hin => ?_)
    fun hst hne => ?_, hi.assignNewPagesToGroups _ _⟩
  · obtain ⟨g, hg, hpg⟩ := List.mem_flatten.mp hin
    have hsome := hi.isSome_pageLocation hst hg hpg
    have hnone := (List.mem_filter.mp hmem).2
    rw [Option.isNone_iff_eq_none] at hnone
    rw [hnone] at hsome
    cases hsome
  · refine ⟨?_, hppg.symm⟩
    cases hv : i.vacuum with
    | some n => exact ppg_pos_of_not_panics hp (bTreeAware_of_vacuum hv) (.inl (by rw [hv]; rfl))
    | none =>
      refine ppg_pos_of_not_panics hp ?_ (.inr hne)
      rw [SyncInput.walked, hv] at hst
      exact hst

/-- The pages between the page count and the one that is published are dirty or have a slot. -/
def NoGap (i : SyncInput) : Prop :=
  i.vacuum = none → i.manifest.strategy = .bTreeAware → ∀ p, i.manifest.pageCount ≤ p →
    p < i.pendingPageCount → p ∈ i.dirty ∨ (i.manifest.pageLocation p).isSome

/-- The snapshot lists every dirty page and everything that was listed. -/
theorem mem_flatten_snap {i : SyncInput} (h : Laid i.manifest) (hidx : i.manifest.Indexed)
    (hp : i.panics = false) (hv : i.vacuum = none) (hst : i.manifest.strategy = .bTreeAware) {p : Nat}
    (hmem : p ∈ i.dirty ∨ (i.manifest.pageLocation p).isSome) : p ∈ i.snap.groupPages.flatten := by
  have hwalked : i.walked = i.manifest := by rw [SyncInput.walked, hv]
  have hspec := (assignNewPagesToGroups_spec (m := i.walked) (hwalked ▸ hst) i.unassigned
    (fun hne => ⟨ppg_pos_of_not_panics hp hst (.inr hne), i.walked_fields.2.2.symm⟩)
    (hwalked ▸ h.bounded)).1
  refine hspec.mem_iff.mpr (List.mem_append.mpr ?_)
  cases hl : i.walked.pageLocation p with
  | some loc =>
    left
    have hslot := hidx.located (hwalked ▸ hl)
    rw [Manifest.groupPageNums_bTreeAware hst] at hslot
    rw [hwalked]
    exact mem_flatten_iff_slot.mpr ⟨loc, hslot⟩
  | none =>
    right
    rw [← hwalked, hl] at hmem
    exact List.mem_filter.mpr ⟨hmem.resolve_right (by decide), by rw [hl]; rfl⟩

/-- Raising the page count over pages that are listed. -/
theorem Laid.raise (h : Laid m) {m' : Manifest} (hg : m'.groupPages = m.groupPages)
    (hs : m'.strategy = m.strategy) (hppg : m'.pagesPerGroup = m.pagesPerGroup)
    (hnew : m.strategy = .bTreeAware → ∀ p < m'.pageCount, m.pageCount ≤ p →
      p ∈ m.groupPages.flatten) : Laid m' := by
  refine ⟨fun hp => ?_, fun hb p hp => ?_, ?_, ?_⟩
  · rw [hg]
    exact h.normal (hs ▸ hp)
  · rw [hg]
    rcases Nat.lt_or_ge p m.pageCount with hlt | hge
    · exact h.covered (hs ▸ hb) p hlt
    · exact hnew (hs ▸ hb) p hp hge
  · rw [hg]
    exact h.nodup
  · rw [hg, hppg]
    exact h.bounded

theorem pageCount_snap {i : SyncInput} (hst : i.snap.strategy = .bTreeAware) :
    i.snap.pageCount = i.walked.pageCount := by
  have hw : i.walked.strategy = .bTreeAware :=
    (Manifest.assignNewPagesToGroups_strategy ..).symm.trans hst
  rw [SyncInput.snap, Manifest.assignNewPagesToGroups]
  simp only [hw]
  split <;> rfl

/-- What a durable sync publishes. -/
theorem laid_sync {i : SyncInput} (h : Laid i.manifest) (hidx : i.manifest.Indexed)
    (hw : WalkCovers i) (hgap : NoGap i) {m' : Manifest} {b : Backend}
    (hok : i.durableSync = .ok (some (m', b))) : Laid m' ∧ m'.Indexed := by
  have hp : i.panics = false := by
    unfold SyncInput.durableSync at hok
    split at hok
    · cases hok
    · split at hok
      · cases hok
      · rename_i hnp
        exact Bool.eq_false_of_not_eq_true hnp
  have hsnap := (laid_snap h hidx hp hw).1
  obtain ⟨cc, w, plans, -, -, -, rfl, -⟩ := SyncInput.durableSync_inv hok
  rw [SyncInput.publication_manifest]
  refine Laid.buildPageIndex (hsnap.raise rfl rfl i.snap_fields.2.2.symm fun hst p hlt hge => ?_)
  have hcount := pageCount_snap hst
  have hlt' : p < max i.snap.pageCount (i.vacuum.getD i.pendingPageCount) := hlt
  cases hv : i.vacuum with
  | some n =>
    -- the re-walk already counted the live pages
    obtain ⟨st, idx, heq⟩ := Manifest.rewalk_eq i.manifest n
      (i.walkAllBtrees n i.manifest.pageSize i.cache.file) i.manifest.pagesPerGroup
    have hn : i.walked.pageCount = n := by
      rw [SyncInput.walked, hv]
      exact congrArg Manifest.pageCount heq
    rw [hv, Option.getD_some] at hlt'
    omega
  | none =>
    have hwalked : i.walked = i.manifest := by rw [SyncInput.walked, hv]
    have hst' : i.manifest.strategy = .bTreeAware := by
      rw [← hwalked, ← hst]
      exact (Manifest.assignNewPagesToGroups_strategy ..).symm
    rw [hv, Option.getD_none] at hlt'
    rw [hcount, hwalked] at hge hlt'
    exact mem_flatten_snap h hidx hp hv hst' (hgap hv hst' p hge (by omega))

theorem laid_flush {i : FlushInput} (h : Laid i.manifest) {m' : Manifest} {b : Backend}
    (hok : i.flushInner = .ok (some (m', b))) : Laid m' ∧ m'.Indexed := by
  obtain ⟨staged, -, ⟨-, hnone⟩ | ⟨cc, w, plans, b', -, -, hsome⟩⟩ := FlushInput.flushInner_inv hok
  · cases hnone
  · cases hsome
    exact Laid.buildPageIndex (h.raise rfl rfl rfl fun _ p hlt hge => absurd hlt (Nat.not_lt.mpr hge))

theorem laid_postManifest (h : Laid m) (hidx : m.Indexed) {r : Replay}
    (hgrow : CanGrow m (r.newPageCount m)) :
    Laid (r.postManifest m) ∧ (r.postManifest m).Indexed := by
  have hgrown : Laid (if r.newPageCount m ≠ m.pageCount then
      m.setReplayPageCount m.pageCount (r.newPageCount m) else m) ∧
      (if r.newPageCount m ≠ m.pageCount then
        m.setReplayPageCount m.pageCount (r.newPageCount m) else m).Indexed := by
    split
    · exact h.setReplayPageCount hidx hgrow
    · exact ⟨h, hidx⟩
  exact ⟨⟨hgrown.1.normal, hgrown.1.covered, hgrown.1.nodup, hgrown.1.bounded⟩,
    hgrown.2.positional, hgrown.2.bTreeAware⟩

/-! ### Runs -/

variable {h : Handle} {s s' : State}

/-- When an event is safe: growth meets no page a checkpoint gave a slot to, no page is skipped
between the end of the file and the pages a sync publishes, and the walk after a VACUUM covers the
file. -/
def Safe (s : State) : Event → Prop
  | .sync i => WalkCovers i ∧ NoGap i
  | .failSync i => WalkCovers i
  | .setLen n => CanGrow s.shared n
  | .replay r _ => CanGrow s.shared (r.newPageCount s.shared)
  | .importFile _ => False
  | .write .. | .checkpoint | .flush _ | .encode => True

/-- Kept by every safe event. A handle with dirty pages knows its group size. -/
structure Inv (s : State) : Prop where
  laid : Laid s.shared
  indexed : s.shared.Indexed
  dirty : s.dirty.Nodup
  sized : s.dirty ≠ [] → s.shared.pagesPerGroup ≠ 0

theorem pagesPerGroup_setLen (m : Manifest) (n : Nat) :
    (m.setLen n).pagesPerGroup = m.pagesPerGroup := by
  obtain ⟨n', gps, idx, heq⟩ := m.setLen_eq n
  rw [heq]

theorem pagesPerGroup_buildPageIndex (m : Manifest) :
    m.buildPageIndex.pagesPerGroup = m.pagesPerGroup := by
  obtain ⟨st, idx, heq⟩ := m.buildPageIndex_eq
  rw [heq]

theorem pagesPerGroup_postManifest (r : Replay) (m : Manifest) :
    (r.postManifest m).pagesPerGroup = m.pagesPerGroup := by
  show (if r.newPageCount m ≠ m.pageCount then
    m.setReplayPageCount m.pageCount (r.newPageCount m) else m).pagesPerGroup = m.pagesPerGroup
  split
  · unfold Manifest.setReplayPageCount
    split
    · rfl
    · split
      · exact pagesPerGroup_buildPageIndex _
      · split
        · exact pagesPerGroup_buildPageIndex _
        · exact pagesPerGroup_buildPageIndex _
  · rfl

theorem inv_write {page : Nat} {data : Bytes} (hi : Inv s)
    (hs : step h s (.write page data) = some s') : Inv s' := by
  simp only [step] at hs
  split at hs
  · cases hs
    have hle : s.shared.pagesPerGroup ≤
        (s.shared.seedGeometry data.length h.pagesPerGroup h.subPagesPerFrame).pagesPerGroup := by
      simp only [Manifest.seedGeometry]
      split <;> omega
    refine ⟨⟨hi.laid.normal, hi.laid.covered, hi.laid.nodup, fun g hg => ?_⟩,
      ⟨hi.indexed.positional, hi.indexed.bTreeAware⟩, hi.dirty.insert, fun _ => ?_⟩
    · exact (hi.laid.bounded g hg).trans hle
    · have hpos := h.pagesPerGroup_pos
      simp only [Manifest.seedGeometry]
      split <;> omega
  · cases hs

theorem laid_localCheckpoint (hi : Inv s) :
    Laid (s.shared.localCheckpoint s.dirty (h.ppg s.shared)) ∧
      (s.shared.localCheckpoint s.dirty (h.ppg s.shared)).Indexed := by
  refine hi.laid.localCheckpoint hi.indexed hi.dirty fun hdirty => ?_
  have hppg := hi.sized hdirty
  rw [Handle.ppg, if_neg hppg]
  exact ⟨Nat.pos_of_ne_zero hppg, rfl⟩

theorem inv_checkpoint (hi : Inv s) (hs : step h s .checkpoint = some s') : Inv s' := by
  obtain ⟨hl, hidx⟩ := laid_localCheckpoint (h := h) hi
  simp only [step] at hs
  split at hs
  · cases hs
    exact ⟨hl, hidx, List.nodup_nil, fun h0 => absurd rfl h0⟩
  · cases hs
    exact ⟨hl, hidx, List.nodup_nil, fun h0 => absurd rfl h0⟩

theorem inv_sync {i : SyncInput} (hi : Inv s) (hsafe : Safe s (.sync i))
    (hs : step h s (.sync i) = some s') : Inv s' := by
  simp only [step] at hs
  split at hs
  · rename_i hguard
    obtain ⟨hm, -⟩ := hguard
    split at hs
    · rename_i m' b hok
      cases hs
      obtain ⟨hl, hidx⟩ := laid_sync (hm ▸ hi.laid) (hm ▸ hi.indexed) hsafe.1 hsafe.2 hok
      exact ⟨hl, hidx, List.nodup_nil, fun h0 => absurd rfl h0⟩
    · cases hs
      exact hi
    · cases hs
  · cases hs

theorem inv_failSync {i : SyncInput} (hi : Inv s) (hsafe : Safe s (.failSync i))
    (hs : step h s (.failSync i) = some s') : Inv s' := by
  simp only [step] at hs
  split at hs
  · rename_i hguard
    obtain ⟨hm, -, hp⟩ := hguard
    cases hs
    obtain ⟨hl, hidx⟩ := laid_snap (hm ▸ hi.laid) (hm ▸ hi.indexed) hp hsafe
    refine ⟨hl, hidx, hi.dirty, fun hne => ?_⟩
    show i.snap.pagesPerGroup ≠ 0
    rw [i.snap_fields.2.2, hm]
    exact hi.sized hne
  · cases hs

theorem inv_flush {i : FlushInput} (hi : Inv s) (hs : step h s (.flush i) = some s') : Inv s' := by
  simp only [step] at hs
  split at hs
  · rename_i hm
    split at hs
    · rename_i m' b hok
      cases hs
      obtain ⟨hl, hidx⟩ := laid_flush (hm ▸ hi.laid) hok
      refine ⟨hl, hidx, hi.dirty, fun hne => ?_⟩
      obtain ⟨staged, -, ⟨-, hnone⟩ | ⟨cc, w, plans, b', -, -, hsome⟩⟩ :=
        FlushInput.flushInner_inv hok
      · cases hnone
      · cases hsome
        show ((flushManifest i.manifest cc w plans).buildPageIndex).pagesPerGroup ≠ 0
        rw [pagesPerGroup_buildPageIndex]
        exact hm ▸ hi.sized hne
    · cases hs
      exact hi
    · cases hs
      exact hi
  · cases hs

theorem inv_setLen {n : Nat} (hi : Inv s) (hsafe : Safe s (.setLen n))
    (hs : step h s (.setLen n) = some s') : Inv s' := by
  simp only [step] at hs
  split at hs
  · cases hs
    exact hi
  · cases hs
    obtain ⟨hl, hidx⟩ := hi.laid.setLen hi.indexed hsafe
    refine ⟨hl, hidx, hi.dirty.filter _, fun hne => ?_⟩
    show (s.shared.setLen n).pagesPerGroup ≠ 0
    rw [pagesPerGroup_setLen]
    exact hi.sized fun hnil => hne (by simp [hnil])

theorem inv_replay {r : Replay} {pages : List (Nat × Bytes)} (hi : Inv s)
    (hsafe : Safe s (.replay r pages)) (hs : step h s (.replay r pages) = some s') : Inv s' := by
  simp only [step] at hs
  split at hs
  · cases hs
    obtain ⟨hl, hidx⟩ := laid_postManifest hi.laid hi.indexed hsafe
    refine ⟨hl, hidx, hi.dirty, fun hne => ?_⟩
    show (r.postManifest s.shared).pagesPerGroup ≠ 0
    rw [pagesPerGroup_postManifest]
    exact hi.sized hne
  · cases hs

/-- One event keeps the invariant. -/
theorem step_inv {e : Event} (hi : Inv s) (hsafe : Safe s e) (hs : step h s e = some s') :
    Inv s' := by
  cases e with
  | write page data => exact inv_write hi hs
  | checkpoint => exact inv_checkpoint hi hs
  | sync i => exact inv_sync hi hsafe hs
  | failSync i => exact inv_failSync hi hsafe hs
  | flush i => exact inv_flush hi hs
  | setLen n => exact inv_setLen hi hsafe hs
  | replay r pages => exact inv_replay hi hsafe hs
  | importFile i => cases hsafe
  | encode =>
    cases hs
    exact ⟨hi.laid, hi.indexed, hi.dirty, hi.sized⟩

/-- Every run of safe events keeps the partition. -/
theorem groups_partition {es : List Event} (hstart : Partitioned s.shared) (hclean : s.dirty = [])
    (hsafe : Meets (step h) Safe s es) (hrun : run (step h) s es = some s') :
    Partitioned s'.shared := by
  obtain ⟨hl, hidx⟩ := partitioned_iff.mp hstart
  have hinv : Inv s := ⟨hl, hidx, hclean ▸ List.nodup_nil, fun hne => absurd hclean hne⟩
  have hend : Inv s' := run_invariant (fun _ _ _ hi hc hs => step_inv hi hc hs) hinv hsafe hrun
  exact partitioned_iff.mpr ⟨hend.laid, hend.indexed⟩

/-! ### A database of two pages -/

namespace Example

/-- A handle with groups of two pages. -/
def handle : Handle := ⟨2, 0, by decide⟩

/-- A page full of one byte. -/
def page (n : UInt8) : Bytes := List.replicate 512 n

/-- One group with pages 0 and 1. -/
def opened : State where
  shared := { Manifest.empty with
    pageSize := 512
    pageCount := 2
    pagesPerGroup := 2
    strategy := .bTreeAware
    groupPages := [[0, 1]]
    pageIndex := Manifest.pageIndexOf [[0, 1]] }

theorem partitioned : Partitioned opened.shared := by
  refine partitioned_iff.mpr ⟨laid_of_perm rfl (.refl _) (by decide), ?_, fun _ _ => rfl⟩
  exact fun hp => by cases hp

/-- After the write of page 2. -/
def wrote : State := { opened with dirty := [2], openLog := [(2, page 7)] }

theorem step_write : step handle opened (.write 2 (page 7)) = some wrote := by
  have hlen : (page 7).length = 512 := List.length_replicate
  have hseed : opened.shared.seedGeometry 512 2 0 = opened.shared := rfl
  simp only [step, handle, hlen, hseed]
  rfl

end Example

/-- The file grows before the checkpoint: page 2 gets one slot. -/
theorem partition_after_growth : ∃ s', run (step Example.handle) Example.opened
    [.write 2 (Example.page 7), .setLen 3, .checkpoint] = some s' ∧ s'.shared.groupPages = [[0, 1], [2]] ∧
      Partitioned s'.shared := by
  have hrun : run (step Example.handle) Example.opened [.write 2 (Example.page 7), .setLen 3, .checkpoint] =
      some _ := run_cons.mpr ⟨_, Example.step_write, rfl⟩
  refine ⟨_, hrun, by decide +kernel, groups_partition Example.partitioned rfl ?_ hrun⟩
  refine .cons trivial Example.step_write ⟨⟨fun _ _ => by decide, fun _ p hge hlt => ?_⟩, ?_⟩
  · obtain rfl : p = 2 := by
      have hge' : 2 ≤ p := hge
      omega
    rfl
  · exact fun _ _ => ⟨trivial, fun _ _ => trivial⟩

/-- The checkpoint comes first: growth lists page 2 again. -/
theorem checkpoint_then_growth : ∃ s', Partitioned Example.opened.shared ∧
    run (step Example.handle) Example.opened [.write 2 (Example.page 7), .checkpoint, .setLen 3] =
      some s' ∧ s'.shared.groupPages = [[0, 1], [2, 2]] ∧ ¬ Partitioned s'.shared := by
  have hrun : run (step Example.handle) Example.opened [.write 2 (Example.page 7), .checkpoint, .setLen 3] =
      some _ := run_cons.mpr ⟨_, Example.step_write, rfl⟩
  refine ⟨_, Example.partitioned, hrun, by decide +kernel, fun hpart => ?_⟩
  exact absurd hpart.nodup (by decide +kernel)

end Turbolite.Partition
