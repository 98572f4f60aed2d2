import Turbolite.Materialize
import Turbolite.Partition
import Turbolite.Lib.Checked

/-!
# Turbolite.GroupMaps

The helpers that say where a page lives (`page_location`) and which pages a group has
(`group_page_nums`, `group_size`, `total_groups`), in the words of the source: `u64` products, divisions
that fail on zero, slots cut to 32 bits. The lists of a manifest are not checked, so a page may be listed
twice. `groupings_agree` says what the helpers still agree on, and exactly when they are inverse to each
other.
-/

namespace Turbolite.GroupMaps

open Blocks Checked

/-! ### The helpers in machine words -/

/-- `total_groups_for`. -/
def totalGroupsFor? (pageCount pagesPerGroup : Nat) : Option Nat :=
  if pagesPerGroup = 0 ∨ pageCount = 0 then some 0 else divCeil? 64 pageCount pagesPerGroup

/-- `total_groups`. -/
def totalGroups? (m : Manifest) : Option Nat :=
  if m.groupPages ≠ [] then some m.groupPages.length
  else totalGroupsFor? m.pageCount m.pagesPerGroup

/-- `idx as u32`. -/
def castSlot (loc : PageLocation) : PageLocation := { loc with index := loc.index % 2 ^ 32 }

/-- The reverse index, each slot cut to 32 bits. -/
def castPageIndexOf (groupPages : List (List Nat)) : HMap Nat PageLocation :=
  ((Manifest.slotEntries groupPages).map fun e => (e.1, castSlot e.2)).foldl
    (fun idx e => idx.insert e.1 e.2) ∅

/-- `build_page_index`. -/
def buildPageIndex (m : Manifest) : Manifest :=
  let strategy := if m.groupPages ≠ [] then .bTreeAware else m.strategy
  match strategy with
  | .positional => { m with strategy := .positional, pageIndex := ∅ }
  | .bTreeAware => { m with strategy := .bTreeAware, pageIndex := castPageIndexOf m.groupPages }

/-- `detect_and_normalize_strategy`. -/
def detectAndNormalizeStrategy (m : Manifest) : Manifest :=
  let strategy := if m.groupPages ≠ [] then .bTreeAware else m.strategy
  buildPageIndex ({ m with strategy := strategy }).normalizeOverrides

/-- `page_location`. -/
def pageLocation? (m : Manifest) (pageNum : Nat) : Option (Option PageLocation) :=
  match m.strategy with
  | .positional =>
    if m.pagesPerGroup = 0 ∨ m.pageCount ≤ pageNum then some none
    else do
      let gid ← div? pageNum m.pagesPerGroup
      let idx ← mod? pageNum m.pagesPerGroup
      some (some (castSlot ⟨gid, idx⟩))
  | .bTreeAware => some (m.pageIndex.lookup pageNum)

/-- `group_page_nums`. -/
def groupPageNums? (m : Manifest) (gid : Nat) : Option (List Nat) :=
  match m.strategy with
  | .positional => do
    let start ← mul? 64 gid m.pagesPerGroup
    let stop ← add? 64 start m.pagesPerGroup
    some (List.range' start (min stop m.pageCount - start))
  | .bTreeAware => some (m.groupPages.getD gid [])

/-- `group_size`. -/
def groupSize? (m : Manifest) (gid : Nat) : Option Nat :=
  match m.strategy with
  | .positional => do
    let start ← mul? 64 gid m.pagesPerGroup
    some (min m.pagesPerGroup (m.pageCount - start))
  | .bTreeAware => some (m.groupPages.getD gid []).length

/-! ### What the helpers agree on -/

/-- Slot `i` of group `g` lists the page. -/
def Lists (m : Manifest) (p g i : Nat) : Prop :=
  ∃ pages, groupPageNums? m g = some pages ∧ pages[i]? = some p

/-- The slot lists the page, and no later group or slot does. -/
structure LastLists (m : Manifest) (p g i : Nat) : Prop where
  lists : Lists m p g i
  last : ∀ g' i', Lists m p g' i' → g' < g ∨ (g' = g ∧ i' ≤ i)

/-- No page has two slots, and every slot fits 32 bits. -/
structure Plain (m : Manifest) : Prop where
  nodup : m.groupPages.flatten.Nodup
  fits : ∀ pages ∈ m.groupPages, pages.length ≤ 2 ^ 32

/-- The location of a page, when its group has a list, is the last slot that lists it. -/
def LocatesLast (m : Manifest) : Prop :=
  ∀ p g i, (groupPageNums? m g).isSome →
    (pageLocation? m p = some (some ⟨g, i⟩) ↔ ∃ j, LastLists m p g j ∧ i = j % 2 ^ 32)

/-- Locations and lists are inverse to each other. -/
def Inverse (m : Manifest) : Prop :=
  ∀ p g i, (groupPageNums? m g).isSome → (pageLocation? m p = some (some ⟨g, i⟩) ↔ Lists m p g i)

/-- What holds of the helpers for every manifest. Only the lists of positional groups past the end of a
`u64` have no value. -/
structure Agree (m : Manifest) : Prop where
  locates : LocatesLast m
  inverse : Inverse m ↔ Plain m
  listed : ∀ g, groupPageNums? m g = none ↔
    m.strategy = .positional ∧ 2 ^ 64 ≤ g * m.pagesPerGroup + m.pagesPerGroup
  size : ∀ g pages, groupPageNums? m g = some pages → groupSize? m g = some pages.length
  bounded : ∃ n, totalGroups? m = some n ∧
    ∀ p loc, pageLocation? m p = some (some loc) → loc.groupId < n
  located : ∀ p, (pageLocation? m p).isSome
  positional : m.strategy = .positional → ∀ p < m.pageCount, m.pagesPerGroup ≠ 0 →
    ∃ g i, pageLocation? m p = some (some ⟨g, i⟩) ∧ g * m.pagesPerGroup + i = p


/-! ### The last entry of a page -/

/-- Inside one list the last slot of a page is kept. -/
theorem le_index_of_slots {xs : List Nat} {g p j : Nat} {idx : HMap Nat PageLocation}
    {loc : PageLocation}
    (h : ((xs.zipIdx.map fun pi => (pi.1, (⟨g, pi.2⟩ : PageLocation))).foldl
      (fun idx e => idx.insert e.1 e.2) idx).lookup p = some loc)
    (hj : xs[j]? = some p) : j ≤ loc.index := by
  induction xs using List.reverseRecOn generalizing loc with
  | nil => cases hj
  | append_singleton xs x ih =>
    have hlt : j < xs.length + 1 := by
      obtain ⟨hlt, -⟩ := List.getElem?_eq_some_iff.mp hj
      simpa using hlt
    rw [List.zipIdx_append, List.map_append, List.foldl_append] at h
    simp only [List.zipIdx_singleton, List.map_cons, List.map_nil, List.foldl_cons,
      List.foldl_nil] at h
    by_cases hp : p = x
    · subst hp
      rw [AList.lookup_insert] at h
      cases h
      simpa using Nat.le_of_lt_succ hlt
    · rw [AList.lookup_insert_ne hp] at h
      refine ih h ?_
      rcases Nat.lt_or_eq_of_le (Nat.le_of_lt_succ hlt) with hin | rfl
      · rwa [List.getElem?_append_left hin] at hj
      · rw [List.getElem?_concat_length] at hj
        exact absurd (Option.some.inj hj).symm hp

/-- The location of a page is the last slot of its last group. -/
theorem le_index_of_lookup {gps : List (List Nat)} {p g i j : Nat}
    (h : (Manifest.pageIndexOf gps).lookup p = some ⟨g, i⟩) (hj : (gps.getD g [])[j]? = some p) :
    j ≤ i := by
  induction gps using List.reverseRecOn with
  | nil => simp at hj
  | append_singleton gps last ih =>
    have hsound := Manifest.pageIndexOf_sound h
    rw [Materialize.pageIndexOf_append] at h
    by_cases hg : g = gps.length
    · subst hg
      rw [List.getD_eq_getElem?_getD, List.getElem?_concat_length] at hj
      exact le_index_of_slots h hj
    · have hlt : g < gps.length := by
        by_contra hge
        have hnone : (gps ++ [last])[g]? = none := by
          rw [List.getElem?_eq_none_iff, List.length_append, List.length_singleton]
          omega
        rw [List.getD_eq_getElem?_getD, hnone] at hj
        cases hj
      rw [List.getD_eq_getElem?_getD, List.getElem?_append_left hlt,
        ← List.getD_eq_getElem?_getD] at hj
      refine ih ?_ hj
      rcases Manifest.lookup_foldl_insert h with hmem | hidx
      · obtain ⟨pi, -, he⟩ := List.mem_map.mp hmem
        cases he
        exact absurd rfl hg
      · exact hidx

/-- A change of the values of all entries is a change of what is looked up. -/
theorem lookup_foldl_insert_map (f : PageLocation → PageLocation) {es : List (Nat × PageLocation)}
    {idx idx' : HMap Nat PageLocation} {p : Nat} (h : idx'.lookup p = (idx.lookup p).map f) :
    ((es.map fun e => (e.1, f e.2)).foldl (fun idx e => idx.insert e.1 e.2) idx').lookup p =
      ((es.foldl (fun idx e => idx.insert e.1 e.2) idx).lookup p).map f := by
  induction es generalizing idx idx' with
  | nil => exact h
  | cons e es ih =>
    refine ih ?_
    by_cases hp : p = e.1
    · rw [hp, AList.lookup_insert, AList.lookup_insert, Option.map_some]
    · rw [AList.lookup_insert_ne hp, AList.lookup_insert_ne hp, h]

theorem lookup_castPageIndexOf (gps : List (List Nat)) (p : Nat) :
    (castPageIndexOf gps).lookup p = ((Manifest.pageIndexOf gps).lookup p).map castSlot :=
  lookup_foldl_insert_map castSlot rfl

/-! ### Shape after normalisation -/

/-- What `build_page_index` leaves, next to the fields it does not touch. -/
structure Built (m : Manifest) : Prop where
  explicit : m.groupPages ≠ [] → m.strategy = .bTreeAware
  index : m.strategy = .bTreeAware → m.pageIndex = castPageIndexOf m.groupPages

theorem built_buildPageIndex (m : Manifest) : Built (buildPageIndex m) := by
  unfold buildPageIndex
  dsimp only
  split
  · rename_i hst
    refine ⟨fun hne => ?_, fun h => by cases h⟩
    rw [if_pos hne] at hst
    cases hst
  · exact ⟨fun _ => rfl, fun _ => rfl⟩

theorem ranges_buildPageIndex (m : Manifest) :
    (buildPageIndex m).pageCount = m.pageCount ∧
      (buildPageIndex m).pagesPerGroup = m.pagesPerGroup := by
  unfold buildPageIndex
  dsimp only
  split <;> exact ⟨rfl, rfl⟩

section Helpers

variable {m : Manifest}

theorem Built.positional (h : Built m) (hst : m.strategy = .positional) : m.groupPages = [] := by
  by_contra hne
  rw [h.explicit hne] at hst
  cases hst

@[simp] theorem groupPageNums?_bTreeAware (hst : m.strategy = .bTreeAware) (g : Nat) :
    groupPageNums? m g = some (m.groupPages.getD g []) := by
  simp only [groupPageNums?, hst]

theorem groupPageNums?_positional (hst : m.strategy = .positional) {g : Nat} :
    groupPageNums? m g =
      if g * m.pagesPerGroup + m.pagesPerGroup < 2 ^ 64 then some (m.groupPageNums g) else none := by
  simp only [groupPageNums?, hst]
  by_cases hfit : g * m.pagesPerGroup + m.pagesPerGroup < 2 ^ 64
  · rw [mul?_of_lt (Nat.lt_of_le_of_lt (Nat.le_add_right ..) hfit), if_pos hfit,
      Manifest.groupPageNums_positional hst]
    simp only [Option.bind_eq_bind, Option.bind_some]
    rw [add?_of_lt hfit]
    rfl
  · rw [if_neg hfit]
    by_cases hmul : g * m.pagesPerGroup < 2 ^ 64
    · rw [mul?_of_lt hmul]
      simp only [Option.bind_eq_bind, Option.bind_some]
      rw [add?, if_neg hfit]
      rfl
    · rw [mul?, if_neg hmul]
      rfl

/-- A list that has a value is the list of the unbounded model. -/
theorem eq_groupPageNums {g : Nat} {pages : List Nat} (h : groupPageNums? m g = some pages) :
    pages = m.groupPageNums g := by
  cases hst : m.strategy with
  | positional =>
    rw [groupPageNums?_positional hst] at h
    split at h
    · exact (Option.some.inj h).symm
    · cases h
  | bTreeAware =>
    rw [groupPageNums?_bTreeAware hst] at h
    rw [Manifest.groupPageNums_bTreeAware hst]
    exact (Option.some.inj h).symm

theorem groupPageNums?_eq_none_iff {g : Nat} : groupPageNums? m g = none ↔
    m.strategy = .positional ∧ 2 ^ 64 ≤ g * m.pagesPerGroup + m.pagesPerGroup := by
  cases hst : m.strategy with
  | positional =>
    rw [groupPageNums?_positional hst]
    simp
  | bTreeAware => simp [groupPageNums?_bTreeAware hst]

/-- Slots of an explicit group. -/
theorem lists_bTreeAware_iff (hst : m.strategy = .bTreeAware) {p g i : Nat} :
    Lists m p g i ↔ (m.groupPages.getD g [])[i]? = some p := by
  simp [Lists, groupPageNums?_bTreeAware hst]

/-- Slots of a positional group. -/
theorem lists_positional_iff (hst : m.strategy = .positional) {p g i : Nat} :
    Lists m p g i ↔ g * m.pagesPerGroup + m.pagesPerGroup < 2 ^ 64 ∧
      p = g * m.pagesPerGroup + i ∧ i < m.pagesPerGroup ∧ p < m.pageCount := by
  unfold Lists
  rw [groupPageNums?_positional hst, Manifest.groupPageNums_positional hst]
  constructor
  · rintro ⟨pages, hpages, hslot⟩
    split at hpages
    · rename_i hfit
      cases hpages
      obtain ⟨hi, heq⟩ := List.getElem?_eq_some_iff.mp hslot
      rw [List.length_range'] at hi
      rw [List.getElem_range', Nat.one_mul] at heq
      exact ⟨hfit, heq.symm, by omega, by omega⟩
    · cases hpages
  · rintro ⟨hfit, rfl, hi, hp⟩
    rw [if_pos hfit]
    refine ⟨_, rfl, ?_⟩
    rw [List.getElem?_range' (by omega)]
    simp

theorem pageLocation?_positional (hst : m.strategy = .positional) {p : Nat} :
    pageLocation? m p =
      if m.pagesPerGroup = 0 ∨ m.pageCount ≤ p then some none
      else some (some (castSlot ⟨p / m.pagesPerGroup, p % m.pagesPerGroup⟩)) := by
  simp only [pageLocation?, hst]
  split
  · rfl
  · rename_i hin
    rw [div?_of_ne_zero (not_or.mp hin).1, mod?_of_ne_zero (not_or.mp hin).1]
    rfl

theorem pageLocation?_bTreeAware (hst : m.strategy = .bTreeAware) (h : Built m) (p : Nat) :
    pageLocation? m p = some (((Manifest.pageIndexOf m.groupPages).lookup p).map castSlot) := by
  simp only [pageLocation?, hst, h.index hst, lookup_castPageIndexOf]

/-! ### The last slot -/

theorem lastLists_unique {p g i g' i' : Nat} (h : LastLists m p g i) (h' : LastLists m p g' i') :
    g = g' ∧ i = i' := by
  have h1 := h.last g' i' h'.lists
  have h2 := h'.last g i h.lists
  omega

/-- The reverse index of explicit groups names the last slot. -/
theorem lookup_pageIndexOf_iff (hst : m.strategy = .bTreeAware) {p g i : Nat} :
    (Manifest.pageIndexOf m.groupPages).lookup p = some ⟨g, i⟩ ↔ LastLists m p g i := by
  have hlast : ∀ {g i : Nat}, (Manifest.pageIndexOf m.groupPages).lookup p = some ⟨g, i⟩ →
      LastLists m p g i := by
    intro g i h
    refine ⟨(lists_bTreeAware_iff hst).mpr (Manifest.pageIndexOf_sound h), ?_⟩
    intro g' i' hl
    have hslot := (lists_bTreeAware_iff hst).mp hl
    have hle := Materialize.lookup_pageIndexOf_last h (List.mem_iff_getElem?.mpr ⟨i', hslot⟩)
    rcases Nat.lt_or_eq_of_le hle with hlt | rfl
    · exact .inl hlt
    · exact .inr ⟨rfl, le_index_of_lookup h hslot⟩
  refine ⟨hlast, fun h => ?_⟩
  obtain ⟨loc, hloc⟩ := Option.isSome_iff_exists.mp
    (Manifest.pageIndexOf_complete ((lists_bTreeAware_iff hst).mp h.lists))
  obtain ⟨hg, hi⟩ := lastLists_unique h (hlast hloc)
  rw [hloc, hg, hi]

/-- Positional groups do not overlap: every slot that lists a page is the last. -/
theorem lastLists_positional_iff (hst : m.strategy = .positional) {p g i : Nat} :
    LastLists m p g i ↔ Lists m p g i := by
  refine ⟨LastLists.lists, fun h => ⟨h, ?_⟩⟩
  intro g' i' h'
  obtain ⟨-, hp, hi, -⟩ := (lists_positional_iff hst).mp h
  obtain ⟨-, hp', hi', -⟩ := (lists_positional_iff hst).mp h'
  have hg : g = g' := by
    have hdiv := Nat.mul_add_div (Nat.zero_lt_of_lt hi) g i
    have hdiv' := Nat.mul_add_div (Nat.zero_lt_of_lt hi) g' i'
    rw [Nat.div_eq_of_lt hi, Nat.mul_comm, ← hp] at hdiv
    rw [Nat.div_eq_of_lt hi', Nat.mul_comm, ← hp'] at hdiv'
    omega
  subst hg
  exact .inr ⟨rfl, by omega⟩

/-- A positional location, for a group whose list has a value. -/
theorem pageLocation?_eq_some_iff_lists (hst : m.strategy = .positional)
    (hppg : m.pagesPerGroup < 2 ^ 32) {p g i : Nat} (hg : (groupPageNums? m g).isSome) :
    pageLocation? m p = some (some ⟨g, i⟩) ↔ Lists m p g i := by
  have hfit : g * m.pagesPerGroup + m.pagesPerGroup < 2 ^ 64 := by
    rw [groupPageNums?_positional hst] at hg
    by_contra hno
    rw [if_neg hno] at hg
    cases hg
  rw [pageLocation?_positional hst, lists_positional_iff hst]
  constructor
  · intro h
    split at h
    · cases h
    · rename_i hin
      have hpos : 0 < m.pagesPerGroup := by omega
      have hmod := Nat.mod_lt p hpos
      have hcast : p % m.pagesPerGroup % 2 ^ 32 = p % m.pagesPerGroup :=
        Nat.mod_eq_of_lt (Nat.lt_trans hmod hppg)
      simp only [castSlot, hcast] at h
      cases h
      have hdiv := Nat.div_add_mod' p m.pagesPerGroup
      exact ⟨hfit, hdiv.symm, hmod, by omega⟩
  · rintro ⟨-, rfl, hi, hp⟩
    have hpos : m.pagesPerGroup ≠ 0 := by omega
    rw [if_neg (by omega), Nat.mul_comm, Nat.mul_add_div (Nat.zero_lt_of_lt hi),
      Nat.div_eq_of_lt hi, Nat.mul_add_mod, Nat.mod_eq_of_lt hi]
    simp only [castSlot, Nat.mod_eq_of_lt (Nat.lt_trans hi hppg), Nat.add_zero]

/-- A location is the last slot of its page, cut to 32 bits. -/
theorem locatesLast (h : Built m) (hppg : m.pagesPerGroup < 2 ^ 32) : LocatesLast m := by
  intro p g i hg
  cases hst : m.strategy with
  | positional =>
    rw [pageLocation?_eq_some_iff_lists hst hppg hg]
    have hcast : ∀ {j}, LastLists m p g j → j % 2 ^ 32 = j := by
      intro j hj
      obtain ⟨-, -, hlt, -⟩ := (lists_positional_iff hst).mp hj.lists
      exact Nat.mod_eq_of_lt (Nat.lt_trans hlt hppg)
    constructor
    · intro hl
      have hlast := (lastLists_positional_iff hst).mpr hl
      exact ⟨i, hlast, (hcast hlast).symm⟩
    · rintro ⟨j, hlast, rfl⟩
      rw [hcast hlast]
      exact hlast.lists
  | bTreeAware =>
    rw [pageLocation?_bTreeAware hst h, Option.some_inj, Option.map_eq_some_iff]
    constructor
    · rintro ⟨⟨g', j⟩, hlook, hcast⟩
      cases hcast
      exact ⟨j, (lookup_pageIndexOf_iff hst).mp hlook, rfl⟩
    · rintro ⟨j, hlast, rfl⟩
      exact ⟨⟨g, j⟩, (lookup_pageIndexOf_iff hst).mpr hlast, rfl⟩

/-! ### Inverse maps -/

/-- A slot lies in a list of the manifest. -/
theorem slot_mem {gps : List (List Nat)} {p g i : Nat} (h : (gps.getD g [])[i]? = some p) :
    ∃ pages ∈ gps, i < pages.length := by
  rw [List.getD_eq_getElem?_getD] at h
  cases hg : gps[g]? with
  | none =>
    rw [hg] at h
    cases h
  | some pages =>
    rw [hg] at h
    exact ⟨pages, List.mem_of_getElem? hg, (List.getElem?_eq_some_iff.mp h).1⟩

/-- Lists in which every page has one slot have no duplicates. -/
theorem nodup_flatten_of_slots {gps : List (List Nat)}
    (h : ∀ p g i g' i' : Nat, (gps.getD g [])[i]? = some p → (gps.getD g' [])[i']? = some p →
      g = g' ∧ i = i') : gps.flatten.Nodup := by
  rw [List.nodup_flatten]
  constructor
  · intro pages hpages
    obtain ⟨g, hg⟩ := List.mem_iff_getElem?.mp hpages
    have hget : gps.getD g [] = pages := by rw [List.getD_eq_getElem?_getD, hg]; rfl
    rw [List.nodup_iff_getElem?_ne_getElem?]
    intro i j hij hj heq
    have hslot : (gps.getD g [])[j]? = some pages[j] := by
      rw [hget]
      exact List.getElem?_eq_getElem hj
    have hslot' : (gps.getD g [])[i]? = some pages[j] := by
      rw [hget, heq]
      exact List.getElem?_eq_getElem hj
    have hsame := (h _ g i g j hslot' hslot).2
    omega
  · rw [List.pairwise_iff_getElem]
    intro g g' hg hg' hlt p hp hp'
    obtain ⟨i, hi⟩ := List.mem_iff_getElem?.mp hp
    obtain ⟨i', hi'⟩ := List.mem_iff_getElem?.mp hp'
    have hget : ∀ {k} (hk : k < gps.length), gps.getD k [] = gps[k] := by
      intro k hk
      rw [List.getD_eq_getElem?_getD, List.getElem?_eq_getElem hk]
      rfl
    have hsame := (h p g i g' i' (by rw [hget hg, hi]) (by rw [hget hg', hi'])).1
    omega

/-- With no page listed twice every slot is the last. -/
theorem Plain.lastLists (h : Plain m) {p g i : Nat} (hl : Lists m p g i) : LastLists m p g i := by
  cases hst : m.strategy with
  | positional => exact (lastLists_positional_iff hst).mpr hl
  | bTreeAware =>
    rw [← lookup_pageIndexOf_iff hst, Partition.lookup_pageIndexOf h.nodup]
    exact (lists_bTreeAware_iff hst).mp hl

theorem Plain.inverse (h : Plain m) (hb : Built m) (hppg : m.pagesPerGroup < 2 ^ 32) :
    Inverse m := by
  intro p g i hg
  cases hst : m.strategy with
  | positional => exact pageLocation?_eq_some_iff_lists hst hppg hg
  | bTreeAware =>
    have hcast : ∀ {j}, Lists m p g j → j % 2 ^ 32 = j := by
      intro j hj
      have hslot := (lists_bTreeAware_iff hst).mp hj
      obtain ⟨pages, hpages, hlt⟩ := slot_mem hslot
      exact Nat.mod_eq_of_lt (Nat.lt_of_lt_of_le hlt (h.fits pages hpages))
    rw [locatesLast hb hppg p g i hg]
    constructor
    · rintro ⟨j, hlast, rfl⟩
      rw [hcast hlast.lists]
      exact hlast.lists
    · intro hl
      exact ⟨i, h.lastLists hl, (hcast hl).symm⟩

/-- Locations of explicit groups have slots of 32 bits. -/
theorem index_lt (hst : m.strategy = .bTreeAware) (hb : Built m) {p g i : Nat}
    (h : pageLocation? m p = some (some ⟨g, i⟩)) : i < 2 ^ 32 := by
  rw [pageLocation?_bTreeAware hst hb, Option.some_inj, Option.map_eq_some_iff] at h
  obtain ⟨loc, -, hcast⟩ := h
  cases hcast
  exact Nat.mod_lt _ (by decide)

theorem plain_of_inverse (hb : Built m) (h : Inverse m) : Plain m := by
  cases hst : m.strategy with
  | positional =>
    have hnil := hb.positional hst
    exact ⟨by rw [hnil]; exact List.nodup_nil, fun pages hp => by rw [hnil] at hp; cases hp⟩
  | bTreeAware =>
    have hloc : ∀ {p g i}, (m.groupPages.getD g [])[i]? = some p →
        pageLocation? m p = some (some ⟨g, i⟩) := by
      intro p g i hslot
      exact (h p g i (by rw [groupPageNums?_bTreeAware hst]; rfl)).mpr
        ((lists_bTreeAware_iff hst).mpr hslot)
    refine ⟨nodup_flatten_of_slots ?_, ?_⟩
    · intro p g i g' i' hs hs'
      have heq := (hloc hs).symm.trans (hloc hs')
      cases heq
      exact ⟨rfl, rfl⟩
    · intro pages hpages
      obtain ⟨g, hg⟩ := List.mem_iff_getElem?.mp hpages
      -- slot 2 ^ 32 of a longer list has no location
      by_contra hlong
      have hin : 2 ^ 32 < pages.length := Nat.lt_of_not_le hlong
      have hslot : (m.groupPages.getD g [])[2 ^ 32]? = some pages[2 ^ 32] := by
        rw [List.getD_eq_getElem?_getD, hg]
        exact List.getElem?_eq_getElem hin
      exact absurd (index_lt hst hb (hloc hslot)) (Nat.lt_irrefl _)

/-! ### Sizes and totals -/

theorem groupSize?_eq {g : Nat} {pages : List Nat} (h : groupPageNums? m g = some pages) :
    groupSize? m g = some pages.length := by
  have hpages := eq_groupPageNums h
  cases hst : m.strategy with
  | positional =>
    have hfit : g * m.pagesPerGroup + m.pagesPerGroup < 2 ^ 64 := by
      rw [groupPageNums?_positional hst] at h
      by_contra hno
      rw [if_neg hno] at h
      cases h
    have hlen : pages.length = min m.pagesPerGroup (m.pageCount - g * m.pagesPerGroup) := by
      rw [hpages, Manifest.groupPageNums_positional hst, List.length_range']
      omega
    simp only [groupSize?, hst]
    rw [mul?_of_lt (Nat.lt_of_le_of_lt (Nat.le_add_right ..) hfit), hlen]
    rfl
  | bTreeAware =>
    rw [hpages, Manifest.groupPageNums_bTreeAware hst]
    simp only [groupSize?, hst]

/-- The total bounds the group of every location. -/
theorem totalGroups?_bounds (hb : Built m) (hpc : m.pageCount < 2 ^ 64) :
    ∃ n, totalGroups? m = some n ∧
      ∀ p loc, pageLocation? m p = some (some loc) → loc.groupId < n := by
  cases hst : m.strategy with
  | positional =>
    have hnil := hb.positional hst
    simp only [totalGroups?, totalGroupsFor?, hnil, ne_eq, not_true_eq_false, if_false]
    split
    · rename_i hzero
      refine ⟨0, rfl, fun p loc h => ?_⟩
      rw [pageLocation?_positional hst, if_pos (by omega)] at h
      cases h
    · rename_i hne
      obtain ⟨hppg, -⟩ := not_or.mp hne
      refine ⟨divCeil m.pageCount m.pagesPerGroup, divCeil?_of_ne_zero hpc hppg, fun p loc h => ?_⟩
      rw [pageLocation?_positional hst] at h
      split at h
      · cases h
      · rename_i hin
        cases h
        have hpos : 0 < m.pagesPerGroup := Nat.pos_of_ne_zero hppg
        rw [lt_divCeil_iff hpos]
        have hle : p / m.pagesPerGroup * m.pagesPerGroup ≤ p := Nat.div_mul_le_self ..
        simp only [castSlot]
        omega
  | bTreeAware =>
    have hloc : ∀ p loc, pageLocation? m p = some (some loc) →
        loc.groupId < m.groupPages.length := by
      intro p loc h
      rw [pageLocation?_bTreeAware hst hb, Option.some_inj, Option.map_eq_some_iff] at h
      obtain ⟨⟨g, i⟩, hlook, rfl⟩ := h
      have hslot := Manifest.pageIndexOf_sound hlook
      by_contra hge
      have hnone : m.groupPages[g]? = none := List.getElem?_eq_none (Nat.le_of_not_lt hge)
      rw [List.getD_eq_getElem?_getD, hnone] at hslot
      cases hslot
    by_cases hne : m.groupPages = []
    · obtain ⟨n, hn⟩ : ∃ n, totalGroups? m = some n := by
        simp only [totalGroups?, totalGroupsFor?, hne, ne_eq, not_true_eq_false, if_false]
        split
        · exact ⟨0, rfl⟩
        · rename_i hzero
          exact ⟨_, divCeil?_of_ne_zero hpc (not_or.mp hzero).1⟩
      refine ⟨n, hn, fun p loc h => ?_⟩
      have hlt := hloc p loc h
      rw [hne] at hlt
      cases hlt
    · exact ⟨m.groupPages.length, if_pos hne, hloc⟩

theorem isSome_pageLocation? (p : Nat) : (pageLocation? m p).isSome := by
  cases hst : m.strategy with
  | positional =>
    rw [pageLocation?_positional hst]
    split <;> rfl
  | bTreeAware =>
    simp only [pageLocation?, hst]
    rfl

theorem pageLocation?_split (hst : m.strategy = .positional) (hppg : m.pagesPerGroup < 2 ^ 32)
    {p : Nat} (hp : p < m.pageCount) (hne : m.pagesPerGroup ≠ 0) :
    ∃ g i, pageLocation? m p = some (some ⟨g, i⟩) ∧ g * m.pagesPerGroup + i = p := by
  have hmod := Nat.mod_lt p (Nat.pos_of_ne_zero hne)
  refine ⟨p / m.pagesPerGroup, p % m.pagesPerGroup, ?_, Nat.div_add_mod' p m.pagesPerGroup⟩
  rw [pageLocation?_positional hst, if_neg (by omega)]
  simp only [castSlot, Nat.mod_eq_of_lt (Nat.lt_trans hmod hppg)]

/-- While the slots fit 32 bits the locations are those of the unbounded index. -/
theorem pageLocation?_buildPageIndex (hppg : m.pagesPerGroup < 2 ^ 32)
    (hfits : ∀ pages ∈ m.groupPages, pages.length ≤ 2 ^ 32) (p : Nat) :
    pageLocation? (buildPageIndex m) p = some (m.buildPageIndex.pageLocation p) := by
  unfold buildPageIndex Manifest.buildPageIndex
  dsimp only
  cases (if m.groupPages ≠ [] then GroupingStrategy.bTreeAware else m.strategy) with
  | positional =>
    rw [pageLocation?_positional rfl]
    dsimp only [Manifest.pageLocation]
    split
    · rfl
    · rename_i hin
      have hmod := Nat.mod_lt p (Nat.pos_of_ne_zero (not_or.mp hin).1)
      simp only [castSlot, Nat.mod_eq_of_lt (Nat.lt_trans hmod hppg)]
  | bTreeAware =>
    dsimp only [pageLocation?, Manifest.pageLocation]
    rw [lookup_castPageIndexOf]
    cases hlook : (Manifest.pageIndexOf m.groupPages).lookup p with
    | none => rfl
    | some loc =>
      obtain ⟨pages, hpages, hlt⟩ := slot_mem (Manifest.pageIndexOf_sound hlook)
      have hcast : loc.index % 2 ^ 32 = loc.index :=
        Nat.mod_eq_of_lt (Nat.lt_of_lt_of_le hlt (hfits pages hpages))
      rw [Option.map_some, castSlot, hcast]

/-- A manifest whose index is built, with fields that fit their words. -/
theorem agree (hb : Built m) (hpc : m.pageCount < 2 ^ 64) (hppg : m.pagesPerGroup < 2 ^ 32) :
    Agree m where
  locates := locatesLast hb hppg
  inverse := ⟨plain_of_inverse hb, fun h => h.inverse hb hppg⟩
  listed _ := groupPageNums?_eq_none_iff
  size _ _ h := groupSize?_eq h
  bounded := totalGroups?_bounds hb hpc
  located := isSome_pageLocation?
  positional hst _ hp hne := pageLocation?_split hst hppg hp hne

end Helpers

/-- After either of them the helpers agree, whatever the lists and the sizes are. -/
theorem groupings_agree (m : Manifest) (hpc : m.pageCount < 2 ^ 64)
    (hppg : m.pagesPerGroup < 2 ^ 32) :
    Agree (buildPageIndex m) ∧ Agree (detectAndNormalizeStrategy m) := by
  constructor
  · obtain ⟨hn, hp⟩ := ranges_buildPageIndex m
    exact agree (built_buildPageIndex m) (hn.symm ▸ hpc) (hp.symm ▸ hppg)
  · unfold detectAndNormalizeStrategy
    obtain ⟨hn, hp⟩ := ranges_buildPageIndex
      ({ m with strategy := if m.groupPages ≠ [] then .bTreeAware else m.strategy }).normalizeOverrides
    exact agree (built_buildPageIndex _) (hn.symm ▸ hpc) (hp.symm ▸ hppg)

namespace Example

/-- Two groups that list page 7. -/
def shared : Manifest where
  pageCount := 8
  pageSize := 4096
  pagesPerGroup := 4
  groupPages := [[7], [7]]

end Example

theorem groupings_agree_shared :
    Agree (buildPageIndex Example.shared) ∧ Agree (detectAndNormalizeStrategy Example.shared) :=
  groupings_agree Example.shared (by decide) (by decide)

/-- Group 0 lists page 7 in slot 0, and its location is in group 1. -/
theorem shared_page_in_last_group :
    groupPageNums? (detectAndNormalizeStrategy Example.shared) 0 = some [7] ∧
      pageLocation? (detectAndNormalizeStrategy Example.shared) 7 = some (some ⟨1, 0⟩) ∧
      ¬ Inverse (detectAndNormalizeStrategy Example.shared) := by
  have hpages : groupPageNums? (detectAndNormalizeStrategy Example.shared) 0 = some [7] := by decide
  have hloc : pageLocation? (detectAndNormalizeStrategy Example.shared) 7 = some (some ⟨1, 0⟩) := by
    decide
  refine ⟨hpages, hloc, fun h => ?_⟩
  have hzero := (h 7 0 0 (by rw [hpages]; rfl)).mpr ⟨[7], hpages, rfl⟩
  rw [hloc] at hzero
  cases hzero

end Turbolite.GroupMaps
