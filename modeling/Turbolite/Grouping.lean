import Turbolite.Manifest

/-!
# Turbolite.Grouping

The edits of the page-to-group layout: new pages given to groups (`assign_new_pages_to_groups`),
`set_len`, the replay's page count (`set_replay_page_count`) and the regrouping after a VACUUM. Except
for the last two, none of them touches an object key: a group that is opened here has no object until
the next upload writes one.
-/

namespace Turbolite

open Blocks

/-! ### Appending pages to groups -/

/-- Put pages at the end of the last group. -/
def appendToLast (groups : List (List Nat)) (pages : List Nat) : List (List Nat) :=
  groups.modify (groups.length - 1) (· ++ pages)

/-- Fill the last group with up to `room` pages and open groups of `ppg` for the rest. -/
def appendPages (groups : List (List Nat)) (room ppg : Nat) (pages : List Nat) : List (List Nat) :=
  appendToLast groups (pages.take room) ++ blocks ppg (pages.drop room)

/-- The index entries of the pages `appendPages` adds. -/
def appendedEntries (groups : List (List Nat)) (room ppg : Nat) (pages : List Nat) :
    List (Nat × PageLocation) :=
  let lastGid := groups.length - 1
  let lastLen := (groups.getD lastGid []).length
  ((pages.take room).zipIdx.map fun p => (p.1, ⟨lastGid, lastLen + p.2⟩)) ++
    (blocks ppg (pages.drop room)).zipIdx.flatMap fun c =>
      c.1.zipIdx.map fun p => (p.1, ⟨groups.length + c.2, p.2⟩)

/-- Free slots of the last group. The subtraction is on `usize` and wraps. -/
def lastGroupRoom (groups : List (List Nat)) (ppg : Nat) : Nat :=
  match groups.getLast? with
  | some last => (ppg + 2 ^ 64 - last.length) % 2 ^ 64
  | none => 0

namespace Manifest

/-- `assign_new_pages_to_groups`. A positional manifest only gets the page count that covers the new
pages; a B-tree-aware one gets slots for them and keeps its page count. -/
def assignNewPagesToGroups (m : Manifest) (unassigned : List Nat) (ppg : Nat) : Manifest :=
  if unassigned = [] then m
  else
    match m.strategy with
    | .positional =>
      let maxPage := unassigned.foldl max 0
      if m.pageCount ≤ maxPage then { m with pageCount := maxPage + 1 } else m
    | .bTreeAware =>
      let sorted := unassigned.insertionSort (· ≤ ·)
      let fill := min (lastGroupRoom m.groupPages ppg) sorted.length
      { m with
        groupPages := appendPages m.groupPages fill ppg sorted
        pageIndex := (appendedEntries m.groupPages fill ppg sorted).foldl
          (fun idx e => idx.insert e.1 e.2) m.pageIndex }

/-- `set_len` from the page count and group size it read before: truncation drops the pages past the
end from their groups, growth assigns the new ones. -/
def setLenFrom (m : Manifest) (oldPageCount ppg newPageCount : Nat) : Manifest :=
  match m.strategy with
  | .positional => { m with pageCount := newPageCount }
  | .bTreeAware =>
    if newPageCount < oldPageCount then
      ({ m with
        pageCount := newPageCount
        groupPages := m.groupPages.map fun g => g.filter (· < newPageCount) } : Manifest).buildPageIndex
    else if oldPageCount < newPageCount then
      ({ m with pageCount := newPageCount }).assignNewPagesToGroups
        (List.range' oldPageCount (newPageCount - oldPageCount)) ppg
    else { m with pageCount := newPageCount }

/-- `set_len`, when nothing changes the manifest between its reads. -/
def setLen (m : Manifest) (newPageCount : Nat) : Manifest :=
  m.setLenFrom m.pageCount m.pagesPerGroup newPageCount

/-- The groups that keep a page below `n`, with the index they had. -/
def keptGroups (m : Manifest) (n : Nat) : List (Nat × List Nat) :=
  m.groupPages.zipIdx.filterMap fun g =>
    let group := g.1.filter (· < n)
    if group = [] then none else some (g.2, group)

/-- `set_replay_page_count`. A shrink closes empty groups and moves the later ones down, with their
keys, frame tables and overrides. -/
def setReplayPageCount (m : Manifest) (oldPageCount newPageCount : Nat) : Manifest :=
  match m.strategy with
  | .positional => { m with pageCount := newPageCount }
  | .bTreeAware =>
    if newPageCount ≤ oldPageCount then
      let kept := m.keptGroups newPageCount
      ({ m with
        pageCount := newPageCount
        groupPages := kept.map (·.2)
        pageGroupKeys := kept.map fun g => m.groupKey g.1
        frameTables := kept.map fun g => m.frameTable g.1
        subframeOverrides := kept.map fun g => m.overrides g.1 } : Manifest).buildPageIndex
    else if m.pagesPerGroup = 0 then ({ m with pageCount := newPageCount } : Manifest).buildPageIndex
    else
      let room := match m.groupPages.getLast? with
        | some last => m.pagesPerGroup - last.length
        | none => 0
      ({ m with
        pageCount := newPageCount
        groupPages := appendPages m.groupPages room m.pagesPerGroup
          (List.range' oldPageCount (newPageCount - oldPageCount)) } : Manifest).buildPageIndex

/-! ### What the edits leave alone -/

theorem buildPageIndex_eq_of_bTreeAware {m : Manifest} (h : m.strategy = .bTreeAware) :
    m.buildPageIndex = { m with pageIndex := pageIndexOf m.groupPages } := by
  have hst : (if m.groupPages ≠ [] then GroupingStrategy.bTreeAware else m.strategy) =
      .bTreeAware := by rw [h, ite_self]
  unfold buildPageIndex
  simp only [hst]
  rw [← h]

/-- `build_page_index` writes the strategy and the index. -/
theorem buildPageIndex_eq (m : Manifest) :
    ∃ st idx, m.buildPageIndex = { m with strategy := st, pageIndex := idx } := by
  unfold buildPageIndex
  dsimp only
  split
  · exact ⟨_, _, rfl⟩
  · exact ⟨_, _, rfl⟩

@[simp] theorem pageSize_buildPageIndex (m : Manifest) :
    m.buildPageIndex.pageSize = m.pageSize := by
  obtain ⟨st, idx, h⟩ := m.buildPageIndex_eq
  rw [h]

@[simp] theorem pageCount_buildPageIndex (m : Manifest) :
    m.buildPageIndex.pageCount = m.pageCount := by
  obtain ⟨st, idx, h⟩ := m.buildPageIndex_eq
  rw [h]

/-- New pages change the page count or the layout, never a key. -/
theorem assignNewPagesToGroups_eq (m : Manifest) (unassigned : List Nat) (ppg : Nat) :
    ∃ n gps idx, m.assignNewPagesToGroups unassigned ppg =
      { m with pageCount := n, groupPages := gps, pageIndex := idx } := by
  unfold assignNewPagesToGroups
  split
  · exact ⟨m.pageCount, m.groupPages, m.pageIndex, rfl⟩
  · split
    · dsimp only
      split
      · exact ⟨_, m.groupPages, m.pageIndex, rfl⟩
      · exact ⟨m.pageCount, m.groupPages, m.pageIndex, rfl⟩
    · exact ⟨m.pageCount, _, _, rfl⟩

theorem assignNewPagesToGroups_strategy (m : Manifest) (unassigned : List Nat) (ppg : Nat) :
    (m.assignNewPagesToGroups unassigned ppg).strategy = m.strategy := by
  obtain ⟨n, gps, idx, h⟩ := m.assignNewPagesToGroups_eq unassigned ppg
  rw [h]

theorem assignNewPagesToGroups_groupPages {m : Manifest} (h : m.strategy = .positional)
    (unassigned : List Nat) (ppg : Nat) :
    (m.assignNewPagesToGroups unassigned ppg).groupPages = m.groupPages := by
  unfold assignNewPagesToGroups
  split
  · rfl
  · rw [h]
    dsimp only
    split <;> rfl

theorem setLenFrom_eq (m : Manifest) (old ppg n : Nat) : ∃ n' gps idx,
    m.setLenFrom old ppg n = { m with pageCount := n', groupPages := gps, pageIndex := idx } := by
  unfold setLenFrom
  split
  · exact ⟨_, m.groupPages, m.pageIndex, rfl⟩
  · rename_i hst
    split
    · exact ⟨_, _, _, buildPageIndex_eq_of_bTreeAware hst⟩
    · split
      · obtain ⟨n', gps, idx, h⟩ := assignNewPagesToGroups_eq { m with pageCount := n }
          (List.range' old (n - old)) ppg
        exact ⟨n', gps, idx, h⟩
      · exact ⟨_, m.groupPages, m.pageIndex, rfl⟩

theorem setLen_eq (m : Manifest) (n : Nat) :
    ∃ n' gps idx, m.setLen n = { m with pageCount := n', groupPages := gps, pageIndex := idx } :=
  m.setLenFrom_eq m.pageCount m.pagesPerGroup n

/-- `set_replay_page_count` moves groups and their objects, and touches nothing else. -/
theorem setReplayPageCount_eq (m : Manifest) (old n : Nat) : ∃ gps keys fts ovs st idx,
    m.setReplayPageCount old n =
      { m with
        pageCount := n
        groupPages := gps
        pageGroupKeys := keys
        frameTables := fts
        subframeOverrides := ovs
        strategy := st
        pageIndex := idx } := by
  unfold setReplayPageCount
  split
  · exact ⟨_, _, _, _, _, _, rfl⟩
  · split
    · obtain ⟨st, idx, h⟩ := buildPageIndex_eq _
      exact ⟨_, _, _, _, st, idx, h⟩
    · split
      · obtain ⟨st, idx, h⟩ := buildPageIndex_eq _
        exact ⟨_, _, _, _, st, idx, h⟩
      · obtain ⟨st, idx, h⟩ := buildPageIndex_eq _
        exact ⟨_, _, _, _, st, idx, h⟩

theorem pageCount_setLen (m : Manifest) (n : Nat) : (m.setLen n).pageCount = n := by
  unfold setLen setLenFrom
  split
  · rfl
  · rename_i hst
    split
    · exact pageCount_buildPageIndex _
    · split
      · rw [assignNewPagesToGroups]
        simp only [hst]
        split <;> rfl
      · rfl

/-! ### Groups stay duplicate-free -/

theorem mem_appendToLast {groups : List (List Nat)} {pages g : List Nat}
    (h : g ∈ appendToLast groups pages) : g ∈ groups ∨ ∃ last ∈ groups, g = last ++ pages := by
  obtain ⟨j, hj⟩ := List.mem_iff_getElem?.mp h
  rw [appendToLast, List.getElem?_modify] at hj
  cases hg : groups[j]? with
  | none => rw [hg] at hj; cases hj
  | some last =>
    rw [hg] at hj
    simp only [Option.map_eq_map, Option.map_some] at hj
    split at hj
    · right
      exact ⟨last, List.mem_of_getElem? hg, (Option.some.inj hj).symm⟩
    · left
      cases hj
      exact List.mem_of_getElem? hg

theorem nodup_appendPages {groups : List (List Nat)} {room ppg : Nat} {pages : List Nat}
    (hg : ∀ g ∈ groups, g.Nodup) (hp : pages.Nodup)
    (hdisj : ∀ g ∈ groups, ∀ p ∈ g, p ∉ pages) :
    ∀ g ∈ appendPages groups room ppg pages, g.Nodup := by
  intro g hmem
  rcases List.mem_append.mp hmem with hmem | hmem
  · rcases mem_appendToLast hmem with hmem | ⟨last, hlast, rfl⟩
    · exact hg g hmem
    · refine List.Nodup.append (hg last hlast) (hp.sublist (List.take_sublist ..)) ?_
      exact fun p hpl hpt => hdisj last hlast p hpl (List.mem_of_mem_take hpt)
  · obtain ⟨i, -, rfl⟩ := List.mem_map.mp hmem
    exact hp.sublist ((List.take_sublist ..).trans ((List.drop_sublist ..).trans
      (List.drop_sublist ..)))

/-- New pages are in no group yet, so every group still lists a page once. -/
theorem nodup_assignNewPagesToGroups {m : Manifest} {unassigned : List Nat} {ppg : Nat}
    (hg : ∀ g ∈ m.groupPages, g.Nodup) (hu : unassigned.Nodup)
    (hdisj : m.strategy = .bTreeAware → ∀ g ∈ m.groupPages, ∀ p ∈ g, p ∉ unassigned) :
    ∀ g ∈ (m.assignNewPagesToGroups unassigned ppg).groupPages, g.Nodup := by
  unfold assignNewPagesToGroups
  split
  · exact hg
  · split
    · dsimp only
      split
      · exact hg
      · exact hg
    · rename_i hst
      have hperm := List.perm_insertionSort (· ≤ ·) unassigned
      refine nodup_appendPages hg (hperm.nodup_iff.mpr hu) fun g hmem p hp hsort => ?_
      exact hdisj hst g hmem p hp (hperm.mem_iff.mp hsort)

end Manifest

/-! ### Regrouping after a VACUUM -/

/-- One B-tree found by the walk. -/
structure BTreeEntry where
  name : String
  objType : String
  pages : List Nat

/-- What `walk_all_btrees` finds: the trees by root page, and the pages no tree owns. -/
structure Walk where
  btrees : List (Nat × BTreeEntry)
  unowned : List Nat

/-- Pack the walked trees: a tree of at least a quarter of a group gets groups of its own, the
pages of the small trees and the unowned pages share groups. -/
def Walk.groups (w : Walk) (ppg : Nat) : List (List Nat) :=
  let trees := (w.btrees.map (·.2)).insertionSort fun a b => b.pages.length ≤ a.pages.length
  let sortedPages (t : BTreeEntry) := t.pages.insertionSort (· ≤ ·)
  let large (t : BTreeEntry) : Bool := decide (max (ppg / 4) 1 ≤ t.pages.length)
  let small := (trees.filter (fun t => !large t)).flatMap sortedPages ++
    w.unowned.insertionSort (· ≤ ·)
  (trees.filter large).flatMap (fun t => blocks ppg (sortedPages t)) ++ blocks ppg small

/-- The manifest entries of the walked trees over new groups. -/
def Walk.manifestEntries (w : Walk) (groups : List (List Nat)) : HMap Nat BTreeManifestEntry :=
  let pageToGid (p : Nat) : Option Nat := ((Manifest.pageIndexOf groups).lookup p).map (·.groupId)
  w.btrees.foldl (fun acc t =>
    acc.insert t.1 ⟨t.2.name, t.2.objType,
      (t.2.pages.filterMap pageToGid).dedup.insertionSort (· ≤ ·), t.2.pages⟩) ∅

/-- The manifest after a VACUUM was detected: groups from the walk, and no object of any kind. -/
def Manifest.rewalk (m : Manifest) (livePageCount : Nat) (w : Walk) (ppg : Nat) : Manifest :=
  let groups := w.groups ppg
  ({ m with
    pageCount := livePageCount
    groupPages := groups
    btrees := w.manifestEntries groups
    pageGroupKeys := []
    interiorChunkKeys := ∅
    indexChunkKeys := ∅
    frameTables := []
    subframeOverrides := [] } : Manifest).buildPageIndex

theorem Manifest.rewalk_eq (m : Manifest) (n : Nat) (w : Walk) (ppg : Nat) :
    ∃ st idx, m.rewalk n w ppg = { m with
      pageCount := n
      groupPages := w.groups ppg
      btrees := w.manifestEntries (w.groups ppg)
      pageGroupKeys := []
      interiorChunkKeys := ∅
      indexChunkKeys := ∅
      frameTables := []
      subframeOverrides := []
      strategy := st
      pageIndex := idx } :=
  buildPageIndex_eq _

end Turbolite
