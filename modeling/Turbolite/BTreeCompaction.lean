import Turbolite.Bundles
import Turbolite.Grouping
import Turbolite.OverrideCompaction

/-!
# Turbolite.BTreeCompaction

`TurboliteSharedState::compact`: walk the B-trees of the cached database, find the trees whose groups
hold too many pages that are not theirs, and pack the live pages of each such tree into its groups
again, `pages_per_group` at a time. A page that no tree reaches is not packed and has no place in the
new layout. The pages come from the cache file, whether the cache has them or not.

`compact_preserves_pages` says which pages read the same bytes afterwards.
-/

namespace Turbolite

open Blocks Results ReadPaths

namespace BTreeCompaction

/-- What a compaction works on. `exceeds dead total` is the floating-point comparison of the ratio
with the threshold. The B-tree walker is the one of the repository. -/
structure CompactInput where
  cfg : CodecConfig
  manifest : Manifest
  backend : Backend
  cache : DiskCache manifest.pageSize
  gcEnabled : Bool
  walkAllBtrees : Nat → Nat → (Nat → Option Bytes) → Walk
  exceeds : Nat → Nat → Bool

/-! ### Dead space -/

/-- `read_live_page_count`. -/
def readLivePageCount (readPage : Nat → Option Bytes) (fallback : Nat) : Nat :=
  match readPage 0 with
  | some page0 => if 32 ≤ page0.length then beU32At page0 28 else fallback
  | none => fallback

/-- `BTreeDeadSpace`. -/
structure BTreeDeadSpace where
  name : String
  rootPage : Nat
  livePages : Nat
  deadPages : Nat
  totalPagesInGroups : Nat
  affectedGroups : List Nat

/-- `DeadSpaceReport`. -/
structure DeadSpaceReport where
  btrees : List BTreeDeadSpace
  totalLive : Nat
  totalDead : Nat
  candidates : List String

/-- One tree of the report: every page of its groups that the walk does not list is dead. -/
def deadSpace (m : Manifest) (root : Nat) (walked : BTreeEntry) (entry : BTreeManifestEntry) :
    BTreeDeadSpace :=
  let inGroups := entry.groupIds.flatMap m.groupPageNums
  { name := entry.name
    rootPage := root
    livePages := walked.pages.dedup.length
    deadPages := (inGroups.filter (· ∉ walked.pages)).length
    totalPagesInGroups := inGroups.length
    affectedGroups := entry.groupIds.filter fun gid =>
      ((m.groupPageNums gid).filter (· ∉ walked.pages)) ≠ [] }

variable (i : CompactInput)

/-- The trees as the cache file has them. -/
def walk (m : Manifest) : Walk :=
  i.walkAllBtrees (readLivePageCount i.cache.file m.pageCount) i.manifest.pageSize i.cache.file

/-- `analyze_dead_space`. -/
def analyzeDeadSpace : DeadSpaceReport :=
  let btrees := (walk i i.manifest).btrees.filterMap fun t =>
    (i.manifest.btrees.lookup t.1).map (deadSpace i.manifest t.1 t.2)
  { btrees := btrees
    totalLive := (btrees.map (·.livePages)).sum
    totalDead := (btrees.map (·.deadPages)).sum
    candidates := (btrees.filter fun t =>
      i.exceeds t.deadPages t.totalPagesInGroups).map (·.name) }

/-! ### One tree -/

/-- `CompactResult`. -/
structure CompactResult where
  btreeName : String
  oldGroupIds : List Nat
  newGroups : List (List Nat)
  pagesBefore : Nat
  pagesAfter : Nat

/-- The pages of a tree's groups that the walk of the tree lists, in order. -/
def sortedLive (m : Manifest) (walked : BTreeEntry) (entry : BTreeManifestEntry) : List Nat :=
  ((entry.groupIds.flatMap m.groupPageNums).filter (· ∈ walked.pages)).dedup.insertionSort (· ≤ ·)

/-- `compact_btree`; chunks of no pages are a panic. -/
def compactBtree (m : Manifest) (root : Nat) : IoResult CompactResult :=
  match (walk i m).btrees.lookup root with
  | none => .error (.io .notFound s!"B-tree root {root} not found")
  | some walked =>
    match m.btrees.lookup root with
    | none => .error (.io .notFound s!"B-tree root {root} not in manifest")
    | some entry =>
      if i.manifest.pagesPerGroup = 0 then .error .panic
      else .ok {
        btreeName := entry.name
        oldGroupIds := entry.groupIds
        newGroups := blocks i.manifest.pagesPerGroup (sortedLive m walked entry)
        pagesBefore := (entry.groupIds.map fun gid => (m.groupPageNums gid).length).sum
        pagesAfter := (sortedLive m walked entry).length }

/-- `next_version`. -/
def nextVersion : Nat := i.manifest.version + 1

/-- The loop over the new groups of a tree. -/
structure Repack where
  manifest : Manifest
  newGroupIds : List Nat := []
  uploads : List (ObjectKey × Bytes) := []
  frameTablesPatch : List (Nat × List FrameEntry) := []
  replacedKeys : List ObjectKey

/-- The id of the next new group: an old one while there is one, then one past the groups, further
by one for every group added before. -/
def nextGroupId (oldGroupIds : List Nat) (s : Repack) : Nat :=
  match oldGroupIds[s.newGroupIds.length]? with
  | some gid => gid
  | none => s.manifest.groupPages.length + s.newGroupIds.length - oldGroupIds.length

/-- The object of a new group, encoded without the dictionary. A page that cannot be read is left
out. -/
def encodeGroup (m : Manifest) (gid : Nat) (newPages : List Nat) : Rewrite :=
  encodeRewrite { i.cfg with dictionary := none } m gid (newPages.map i.cache.file)

/-- One new group: its object is uploaded and its pages are listed under the next group id. -/
def repackGroup (oldGroupIds : List Nat) (s : Repack) (newPages : List Nat) : Repack :=
  let gid := nextGroupId oldGroupIds s
  let r := encodeGroup i s.manifest gid newPages
  let key := ObjectKey.pageGroup gid (nextVersion i)
  { manifest := { s.manifest with
      pageGroupKeys := growSet none s.manifest.pageGroupKeys gid (some key)
      groupPages := growSet [] s.manifest.groupPages gid newPages }
    newGroupIds := s.newGroupIds ++ [gid]
    uploads := s.uploads ++ [(key, r.encoded)]
    frameTablesPatch := s.frameTablesPatch ++ (r.frameTable.map fun ft => (gid, ft)).toList
    replacedKeys := s.replacedKeys ++ (s.manifest.groupKey gid).toList }

/-- An old group that got no new pages loses its key and its list. -/
def dropGroup (s : Repack) (oldGid : Nat) : Repack :=
  if oldGid ∈ s.newGroupIds then s
  else { s with
    manifest := { s.manifest with
      pageGroupKeys := s.manifest.pageGroupKeys.set oldGid none
      groupPages := s.manifest.groupPages.set oldGid [] }
    replacedKeys := s.replacedKeys ++ (s.manifest.groupKey oldGid).toList }

/-- What the trees compacted so far have come to. -/
structure CompactState where
  manifest : Manifest
  backend : Backend
  replacedKeys : List ObjectKey := []
  compacted : Nat := 0
  totalFreed : Nat := 0

/-- The new groups of a tree in place of the old. -/
def applyCompact (st : CompactState) (root : Nat) (r : CompactResult) : CompactState :=
  let s := r.oldGroupIds.foldl dropGroup (r.newGroups.foldl (repackGroup i r.oldGroupIds)
    { manifest := st.manifest, replacedKeys := st.replacedKeys })
  { manifest := { s.manifest with
      btrees := match s.manifest.btrees.lookup root with
        | some entry => s.manifest.btrees.insert root { entry with groupIds := s.newGroupIds }
        | none => s.manifest.btrees
      frameTables := growSets [] s.manifest.frameTables s.frameTablesPatch }
    backend := st.backend.putPageGroups s.uploads
    replacedKeys := s.replacedKeys
    compacted := st.compacted + 1
    totalFreed := st.totalFreed + (r.pagesBefore - r.pagesAfter) }

/-- One tree of the loop; a tree that is not found is left as it is. -/
def compactTree (st : CompactState) (t : BTreeDeadSpace) : IoResult CompactState :=
  match compactBtree i st.manifest t.rootPage with
  | .ok r => .ok (applyCompact i st t.rootPage r)
  | .error .panic => .error .panic
  | .error _ => .ok st

/-! ### The whole compaction -/

/-- The shared manifest and the backend afterwards, and the numbers of the report. -/
structure CompactOutput where
  manifest : Manifest
  backend : Backend
  compacted : Nat
  pagesFreed : Nat
  replacedKeys : Nat
  totalDead : Nat
  totalLive : Nat

/-- The trees that are compacted: those that have the name of a candidate. -/
def compactedTrees : List BTreeDeadSpace :=
  (analyzeDeadSpace i).btrees.filter (·.name ∈ (analyzeDeadSpace i).candidates)

/-- `compact`. -/
def compact : IoResult CompactOutput :=
  let report := analyzeDeadSpace i
  if report.candidates = [] then
    .ok ⟨i.manifest, i.backend, 0, 0, 0, report.totalDead, report.totalLive⟩
  else do
    let changeCounter ← resolveManifestReplayCursor i.cache i.manifest
    let st ← (compactedTrees i).foldlM (compactTree i) ⟨i.manifest, i.backend, [], 0, 0⟩
    let manifest := ({ st.manifest with
      version := nextVersion i
      changeCounter := changeCounter } : Manifest).buildPageIndex
    let backend ← st.backend.putManifest manifest
    .ok {
      manifest := manifest
      backend := if i.gcEnabled then backend.deleteObjects st.replacedKeys else backend
      compacted := st.compacted
      pagesFreed := st.totalFreed
      replacedKeys := st.replacedKeys.length
      totalDead := report.totalDead
      totalLive := report.totalLive }

variable {i}

/-! ### The loops of one tree -/

/-- What the loop over the new groups has done after `ys`. -/
structure Repacked (i : CompactInput) (old : List Nat) (m : Manifest) (ys : List (List Nat))
    (s : Repack) : Prop where
  length : s.newGroupIds.length = ys.length
  manifest : s.manifest = { m with
    pageGroupKeys := growSets none m.pageGroupKeys
      (s.newGroupIds.map fun g => (g, some (.pageGroup g (nextVersion i))))
    groupPages := growSets [] m.groupPages (s.newGroupIds.zip ys) }
  uploads : s.uploads = (s.newGroupIds.zip ys).map fun x =>
    (.pageGroup x.1 (nextVersion i), (encodeGroup i m x.1 x.2).encoded)
  patch : s.frameTablesPatch = (s.newGroupIds.zip ys).filterMap fun x =>
    (encodeGroup i m x.1 x.2).frameTable.map fun ft => (x.1, ft)
  grown : m.groupPages.length ≤ s.manifest.groupPages.length
  ids : ∀ k g, s.newGroupIds[k]? = some g →
    (old[k]? = some g ∨ old.length ≤ k ∧ m.groupPages.length ≤ g) ∧
      g < s.manifest.groupPages.length
  nodup : old.Nodup → (∀ g ∈ old, g < m.groupPages.length) → s.newGroupIds.Nodup

theorem encodeGroup_congr {m m' : Manifest} (hspf : m'.subPagesPerFrame = m.subPagesPerFrame)
    (hps : m'.pageSize = m.pageSize) (gid : Nat) (pages : List Nat) :
    encodeGroup i m' gid pages = encodeGroup i m gid pages := by
  simp only [encodeGroup, encodeRewrite, hspf, hps]

theorem repackGroup_repacked {old : List Nat} {m : Manifest} {ys : List (List Nat)} {s : Repack}
    (h : Repacked i old m ys s) (y : List Nat) :
    Repacked i old m (ys ++ [y]) (repackGroup i old s y) := by
  have hzip : (s.newGroupIds ++ [nextGroupId old s]).zip (ys ++ [y]) =
      s.newGroupIds.zip ys ++ [(nextGroupId old s, y)] := List.zip_append h.length
  -- encoding looks at no group, so the groups written before do not matter
  have henc : encodeGroup i s.manifest (nextGroupId old s) y =
      encodeGroup i m (nextGroupId old s) y := by
    refine encodeGroup_congr ?_ ?_ _ _ <;> rw [h.manifest]
  have hgrow : (repackGroup i old s y).manifest.groupPages.length =
      max s.manifest.groupPages.length (nextGroupId old s + 1) := length_growSet ..
  refine ⟨?_, ?_, ?_, ?_, ?_, ?_, ?_⟩
  · simp [repackGroup, h.length]
  · simp only [repackGroup, hzip, List.map_append, growSets, List.foldl_append, List.map_singleton,
      List.foldl_cons, List.foldl_nil]
    rw [h.manifest]
    rfl
  · simp only [repackGroup, hzip, List.map_append, List.map_singleton, h.uploads, henc]
  · simp only [repackGroup, hzip, List.filterMap_append, h.patch, henc]
    cases hft : (encodeGroup i m (nextGroupId old s) y).frameTable <;> simp [hft]
  · rw [hgrow]
    exact h.grown.trans (le_max_left ..)
  · intro k g hg
    rw [hgrow]
    change (s.newGroupIds ++ [nextGroupId old s])[k]? = some g at hg
    -- an id given before, or the new one
    rcases Nat.lt_or_ge k s.newGroupIds.length with hk | hk
    · rw [List.getElem?_append_left hk] at hg
      obtain ⟨hid, hlt⟩ := h.ids k g hg
      exact ⟨hid, lt_of_lt_of_le hlt (le_max_left ..)⟩
    · rw [List.getElem?_append_right hk] at hg
      obtain ⟨rfl, rfl⟩ : k = s.newGroupIds.length ∧ g = nextGroupId old s := by
        rcases Nat.eq_zero_or_pos (k - s.newGroupIds.length) with h0 | h0
        · rw [h0] at hg
          exact ⟨by omega, (Option.some.inj hg).symm⟩
        · rw [List.getElem?_eq_none (by rw [List.length_singleton]; exact h0)] at hg
          cases hg
      refine ⟨?_, lt_of_lt_of_le (Nat.lt_succ_self _) (le_max_right ..)⟩
      unfold nextGroupId
      cases hold : old[s.newGroupIds.length]? with
      | some gid => exact .inl rfl
      | none =>
        have hle := List.getElem?_eq_none_iff.mp hold
        have := h.grown
        exact .inr ⟨hle, by dsimp only; omega⟩
  · intro hnd hlt
    refine List.nodup_append.mpr ⟨h.nodup hnd hlt, List.nodup_singleton _, fun g hg g' hg' he => ?_⟩
    obtain rfl := List.mem_singleton.mp hg'
    subst he
    obtain ⟨k, hk⟩ := List.mem_iff_getElem?.mp hg
    obtain ⟨hid, hbound⟩ := h.ids k _ hk
    have hklt := (List.getElem?_eq_some_iff.mp hk).1
    unfold nextGroupId at hid hbound
    cases hold : old[s.newGroupIds.length]? with
    | some gid =>
      rw [hold] at hid
      have hlen := (List.getElem?_eq_some_iff.mp hold).1
      rcases hid with hid | ⟨hle, -⟩
      · -- the same old id at two places
        exact absurd ((List.nodup_iff_getElem?_ne_getElem?.mp hnd) k _ hklt hlen)
          (fun hne => hne (hid.trans hold.symm))
      · omega
    | none =>
      rw [hold] at hbound
      have hle := List.getElem?_eq_none_iff.mp hold
      dsimp only at hbound
      omega

theorem repack_repacked (old : List Nat) (m : Manifest) (replaced : List ObjectKey)
    (ys : List (List Nat)) :
    Repacked i old m ys (ys.foldl (repackGroup i old) { manifest := m, replacedKeys := replaced }) := by
  induction ys using List.reverseRecOn with
  | nil =>
    exact ⟨rfl, rfl, rfl, rfl, Nat.le_refl _, fun k g hg => (by cases hg), fun _ _ => List.nodup_nil⟩
  | append_singleton ys y ih =>
    rw [List.foldl_append]
    exact repackGroup_repacked ih y

theorem Repacked.groupKey {old : List Nat} {m : Manifest} {ys : List (List Nat)} {s : Repack}
    (h : Repacked i old m ys s) (g : Nat) : s.manifest.groupKey g =
      if g ∈ s.newGroupIds then some (.pageGroup g (nextVersion i)) else m.groupKey g := by
  rw [h.manifest]
  exact getD_growSets_map none _ _ _ _

/-- A key that the loop replaced: one the manifest had, or one of the loop itself when an id comes
twice. -/
theorem replaced_repack (old : List Nat) (m : Manifest) (replaced : List ObjectKey)
    (ys : List (List Nat)) : ∀ s, ys.foldl (repackGroup i old)
      { manifest := m, replacedKeys := replaced } = s → ∀ k ∈ s.replacedKeys,
    k ∈ replaced ∨ ∃ g ∈ s.newGroupIds, m.groupKey g = some k ∨
      k = .pageGroup g (nextVersion i) ∧ ¬ s.newGroupIds.Nodup := by
  induction ys using List.reverseRecOn with
  | nil =>
    rintro s rfl k hk
    exact .inl hk
  | append_singleton ys y ih =>
    rintro _ rfl k hk
    have hrep := repack_repacked (i := i) old m replaced ys
    rw [List.foldl_append, List.foldl_cons, List.foldl_nil] at hk ⊢
    generalize ys.foldl (repackGroup i old) _ = s at hk ih hrep ⊢
    rcases List.mem_append.mp hk with hk | hk
    · rcases ih s rfl k hk with hk | ⟨g, hg, hk | ⟨hk, hnd⟩⟩
      · exact .inl hk
      · exact .inr ⟨g, List.mem_append_left _ hg, .inl hk⟩
      · exact .inr ⟨g, List.mem_append_left _ hg, .inr ⟨hk, fun h => hnd h.of_append_left⟩⟩
    · have hmem : nextGroupId old s ∈ (repackGroup i old s y).newGroupIds :=
        List.mem_append_right _ List.mem_cons_self
      rw [Option.mem_toList, hrep.groupKey] at hk
      split at hk
      · rename_i hg
        refine .inr ⟨_, hmem, .inr ⟨(Option.some.inj hk).symm, fun hnd => ?_⟩⟩
        exact (List.nodup_append.mp hnd).2.2 _ hg _ List.mem_cons_self rfl
      · exact .inr ⟨_, hmem, .inl hk⟩

/-- What the loop over the old groups leaves of `s`. -/
structure Dropped (s : Repack) (os : List Nat) (s' : Repack) : Prop where
  newGroupIds : s'.newGroupIds = s.newGroupIds
  uploads : s'.uploads = s.uploads
  patch : s'.frameTablesPatch = s.frameTablesPatch
  rest : s'.manifest = { s.manifest with
    pageGroupKeys := s'.manifest.pageGroupKeys
    groupPages := s'.manifest.groupPages }
  length : s'.manifest.groupPages.length = s.manifest.groupPages.length
  groupKey : ∀ g, s'.manifest.groupKey g =
    if g ∈ os ∧ g ∉ s.newGroupIds then none else s.manifest.groupKey g
  pages : ∀ g, s'.manifest.groupPages.getD g [] =
    if g ∈ os ∧ g ∉ s.newGroupIds then [] else s.manifest.groupPages.getD g []
  replaced : ∀ k ∈ s'.replacedKeys, k ∈ s.replacedKeys ∨
    ∃ g ∈ os, g ∉ s.newGroupIds ∧ s.manifest.groupKey g = some k

theorem dropGroups_dropped (s : Repack) (os : List Nat) : Dropped s os (os.foldl dropGroup s) := by
  induction os using List.reverseRecOn with
  | nil => exact ⟨rfl, rfl, rfl, rfl, rfl, fun g => by simp, fun g => by simp, fun k hk => .inl hk⟩
  | append_singleton os o ih =>
    rw [List.foldl_append, List.foldl_cons, List.foldl_nil]
    generalize os.foldl dropGroup s = s' at ih
    unfold dropGroup
    have hiff : ∀ {g : Nat}, g ≠ o ∨ o ∈ s.newGroupIds →
        (g ∈ os ++ [o] ∧ g ∉ s.newGroupIds ↔ g ∈ os ∧ g ∉ s.newGroupIds) := by
      intro g hg
      rw [List.mem_append, List.mem_singleton]
      constructor
      · rintro ⟨hmem | rfl, hn⟩
        · exact ⟨hmem, hn⟩
        · exact (hg.elim (fun h => h rfl) hn).elim
      · exact fun h => ⟨.inl h.1, h.2⟩
    split
    · rename_i ho
      rw [ih.newGroupIds] at ho
      refine ⟨ih.newGroupIds, ih.uploads, ih.patch, ih.rest, ih.length, fun g => ?_, fun g => ?_,
        fun k hk => ?_⟩
      · rw [ih.groupKey, if_congr (hiff (.inr ho)) rfl rfl]
      · rw [ih.pages, if_congr (hiff (.inr ho)) rfl rfl]
      · rcases ih.replaced k hk with hk | ⟨g, hg, hk⟩
        · exact .inl hk
        · exact .inr ⟨g, List.mem_append_left _ hg, hk⟩
    · rename_i ho
      rw [ih.newGroupIds] at ho
      have hself : o ∈ os ++ [o] ∧ o ∉ s.newGroupIds :=
        ⟨List.mem_append_right _ List.mem_cons_self, ho⟩
      refine ⟨ih.newGroupIds, ih.uploads, ih.patch, ?_, ?_, fun g => ?_, fun g => ?_, fun k hk => ?_⟩
      · dsimp only
        rw [ih.rest]
      · dsimp only
        rw [List.length_set, ih.length]
      · change (s'.manifest.pageGroupKeys.set o none).getD g none = _
        rw [getD_set]
        by_cases hg : g = o
        · subst hg
          rw [if_pos hself, if_pos rfl]
          split <;> rfl
        · rw [if_neg (Ne.symm hg), if_congr (hiff (.inl hg)) rfl rfl, ← ih.groupKey]
          rfl
      · dsimp only
        rw [getD_set]
        by_cases hg : g = o
        · subst hg
          rw [if_pos hself, if_pos rfl]
          split <;> rfl
        · rw [if_neg (Ne.symm hg), if_congr (hiff (.inl hg)) rfl rfl, ← ih.pages]
      · rcases List.mem_append.mp hk with hk | hk
        · rcases ih.replaced k hk with hk | ⟨g, hg, hk⟩
          · exact .inl hk
          · exact .inr ⟨g, List.mem_append_left _ hg, hk⟩
        · rw [Option.mem_toList, ih.groupKey] at hk
          split at hk
          · cases hk
          · exact .inr ⟨o, hself.1, ho, hk⟩

/-! ### One tree -/

/-- What compacting a tree has done: `ids` are the groups the new lists went to. -/
structure Applied (i : CompactInput) (st : CompactState) (root : Nat) (old : List Nat)
    (ys : List (List Nat)) (ids : List Nat) (st' : CompactState) : Prop where
  length : ids.length = ys.length
  allocated : ∀ k g, ids[k]? = some g →
    (old[k]? = some g ∨ old.length ≤ k ∧ st.manifest.groupPages.length ≤ g) ∧
      g < st'.manifest.groupPages.length
  nodup : old.Nodup → (∀ g ∈ old, g < st.manifest.groupPages.length) → ids.Nodup
  grown : st.manifest.groupPages.length ≤ st'.manifest.groupPages.length
  rest : st'.manifest = { st.manifest with
    pageGroupKeys := st'.manifest.pageGroupKeys
    groupPages := st'.manifest.groupPages
    frameTables := st'.manifest.frameTables
    btrees := st'.manifest.btrees }
  btrees : ∀ r, r ≠ root → st'.manifest.btrees.lookup r = st.manifest.btrees.lookup r
  groupKey : ∀ g, st'.manifest.groupKey g = if g ∈ ids then some (.pageGroup g (nextVersion i))
    else if g ∈ old then none else st.manifest.groupKey g
  pages : ∀ g, g ∉ ids → st'.manifest.groupPages.getD g [] =
    if g ∈ old then [] else st.manifest.groupPages.getD g []
  pages_new : ∀ g, g ∈ ids → (g, st'.manifest.groupPages.getD g []) ∈ ids.zip ys
  frameTable : ∀ g, g ∉ ids → st'.manifest.frameTable g = st.manifest.frameTable g
  frameTable_new : ids.Nodup → ∀ x ∈ ids.zip ys, ∀ ft,
    (encodeGroup i st.manifest x.1 x.2).frameTable = some ft → st'.manifest.frameTable x.1 = ft
  objects : ∀ k, (∀ g ∈ ids, k ≠ .pageGroup g (nextVersion i)) →
    st'.backend.objects k = st.backend.objects k
  objects_new : ids.Nodup → ∀ x ∈ ids.zip ys, st'.backend.objects (.pageGroup x.1 (nextVersion i)) =
    some (encodeGroup i st.manifest x.1 x.2).encoded
  replaced : ∀ k ∈ st'.replacedKeys, k ∈ st.replacedKeys ∨
    (∃ g, (g ∈ ids ∨ g ∈ old) ∧ st.manifest.groupKey g = some k) ∨
    ∃ g ∈ ids, k = .pageGroup g (nextVersion i) ∧ ¬ ids.Nodup

theorem eq_of_mem_zip {ids : List Nat} {ys : List (List Nat)} (hnd : ids.Nodup)
    (hlen : ids.length = ys.length) {g : Nat} {y y' : List Nat} (h : (g, y) ∈ ids.zip ys)
    (h' : (g, y') ∈ ids.zip ys) : y = y' := by
  have hfst : ((ids.zip ys).map (·.1)).Nodup := by
    rw [List.map_fst_zip (by omega)]
    exact hnd
  exact congrArg Prod.snd (List.inj_on_of_nodup_map hfst h h' rfl)

theorem applyCompact_applied (st : CompactState) (root : Nat) (r : CompactResult) :
    ∃ ids, Applied i st root r.oldGroupIds r.newGroups ids (applyCompact i st root r) := by
  have hrep := repack_repacked (i := i) r.oldGroupIds st.manifest st.replacedKeys r.newGroups
  have hkeys := replaced_repack (i := i) r.oldGroupIds st.manifest st.replacedKeys r.newGroups _ rfl
  unfold applyCompact
  dsimp only
  -- the new groups are written first, the old ids left over are dropped afterwards
  generalize r.newGroups.foldl (repackGroup i r.oldGroupIds) _ = s at hrep hkeys ⊢
  have hdrop := dropGroups_dropped s r.oldGroupIds
  generalize r.oldGroupIds.foldl dropGroup s = s' at hdrop ⊢
  have hfst : (s.newGroupIds.zip r.newGroups).map (·.1) = s.newGroupIds :=
    List.map_fst_zip (by rw [hrep.length])
  have hpages : s.manifest.groupPages =
      growSets [] st.manifest.groupPages (s.newGroupIds.zip r.newGroups) := by rw [hrep.manifest]
  have hft : s'.manifest.frameTables = st.manifest.frameTables := by rw [hdrop.rest, hrep.manifest]
  -- every patched frame table is that of one of the new groups
  have hpatch : ∀ g ft, (g, ft) ∈ s'.frameTablesPatch → ∃ y, (g, y) ∈ s.newGroupIds.zip r.newGroups ∧
      (encodeGroup i st.manifest g y).frameTable = some ft := by
    intro g ft hmem
    rw [hdrop.patch, hrep.patch] at hmem
    obtain ⟨⟨g', y⟩, hx, hmap⟩ := List.mem_filterMap.mp hmem
    obtain ⟨ft', hft', he⟩ := Option.map_eq_some_iff.mp hmap
    cases he
    exact ⟨y, hx, hft'⟩
  refine ⟨s.newGroupIds, hrep.length, ?_, hrep.nodup, ?_, ?_, ?_, ?_, ?_, ?_, ?_, ?_, ?_, ?_, ?_⟩
  · dsimp only
    rw [hdrop.length]
    exact hrep.ids
  · dsimp only
    rw [hdrop.length]
    exact hrep.grown
  · dsimp only
    rw [hdrop.rest, hrep.manifest]
  · intro r' hr'
    have hbt : s'.manifest.btrees = st.manifest.btrees := by rw [hdrop.rest, hrep.manifest]
    dsimp only
    rw [hbt]
    split
    · exact AList.lookup_insert_ne hr'
    · rfl
  · intro g
    refine (hdrop.groupKey g).trans ?_
    rw [hrep.groupKey]
    by_cases hg : g ∈ s.newGroupIds <;> simp [hg]
  · -- an old group, dropped or not touched
    intro g hg
    refine (hdrop.pages g).trans ?_
    have hkept : s.manifest.groupPages.getD g [] = st.manifest.groupPages.getD g [] := by
      rw [hpages, getD_growSets_of_notMem [] (by rw [hfst]; exact hg)]
    rw [hkept]
    simp [hg]
  · intro g hg
    -- a new group has the pages of the last one written under its id
    have hnew : (g, s.manifest.groupPages.getD g []) ∈ s.newGroupIds.zip r.newGroups := by
      rw [hpages]
      exact getD_growSets_mem [] (hfst.symm ▸ hg)
    have heq : s'.manifest.groupPages.getD g [] = s.manifest.groupPages.getD g [] := by
      rw [hdrop.pages, if_neg fun h => h.2 hg]
    show (g, s'.manifest.groupPages.getD g []) ∈ _
    rw [heq]
    exact hnew
  · intro g hg
    show (growSets [] s'.manifest.frameTables s'.frameTablesPatch).getD g [] = _
    rw [getD_growSets_of_notMem [] fun hmem => ?_, hft]
    · rfl
    · obtain ⟨⟨g', ft⟩, hx, rfl⟩ := List.mem_map.mp hmem
      obtain ⟨y, hy, -⟩ := hpatch g' ft hx
      exact hg (List.of_mem_zip hy).1
  · -- without a repeated id the patch of a new group is its own
    intro hnd x hx ft hxft
    have hmem : (x.1, ft) ∈ s'.frameTablesPatch := by
      rw [hdrop.patch, hrep.patch]
      exact List.mem_filterMap.mpr ⟨x, hx, by rw [hxft]; rfl⟩
    have hset : (x.1, (growSets [] s'.manifest.frameTables s'.frameTablesPatch).getD x.1 []) ∈
        s'.frameTablesPatch := getD_growSets_mem [] (List.mem_map.mpr ⟨_, hmem, rfl⟩)
    obtain ⟨y, hy, hft'⟩ := hpatch _ _ hset
    obtain rfl : x.2 = y := eq_of_mem_zip hnd hrep.length hx hy
    rw [hxft] at hft'
    exact (Option.some.inj hft').symm
  · -- no other object is written
    intro k hk
    refine Backend.putPageGroups_of_notMem fun hmem => ?_
    rw [hdrop.uploads, hrep.uploads] at hmem
    obtain ⟨u, hu, rfl⟩ := List.mem_map.mp hmem
    obtain ⟨x, hx, rfl⟩ := List.mem_map.mp hu
    exact hk x.1 (List.of_mem_zip (show (x.1, x.2) ∈ _ from hx)).1 rfl
  · intro hnd x hx
    rw [hdrop.uploads, hrep.uploads]
    refine Backend.putPageGroups_of_mem (List.mem_map.mpr ⟨x, hx, rfl⟩) fun d hd => ?_
    obtain ⟨x', hx', he⟩ := List.mem_map.mp hd
    obtain ⟨hkey, rfl⟩ := Prod.mk.inj he
    have hgid : x'.1 = x.1 := (ObjectKey.pageGroup.inj hkey).1
    have hy : x'.2 = x.2 := eq_of_mem_zip hnd hrep.length (hgid ▸ hx') hx
    rw [hgid, hy]
  · -- the keys to delete: those of the old groups, and one that was written twice
    intro k hk
    rcases hdrop.replaced k hk with hk | ⟨g, hg, hnew, hk⟩
    · rcases hkeys k hk with hk | ⟨g, hg, hk | hk⟩
      · exact .inl hk
      · exact .inr (.inl ⟨g, .inl hg, hk⟩)
      · exact .inr (.inr ⟨g, hg, hk⟩)
    · rw [hrep.groupKey, if_neg hnew] at hk
      exact .inr (.inl ⟨g, .inr hg, hk⟩)

/-- A tree is compacted, or the loop goes on without it. -/
theorem compactTree_inv {st st' : CompactState} {t : BTreeDeadSpace}
    (h : compactTree i st t = .ok st') :
    (st' = st ∧ ((walk i st.manifest).btrees.lookup t.rootPage = none ∨
      st.manifest.btrees.lookup t.rootPage = none)) ∨
    ∃ walked entry ids, (walk i st.manifest).btrees.lookup t.rootPage = some walked ∧
      st.manifest.btrees.lookup t.rootPage = some entry ∧ 0 < i.manifest.pagesPerGroup ∧
      Applied i st t.rootPage entry.groupIds
        (blocks i.manifest.pagesPerGroup (sortedLive st.manifest walked entry)) ids st' := by
  unfold compactTree compactBtree at h
  cases hw : (walk i st.manifest).btrees.lookup t.rootPage with
  | none =>
    rw [hw] at h
    cases h
    exact .inl ⟨rfl, .inl rfl⟩
  | some walked =>
    cases he : st.manifest.btrees.lookup t.rootPage with
    | none =>
      simp only [hw, he] at h
      cases h
      exact .inl ⟨rfl, .inr rfl⟩
    | some entry =>
      simp only [hw, he] at h
      split at h
      · rename_i r hr
        split at hr
        · cases hr
        · rename_i hppg
          cases hr
          cases h
          obtain ⟨ids, hids⟩ := applyCompact_applied (i := i) st t.rootPage
            { btreeName := entry.name
              oldGroupIds := entry.groupIds
              newGroups := blocks i.manifest.pagesPerGroup (sortedLive st.manifest walked entry)
              pagesBefore := (entry.groupIds.map fun gid => (st.manifest.groupPageNums gid).length).sum
              pagesAfter := (sortedLive st.manifest walked entry).length }
          exact .inr ⟨walked, entry, ids, rfl, rfl, Nat.pos_of_ne_zero hppg, hids⟩
      · cases h
      · rename_i e hne hr
        split at hr
        · cases hr
          exact absurd rfl hne
        · cases hr

theorem mem_sortedLive {m : Manifest} {walked : BTreeEntry} {entry : BTreeManifestEntry} {p : Nat} :
    p ∈ sortedLive m walked entry ↔ (∃ g ∈ entry.groupIds, p ∈ m.groupPageNums g) ∧
      p ∈ walked.pages := by
  rw [sortedLive, List.mem_insertionSort, List.mem_dedup, List.mem_filter, List.mem_flatMap]
  simp

theorem nodup_sortedLive (m : Manifest) (walked : BTreeEntry) (entry : BTreeManifestEntry) :
    (sortedLive m walked entry).Nodup :=
  (List.perm_insertionSort (· ≤ ·) _).nodup_iff.mpr (List.nodup_dedup _)

/-- The pages of the new lists were live pages of the tree's groups. -/
theorem Applied.mem_pages {st st' : CompactState} {root ppg : Nat} {old ids live : List Nat}
    (h : Applied i st root old (blocks ppg live) ids st') {p g : Nat}
    (hp : p ∈ st'.manifest.groupPages.getD g []) :
    (g ∉ old ∧ p ∈ st.manifest.groupPages.getD g []) ∨ (g ∈ ids ∧ p ∈ live) := by
  by_cases hg : g ∈ ids
  · refine .inr ⟨hg, ?_⟩
    obtain ⟨n, -, hn⟩ := List.mem_map.mp (List.of_mem_zip (h.pages_new g hg)).2
    rw [← hn] at hp
    exact List.mem_of_mem_drop (List.mem_of_mem_take hp)
  · rw [h.pages g hg] at hp
    split at hp
    · cases hp
    · rename_i hold
      exact .inl ⟨hold, hp⟩

/-! ### The loop over the trees -/

/-- The groups of `A` are in `st` what they were in `st₁`, with the same objects behind them. -/
structure Steady (i : CompactInput) (A : Set Nat) (st₁ st : CompactState) : Prop where
  rest : st.manifest = { st₁.manifest with
    pageGroupKeys := st.manifest.pageGroupKeys
    groupPages := st.manifest.groupPages
    frameTables := st.manifest.frameTables
    btrees := st.manifest.btrees }
  grown : st₁.manifest.groupPages.length ≤ st.manifest.groupPages.length
  pages : ∀ g ∈ A, st.manifest.groupPages.getD g [] = st₁.manifest.groupPages.getD g []
  groupKey : ∀ g ∈ A, st.manifest.groupKey g = st₁.manifest.groupKey g
  frameTable : ∀ g ∈ A, st.manifest.frameTable g = st₁.manifest.frameTable g
  only : ∀ p, (∀ g, p ∈ st₁.manifest.groupPages.getD g [] → g ∈ A) →
    ∀ g, p ∈ st.manifest.groupPages.getD g [] → g ∈ A
  objects : ∀ k, (∀ g ∉ A, k ≠ .pageGroup g (nextVersion i)) →
    st.backend.objects k = st₁.backend.objects k
  replaced : ∀ k ∈ st.replacedKeys, k ∈ st₁.replacedKeys ∨ ∃ g ∉ A,
    i.manifest.groupKey g = some k ∨
      k = .pageGroup g (nextVersion i) ∧ g < st.manifest.groupPages.length

/-- A group has the key it had at the start, or its key of the new version. -/
def Keyed (i : CompactInput) (st : CompactState) : Prop :=
  ∀ g k, st.manifest.groupKey g = some k → i.manifest.groupKey g = some k ∨
    k = .pageGroup g (nextVersion i) ∧ g < st.manifest.groupPages.length

theorem Steady.refl (i : CompactInput) (A : Set Nat) (st : CompactState) : Steady i A st st :=
  ⟨rfl, Nat.le_refl _, fun _ _ => rfl, fun _ _ => rfl, fun _ _ => rfl, fun _ h => h, fun _ _ => rfl,
    fun _ hk => .inl hk⟩

theorem Applied.keyed {st st' : CompactState} {root : Nat} {old ids : List Nat} {ys : List (List Nat)}
    (h : Applied i st root old ys ids st') (hk : Keyed i st) : Keyed i st' := by
  intro g k hg
  rw [h.groupKey] at hg
  split at hg
  · rename_i hmem
    obtain ⟨n, hn⟩ := List.mem_iff_getElem?.mp hmem
    exact .inr ⟨(Option.some.inj hg).symm, (h.allocated n g hn).2⟩
  · split at hg
    · cases hg
    · rcases hk g k hg with hk | ⟨hk, hlt⟩
      · exact .inl hk
      · exact .inr ⟨hk, lt_of_lt_of_le hlt h.grown⟩

/-- The groups a tree's pages go to are its own, or new. -/
theorem Applied.mem_ids {st st' : CompactState} {root : Nat} {old ids : List Nat}
    {ys : List (List Nat)} (h : Applied i st root old ys ids st') {g : Nat} (hg : g ∈ ids) :
    (g ∈ old ∨ st.manifest.groupPages.length ≤ g) ∧ g < st'.manifest.groupPages.length := by
  obtain ⟨n, hn⟩ := List.mem_iff_getElem?.mp hg
  obtain ⟨hid, hlt⟩ := h.allocated n g hn
  exact ⟨hid.imp List.mem_of_getElem? (·.2), hlt⟩

theorem Steady.applied {A : Set Nat} {st₁ st st' : CompactState} {root ppg : Nat}
    {ids : List Nat} {walked : BTreeEntry} {entry : BTreeManifestEntry} (h : Steady i A st₁ st)
    (hkeyed : Keyed i st) (hst : st.manifest.strategy = .bTreeAware)
    (hA : ∀ g ∈ A, g < st₁.manifest.groupPages.length) (hold : ∀ g ∈ entry.groupIds, g ∉ A)
    (ha : Applied i st root entry.groupIds
      (blocks ppg (sortedLive st.manifest walked entry)) ids st') : Steady i A st₁ st' := by
  have hids : ∀ g ∈ A, g ∉ ids := by
    intro g hg hmem
    rcases (ha.mem_ids hmem).1 with hmem | hle
    · exact hold g hmem hg
    · exact absurd ((hA g hg).trans_le h.grown) (Nat.not_lt.mpr hle)
  have hnold : ∀ g ∈ A, g ∉ entry.groupIds := fun g hg hmem => hold g hmem hg
  refine ⟨?_, h.grown.trans ha.grown, fun g hg => ?_, fun g hg => ?_, fun g hg => ?_,
    fun p hp g hg => ?_, fun k hk => ?_, fun k hk => ?_⟩
  · rw [ha.rest, h.rest]
  · rw [ha.pages g (hids g hg), if_neg (hnold g hg), h.pages g hg]
  · rw [ha.groupKey, if_neg (hids g hg), if_neg (hnold g hg), h.groupKey g hg]
  · rw [ha.frameTable g (hids g hg), h.frameTable g hg]
  · rcases ha.mem_pages hg with ⟨-, hg⟩ | ⟨-, hlive⟩
    · exact h.only p hp g hg
    · -- a page that moves comes from a group of the tree
      obtain ⟨⟨g', hg', hmem⟩, -⟩ := mem_sortedLive.mp hlive
      rw [Manifest.groupPageNums_bTreeAware hst] at hmem
      exact absurd (h.only p hp g' hmem) (hold g' hg')
  · rw [ha.objects k fun g hg => hk g fun hgA => hids g hgA hg, h.objects k hk]
  · have hout : ∀ g, g ∈ ids ∨ g ∈ entry.groupIds → g ∉ A := by
      rintro g (hg | hg) hgA
      · exact hids g hgA hg
      · exact hold g hg hgA
    rcases ha.replaced k hk with hk | ⟨g, hg, hk⟩ | ⟨g, hg, hk, -⟩
    · rcases h.replaced k hk with hk | ⟨g, hg, hk | ⟨hk, hlt⟩⟩
      · exact .inl hk
      · exact .inr ⟨g, hg, .inl hk⟩
      · exact .inr ⟨g, hg, .inr ⟨hk, lt_of_lt_of_le hlt ha.grown⟩⟩
    · rcases hkeyed g k hk with hk | ⟨hk, hlt⟩
      · exact .inr ⟨g, hout g hg, .inl hk⟩
      · exact .inr ⟨g, hout g hg, .inr ⟨hk, lt_of_lt_of_le hlt ha.grown⟩⟩
    · exact .inr ⟨g, hout g (.inl hg), .inr ⟨hk, (ha.mem_ids hg).2⟩⟩

/-- The groups of a tree. -/
def groupIds (i : CompactInput) (root : Nat) : List Nat :=
  ((i.manifest.btrees.lookup root).map (·.groupIds)).getD []

/-- The state before some of the trees. -/
structure Pending (i : CompactInput) (ts : List BTreeDeadSpace) (st : CompactState) : Prop where
  rest : st.manifest = { i.manifest with
    pageGroupKeys := st.manifest.pageGroupKeys
    groupPages := st.manifest.groupPages
    frameTables := st.manifest.frameTables
    btrees := st.manifest.btrees }
  nodup : (ts.map (·.rootPage)).Nodup
  btrees : ∀ t ∈ ts, st.manifest.btrees.lookup t.rootPage = i.manifest.btrees.lookup t.rootPage
  keyed : Keyed i st

theorem Pending.walk_eq {ts : List BTreeDeadSpace} {st : CompactState} (h : Pending i ts st) :
    walk i st.manifest = walk i i.manifest := by
  have hpc : st.manifest.pageCount = i.manifest.pageCount := by rw [h.rest]
  rw [walk, walk, hpc]

theorem Pending.step {t : BTreeDeadSpace} {ts : List BTreeDeadSpace} {st st' : CompactState}
    (h : Pending i (t :: ts) st) (hs : compactTree i st t = .ok st') : Pending i ts st' := by
  obtain ⟨hnot, hnd⟩ := List.nodup_cons.mp (List.map_cons ▸ h.nodup)
  rcases compactTree_inv hs with ⟨rfl, -⟩ | ⟨walked, entry, ids, -, -, -, ha⟩
  · exact ⟨h.rest, hnd, fun u hu => h.btrees u (List.mem_cons_of_mem _ hu), h.keyed⟩
  · refine ⟨?_, hnd, fun u hu => ?_, ha.keyed h.keyed⟩
    · rw [ha.rest, h.rest]
    · rw [ha.btrees u.rootPage fun he => hnot (he ▸ List.mem_map_of_mem hu)]
      exact h.btrees u (List.mem_cons_of_mem _ hu)

/-- Trees without a group in `A` leave the groups of `A` alone. -/
theorem Steady.trees {A : Set Nat} {st₁ st st' : CompactState} {ts rest : List BTreeDeadSpace}
    (h : Steady i A st₁ st) (hp : Pending i (ts ++ rest) st)
    (hst : i.manifest.strategy = .bTreeAware) (hA : ∀ g ∈ A, g < st₁.manifest.groupPages.length)
    (hdisj : ∀ t ∈ ts, ∀ g ∈ groupIds i t.rootPage, g ∉ A)
    (hr : ts.foldlM (compactTree i) st = .ok st') :
    Steady i A st₁ st' ∧ Pending i rest st' := by
  induction ts generalizing st with
  | nil =>
    cases hr
    exact ⟨h, hp⟩
  | cons t ts ih =>
    rw [List.foldlM_cons] at hr
    obtain ⟨st₂, hs, hr⟩ := bind_eq_ok.mp hr
    refine ih ?_ (hp.step hs) (fun u hu => hdisj u (List.mem_cons_of_mem _ hu)) hr
    rcases compactTree_inv hs with ⟨rfl, -⟩ | ⟨walked, entry, ids, -, he, -, ha⟩
    · exact h
    · rw [hp.btrees t List.mem_cons_self] at he
      refine h.applied hp.keyed (by rw [hp.rest]; exact hst) hA (fun g hg => ?_) ha
      refine hdisj t List.mem_cons_self g ?_
      rw [groupIds, he]
      exact hg

/-! ### Where a live page goes -/

/-- A page is in one block of a list without duplicates. -/
theorem eq_div_of_mem_block {ppg k n p : Nat} {live : List Nat} (hppg : 0 < ppg)
    (hnd : live.Nodup) (hn : live[n]? = some p) (hp : p ∈ block ppg k live) : k = n / ppg := by
  obtain ⟨j, hj⟩ := List.mem_iff_getElem?.mp hp
  have hlt : j < ppg := lt_of_lt_of_le (List.getElem?_eq_some_iff.mp hj).1 (by simp [block])
  rw [getElem?_block, if_pos hlt] at hj
  have hkn : k * ppg + j = n :=
    (List.getElem?_inj (List.getElem?_eq_some_iff.mp hj).1 hnd).mp (hj.trans hn.symm)
  rw [← hkn, Nat.add_comm, Nat.add_mul_div_right _ _ hppg, Nat.div_eq_of_lt hlt, Nat.zero_add]

/-- A live page of a tree with groups of its own is in one new group. -/
theorem Applied.place {st st' : CompactState} {root ppg : Nat} {old ids live : List Nat}
    (h : Applied i st root old (blocks ppg live) ids st') (hppg : 0 < ppg) (hnd : live.Nodup)
    (hids : ids.Nodup) {p : Nat} (hp : p ∈ live)
    (honly : ∀ g, p ∈ st.manifest.groupPages.getD g [] → g ∈ old) :
    ∃ g y, ∃ j : Nat, (g, y) ∈ ids.zip (blocks ppg live) ∧ y[j]? = some p ∧ y.length ≤ ppg ∧ y.Nodup ∧
      st'.manifest.groupPages.getD g [] = y ∧
      ∀ g', p ∈ st'.manifest.groupPages.getD g' [] → g' = g := by
  obtain ⟨n, hn⟩ := List.mem_iff_getElem?.mp hp
  have hlt := (List.getElem?_eq_some_iff.mp hn).1
  have hblk : (blocks ppg live)[n / ppg]? = some (block ppg (n / ppg) live) := by
    rw [getElem?_blocks, if_pos ((lt_divCeil_iff hppg).mpr (lt_of_le_of_lt (Nat.div_mul_le_self ..) hlt))]
  have hk : n / ppg < ids.length := by
    rw [h.length]
    exact (List.getElem?_eq_some_iff.mp hblk).1
  obtain ⟨g, hg⟩ : ∃ g, ids[n / ppg]? = some g := ⟨_, List.getElem?_eq_getElem hk⟩
  have hzip : (g, block ppg (n / ppg) live) ∈ ids.zip (blocks ppg live) :=
    List.mem_of_getElem? (List.getElem?_zip_eq_some.mpr ⟨hg, hblk⟩)
  have hlist : st'.manifest.groupPages.getD g [] = block ppg (n / ppg) live :=
    eq_of_mem_zip hids h.length (h.pages_new g (List.mem_of_getElem? hg)) hzip
  refine ⟨g, block ppg (n / ppg) live, n % ppg, hzip, ?_, by simp [block], ?_, hlist, fun g' hg' => ?_⟩
  · rw [getElem?_block_div hppg, hn]
  · exact hnd.sublist ((List.take_sublist ..).trans (List.drop_sublist ..))
  · rcases h.mem_pages hg' with ⟨hnot, hg'⟩ | ⟨hmem, -⟩
    · exact absurd (honly g' hg') hnot
    · -- the block of `g'` holds the page, so it is the block of `g`
      obtain ⟨k, hk'⟩ := List.mem_iff_getElem?.mp (h.pages_new g' hmem)
      obtain ⟨hid, hb⟩ := List.getElem?_zip_eq_some.mp hk'
      rw [getElem?_blocks] at hb
      split at hb
      · have hb' : block ppg k live = st'.manifest.groupPages.getD g' [] := Option.some.inj hb
        rw [← hb'] at hg'
        rw [eq_div_of_mem_block hppg hnd hn hg', hg] at hid
        exact (Option.some.inj hid).symm
      · cases hb

/-! ### Reading the new manifest -/

/-- The manifest that is published. -/
def published (i : CompactInput) (st : CompactState) (changeCounter : Nat) : Manifest :=
  ({ st.manifest with
    version := nextVersion i
    changeCounter := changeCounter } : Manifest).buildPageIndex

/-- The backend has lost nothing but the replaced objects. -/
def Kept (st : CompactState) (b : Backend) : Prop :=
  ∀ k ∉ st.replacedKeys, b.objects k = st.backend.objects k

section Published

variable {st₁ st : CompactState} {cc : Nat}

theorem published_eq (hst : st.manifest.strategy = .bTreeAware) : published i st cc =
    { st.manifest with
      version := nextVersion i
      changeCounter := cc
      pageIndex := Manifest.pageIndexOf st.manifest.groupPages } :=
  Manifest.buildPageIndex_eq_of_bTreeAware hst

/-- A page that one group lists is located there. -/
theorem pageLocation_published (hst : st.manifest.strategy = .bTreeAware) {p g j : Nat}
    (hj : (st.manifest.groupPages.getD g [])[j]? = some p)
    (hnd : (st.manifest.groupPages.getD g []).Nodup)
    (honly : ∀ g', p ∈ st.manifest.groupPages.getD g' [] → g' = g) :
    (published i st cc).pageLocation p = some ⟨g, j⟩ := by
  have hloc : (published i st cc).pageLocation p =
      (Manifest.pageIndexOf st.manifest.groupPages).lookup p := by
    rw [published_eq hst]
    simp only [Manifest.pageLocation, hst]
  rw [hloc]
  obtain ⟨⟨g', j'⟩, hl⟩ := Option.isSome_iff_exists.mp (Manifest.pageIndexOf_complete hj)
  have hj' := Manifest.pageIndexOf_sound hl
  obtain rfl := honly g' (List.mem_of_getElem? hj')
  have hjj : j' = j :=
    (List.getElem?_inj (List.getElem?_eq_some_iff.mp hj').1 hnd).mp (hj'.trans hj.symm)
  rw [hl, hjj]

/-- A page that no group lists is located nowhere. -/
theorem pageLocation_published_none (hst : st.manifest.strategy = .bTreeAware) {p : Nat}
    (hnot : ∀ g, p ∉ st.manifest.groupPages.getD g []) :
    (published i st cc).pageLocation p = none := by
  rw [published_eq hst]
  simp only [Manifest.pageLocation, hst]
  cases hl : (Manifest.pageIndexOf st.manifest.groupPages).lookup p with
  | none => rfl
  | some loc =>
    obtain ⟨g, j⟩ := loc
    exact absurd (List.mem_of_getElem? (Manifest.pageIndexOf_sound hl)) (hnot g)

/-- The keys a group's pages are behind. -/
def NamesKey (m : Manifest) (g : Nat) (k : ObjectKey) : Prop :=
  m.groupKey g = some k ∨ ∃ f ovr, (m.overrides g).lookup f = some ovr ∧ ovr.key = k

/-- A group that stays as it is keeps its pages. -/
theorem Steady.coldRead {g : Nat} {ct : GroupContent} {b : Backend} (h : Steady i {g} st₁ st)
    (hst : st₁.manifest.strategy = .bTreeAware) (hps : 0 < st₁.manifest.pageSize)
    (hg : HoldsGroup i.cfg st₁.manifest st₁.backend g ct) (hb : Kept st b)
    (hsafe : ∀ k, NamesKey st₁.manifest g k →
      (∀ g' ≠ g, k ≠ .pageGroup g' (nextVersion i)) ∧ k ∉ st.replacedKeys)
    {p j : Nat} (hp : p < st₁.manifest.pageCount)
    (hj : (st₁.manifest.groupPages.getD g [])[j]? = some p)
    (hnd : (st₁.manifest.groupPages.getD g []).Nodup)
    (honly : ∀ g', p ∈ st₁.manifest.groupPages.getD g' [] → g' = g) {v : Bytes}
    (hv : slotBytes st₁.manifest g ct j = some v) :
    coldRead i.cfg (published i st cc) b p = .ok v := by
  have hst' : st.manifest.strategy = .bTreeAware := by rw [h.rest]; exact hst
  have hlist := h.pages g rfl
  have hobj : ∀ k, NamesKey st₁.manifest g k → b.objects k = st₁.backend.objects k := by
    intro k hk
    obtain ⟨hup, hrep⟩ := hsafe k hk
    rw [hb k hrep, h.objects k hup]
  have hnums : (published i st cc).groupPageNums g = st₁.manifest.groupPages.getD g [] := by
    rw [published_eq hst', ← hlist]
    exact Manifest.groupPageNums_bTreeAware hst' g
  have hsame : Compaction.SameGroup st₁.manifest (published i st cc) st₁.backend b g := by
    refine ⟨?_, ?_, ?_, ?_, ?_, ?_, fun k hk => hobj k (.inl hk),
      fun f ovr hf => hobj ovr.key (.inr ⟨f, ovr, hf, rfl⟩)⟩
    · rw [published_eq hst', h.rest]
    · rw [published_eq hst', h.rest]
    · rw [published_eq hst']
      exact h.groupKey g rfl
    · rw [published_eq hst']
      exact h.frameTable g rfl
    · rw [published_eq hst', h.rest]
      rfl
    · rw [hnums, Manifest.groupPageNums_bTreeAware hst]
  have hloc : (published i st cc).pageLocation p = some ⟨g, j⟩ := by
    refine pageLocation_published hst' (hlist ▸ hj) (hlist ▸ hnd) fun g' hg' => ?_
    exact h.only p (fun g'' hg'' => honly g'' hg'') g' hg'
  refine ((hsame.holdsGroup hg).coldRead_slot ?_ ?_ ?_ hloc ?_ v).mpr (hsame.slotBytes_eq.trans hv)
  · rw [hsame.pageSize]
    exact hps
  · rw [hnums]
    exact hnd
  · rw [published_eq hst', h.rest]
    exact hp
  · rw [hnums]
    exact hj

end Published

/-! ### The pages that are kept -/

/-- A live page that is packed with the bytes it has: its tree is the only one compacted that lists
the tree's groups, these have no overrides, and the cache file has the page as it is stored. -/
structure Repackable (i : CompactInput) (t : BTreeDeadSpace) (p : Nat) : Prop where
  live : ∃ walked, (walk i i.manifest).btrees.lookup t.rootPage = some walked ∧ p ∈ walked.pages
  nodup : (groupIds i t.rootPage).Nodup
  named : ∀ u ∈ compactedTrees i, ∀ g ∈ groupIds i u.rootPage, g < i.manifest.groupPages.length
  own : ∀ u ∈ compactedTrees i, u.rootPage ≠ t.rootPage → ∀ g ∈ groupIds i u.rootPage,
    g ∉ groupIds i t.rootPage
  overrides : ∀ g, g ∈ groupIds i t.rootPage ∨ i.manifest.groupPages.length ≤ g → ∀ f,
    (i.manifest.overrides g).lookup f = none
  cached : ∀ v, coldRead i.cfg i.manifest i.backend p = .ok v → i.cache.file p = some v
  dictionary : i.cfg.dictionary = none
  size : 8 + i.manifest.pagesPerGroup * i.manifest.pageSize ≤ maxTieredDecompressedBytes

/-- The page has no place, or a place no compacted tree lists, or it is packed as it is. -/
def Keeps (i : CompactInput) (p : Nat) : Prop :=
  ∀ loc, i.manifest.pageLocation p = some loc →
    (∀ t ∈ compactedTrees i, loc.groupId ∉ groupIds i t.rootPage) ∨
    ∃ t ∈ compactedTrees i, loc.groupId ∈ groupIds i t.rootPage ∧ Repackable i t p

/-- The database a compaction finds: stored objects under a manifest that lists every page once, and
a walk that has every tree once. -/
structure Compactable (i : CompactInput) (ct : Nat → GroupContent) : Prop where
  keyed : WellKeyed i.manifest
  stored : Stored i.cfg i.manifest i.backend ct
  bTreeAware : i.manifest.strategy = .bTreeAware
  listed : ∀ p g g', p ∈ i.manifest.groupPages.getD g [] → p ∈ i.manifest.groupPages.getD g' [] →
    g = g'
  roots : ((walk i i.manifest).btrees.map (·.1)).Nodup

/-- The state before the first tree. -/
def start (i : CompactInput) : CompactState := ⟨i.manifest, i.backend, [], 0, 0⟩

section Keeps

variable {ct : Nat → GroupContent} {st : CompactState} {b : Backend} {cc : Nat}

/-- The report has the trees in the order of the walk. -/
theorem sublist_roots (m : Manifest) (ts : List (Nat × BTreeEntry)) :
    ((ts.filterMap fun t => (m.btrees.lookup t.1).map (deadSpace m t.1 t.2)).map
      (·.rootPage)).Sublist (ts.map (·.1)) := by
  induction ts with
  | nil => exact .slnil
  | cons t ts ih =>
    rw [List.map_cons]
    cases he : m.btrees.lookup t.1 with
    | none =>
      rw [List.filterMap_cons_none (by rw [he]; rfl)]
      exact ih.cons _
    | some entry =>
      rw [List.filterMap_cons_some (b := deadSpace m t.1 t.2 entry) (by rw [he]; rfl), List.map_cons]
      exact ih.cons_cons _

theorem Compactable.pending (h : Compactable i ct) : Pending i (compactedTrees i) (start i) :=
  ⟨rfl, h.roots.sublist ((List.filter_sublist.map _).trans (sublist_roots ..)), fun _ _ => rfl,
    fun _ _ hk => .inl hk⟩

/-- The page at a location. -/
theorem Compactable.located (h : Compactable i ct) {p g j : Nat}
    (hloc : i.manifest.pageLocation p = some ⟨g, j⟩) :
    (i.manifest.groupPages.getD g [])[j]? = some p ∧
      ∀ g', p ∈ i.manifest.groupPages.getD g' [] → g' = g := by
  have hj := h.stored.indexed.located hloc
  rw [Manifest.groupPageNums_bTreeAware h.bTreeAware] at hj
  exact ⟨hj, fun g' hg' => h.listed p g' g hg' (List.mem_of_getElem? hj)⟩

theorem Compactable.nodup (h : Compactable i ct) (g : Nat) :
    (i.manifest.groupPages.getD g []).Nodup := by
  rw [← Manifest.groupPageNums_bTreeAware h.bTreeAware]
  exact Manifest.nodup_groupPageNums h.stored.nodup g

/-- No key of the old manifest is one of the new version. -/
theorem Compactable.ne_new (h : Compactable i ct) {s : Slot} {k : ObjectKey}
    (hk : i.manifest.keyAt s = some k) (g : Nat) : k ≠ .pageGroup g (nextVersion i) := by
  rintro rfl
  obtain ⟨v, hle, hv⟩ := h.keyed.version s _ hk
  cases hv
  exact absurd hle (Nat.not_succ_le_self _)

theorem lt_length_of_getElem? {m : Manifest} {p g j : Nat}
    (hj : (m.groupPages.getD g [])[j]? = some p) : g < m.groupPages.length := by
  by_contra hge
  rw [List.getD_eq_getElem?_getD, List.getElem?_eq_none (Nat.le_of_not_lt hge)] at hj
  cases hj

/-- A page without a place stays without one. -/
theorem Compactable.read_unlisted (h : Compactable i ct)
    (hr : (compactedTrees i).foldlM (compactTree i) (start i) = .ok st) {p : Nat}
    (hnone : i.manifest.pageLocation p = none) {v : Bytes}
    (hv : coldRead i.cfg i.manifest i.backend p = .ok v) :
    coldRead i.cfg (published i st cc) b p = .ok v := by
  have hnot : ∀ g, p ∉ i.manifest.groupPages.getD g [] := by
    intro g hg
    obtain ⟨j, hj⟩ := List.mem_iff_getElem?.mp hg
    have hsome := Manifest.pageIndexOf_complete hj
    rw [← h.stored.indexed.bTreeAware h.bTreeAware] at hsome
    simp only [Manifest.pageLocation, h.bTreeAware] at hnone
    rw [hnone] at hsome
    cases hsome
  have hpend := h.pending
  rw [← List.append_nil (compactedTrees i)] at hpend
  obtain ⟨hsteady, -⟩ := (Steady.refl i ∅ (start i)).trees hpend h.bTreeAware
    (fun g hg => hg.elim) (fun _ _ _ _ hg => hg.elim) hr
  have hst : st.manifest.strategy = .bTreeAware := by rw [hsteady.rest]; exact h.bTreeAware
  have hloc : (published i st cc).pageLocation p = none := by
    refine pageLocation_published_none hst fun g hg => ?_
    exact (hsteady.only p (fun g hg => absurd hg (hnot g)) g hg).elim
  have hzero : zeroPage (published i st cc) = zeroPage i.manifest := by
    rw [published_eq hst, hsteady.rest]
    rfl
  unfold coldRead at hv ⊢
  rw [hnone, ite_self] at hv
  rw [hloc, ite_self, hzero]
  exact hv

/-- A group that no compacted tree lists is read as before. -/
theorem Compactable.read_untouched (h : Compactable i ct) (hc : i.cfg.codecs.Lawful)
    (hr : (compactedTrees i).foldlM (compactTree i) (start i) = .ok st) (hb : Kept st b)
    {p g j : Nat} (hp : p < i.manifest.pageCount)
    (hloc : i.manifest.pageLocation p = some ⟨g, j⟩)
    (hfree : ∀ t ∈ compactedTrees i, g ∉ groupIds i t.rootPage) {v : Bytes}
    (hv : coldRead i.cfg i.manifest i.backend p = .ok v) :
    coldRead i.cfg (published i st cc) b p = .ok v := by
  obtain ⟨hj, honly⟩ := h.located hloc
  obtain ⟨hholds, hslot⟩ := h.stored.slot_of_coldRead hc hp hloc hv
  have hpend := h.pending
  rw [← List.append_nil (compactedTrees i)] at hpend
  obtain ⟨hsteady, -⟩ := (Steady.refl i {g} (start i)).trees hpend h.bTreeAware
    (fun g' hg' => hg' ▸ lt_length_of_getElem? hj) (fun t ht g' hg' he => hfree t ht (he ▸ hg')) hr
  refine hsteady.coldRead h.bTreeAware h.stored.pageSize_pos hholds hb (fun k hk => ?_) hp hj
    (h.nodup g) honly hslot
  -- the slot of the group that names the key
  obtain ⟨s, hs, hne⟩ : ∃ s, i.manifest.keyAt s = some k ∧ ∀ g', g' ≠ g → s ≠ .group g' := by
    rcases hk with hk | ⟨f, ovr, hf, rfl⟩
    · refine ⟨.group g, hk, fun g' hg' he => hg' ?_⟩
      cases he
      rfl
    · have hk : i.manifest.keyAt (.override g f) = some ovr.key :=
        Option.map_eq_some_iff.mpr ⟨ovr, hf, rfl⟩
      exact ⟨.override g f, hk, fun g' _ he => by cases he⟩
  refine ⟨fun g' _ => h.ne_new hs g', fun hmem => ?_⟩
  rcases hsteady.replaced k hmem with hk | ⟨g', hg', hk | ⟨hk, -⟩⟩
  · cases hk
  · exact hne g' hg' (h.keyed.injective s (.group g') k hs hk)
  · exact h.ne_new hs g' hk

/-- The run up to a tree, the tree, and the run after it. -/
theorem split_trees {ts : List BTreeDeadSpace} {t : BTreeDeadSpace} (ht : t ∈ ts)
    (hr : ts.foldlM (compactTree i) (start i) = .ok st) : ∃ pre post st₁ st₂,
      ts = pre ++ t :: post ∧ pre.foldlM (compactTree i) (start i) = .ok st₁ ∧
      compactTree i st₁ t = .ok st₂ ∧ post.foldlM (compactTree i) st₂ = .ok st := by
  obtain ⟨pre, post, rfl⟩ := List.append_of_mem ht
  rw [List.foldlM_append] at hr
  obtain ⟨st₁, h₁, hr⟩ := bind_eq_ok.mp hr
  rw [List.foldlM_cons] at hr
  obtain ⟨st₂, h₂, hr⟩ := bind_eq_ok.mp hr
  exact ⟨pre, post, st₁, st₂, rfl, h₁, h₂, hr⟩

/-- The trees around a tree have other roots. -/
theorem Pending.ne_root {pre post : List BTreeDeadSpace} {t u : BTreeDeadSpace} {st : CompactState}
    (h : Pending i (pre ++ t :: post) st) (hu : u ∈ pre ∨ u ∈ post) : u.rootPage ≠ t.rootPage := by
  have hnd := h.nodup
  rw [List.map_append, List.map_cons] at hnd
  intro he
  rcases hu with hu | hu
  · refine (List.nodup_append.mp hnd).2.2 u.rootPage (List.mem_map_of_mem hu) t.rootPage ?_ he
    exact List.mem_cons_self
  · exact (List.nodup_cons.mp (List.nodup_append.mp hnd).2.1).1 (he ▸ List.mem_map_of_mem hu)

/-- The object of a new group holds what the cache file has of its pages. -/
theorem encodeGroup_holds (hc : i.cfg.codecs.Lawful) (hdict : i.cfg.dictionary = none)
    {m : Manifest} (hps : m.pageSize = i.manifest.pageSize) (hpos : 0 < m.pageSize)
    (hlt : m.pageSize < 2 ^ 32) (g : Nat) (y : List Nat) :
    RewriteHolds i.cfg m (encodeGroup i m g y)
      ((y.map i.cache.file).map (CodecConfig.padPage m.pageSize)) := by
  have hcfg : ({ i.cfg with dictionary := none } : CodecConfig) = i.cfg := by rw [← hdict]
  rw [encodeGroup, hcfg]
  refine encodeRewrite_holds hc hpos hlt fun d hd => ?_
  obtain ⟨p, -, hp⟩ := List.mem_map.mp hd
  rw [hps]
  exact (i.cache.sized p d hp).le

/-- A slot of an object that has a page for every page its group lists. -/
theorem slotBytes_full {m : Manifest} {g j : Nat} {pages : List Bytes} {v : Bytes}
    (hlen : (m.groupPageNums g).length = pages.length) (hj : pages[j]? = some v) :
    slotBytes m g ⟨pages, fun _ => none⟩ j = some v := by
  have hlt := (List.getElem?_eq_some_iff.mp hj).1
  cases hf : m.hasFrames g with
  | false =>
    simp only [slotBytes, hf, Bool.false_eq_true, if_false, if_pos hlen.le]
    exact hj
  | true =>
    obtain ⟨hspf, -⟩ := hasFrames_iff.mp hf
    have hle : j / m.subPagesPerFrame * m.subPagesPerFrame < pages.length :=
      lt_of_le_of_lt (Nat.div_mul_le_self ..) hlt
    simp only [slotBytes, hf, if_true, if_pos hle, GroupContent.frame, getElem?_block_div hspf, hj,
      Option.getD_some]

/-- The page is packed: one group lists it, and the group's object of the new version holds `v` in
its slot. -/
structure Packed (i : CompactInput) (st : CompactState) (p g j : Nat) (v : Bytes) : Prop where
  slot : (st.manifest.groupPages.getD g [])[j]? = some p
  nodup : (st.manifest.groupPages.getD g []).Nodup
  only : ∀ g', p ∈ st.manifest.groupPages.getD g' [] → g' = g
  key : st.manifest.groupKey g = some (.pageGroup g (nextVersion i))
  overrides : ∀ f, (st.manifest.overrides g).lookup f = none
  holds : ∃ ct, HoldsGroup i.cfg st.manifest st.backend g ct ∧ slotBytes st.manifest g ct j = some v
  kept : .pageGroup g (nextVersion i) ∉ st.replacedKeys

/-- Compacting its tree packs a page. -/
theorem Compactable.packed (h : Compactable i ct) (hc : i.cfg.codecs.Lawful)
    {t : BTreeDeadSpace} {post : List BTreeDeadSpace} {st₁ st₂ : CompactState}
    (ht : t ∈ compactedTrees i)
    (hsteady : Steady i {g | g ∈ groupIds i t.rootPage} (start i) st₁)
    (hpend : Pending i (t :: post) st₁) (hs : compactTree i st₁ t = .ok st₂) {p g j : Nat}
    (hloc : i.manifest.pageLocation p = some ⟨g, j⟩) (hg : g ∈ groupIds i t.rootPage)
    (hrep : Repackable i t p) {v : Bytes} (hfile : i.cache.file p = some v) :
    ∃ g' j', Packed i st₂ p g' j' v ∧ g' < st₂.manifest.groupPages.length ∧
      (g' ∈ groupIds i t.rootPage ∨ i.manifest.groupPages.length ≤ g') := by
  obtain ⟨hj, honly⟩ := h.located hloc
  obtain ⟨walked, hwalked, hlive⟩ := hrep.live
  have hst₁ : st₁.manifest.strategy = .bTreeAware := by rw [hsteady.rest]; exact h.bTreeAware
  obtain ⟨entry, hentry, hids⟩ : ∃ entry, i.manifest.btrees.lookup t.rootPage = some entry ∧
      groupIds i t.rootPage = entry.groupIds := by
    unfold groupIds at hg ⊢
    cases he : i.manifest.btrees.lookup t.rootPage with
    | none =>
      rw [he] at hg
      cases hg
    | some entry => exact ⟨entry, rfl, rfl⟩
  rcases compactTree_inv hs with ⟨-, hnone | hnone⟩ | ⟨walked', entry', ids, hw', he', hppg, ha⟩
  · rw [hpend.walk_eq, hwalked] at hnone
    cases hnone
  · rw [hpend.btrees t List.mem_cons_self, hentry] at hnone
    cases hnone
  rw [hpend.walk_eq, hwalked] at hw'
  rw [hpend.btrees t List.mem_cons_self, hentry] at he'
  cases hw'
  cases he'
  -- the page is a live page of the tree, and only the tree's groups list it
  have hpages : p ∈ st₁.manifest.groupPageNums g := by
    rw [Manifest.groupPageNums_bTreeAware hst₁, hsteady.pages g hg]
    exact List.mem_of_getElem? hj
  have honly₁ : ∀ g', p ∈ st₁.manifest.groupPages.getD g' [] → g' ∈ entry.groupIds := by
    intro g' hg'
    rw [← hids]
    exact hsteady.only p (fun g'' hg'' => (honly g'' hg'') ▸ hg) g' hg'
  have hold : ∀ g ∈ entry.groupIds, g < st₁.manifest.groupPages.length := by
    intro g hg
    exact lt_of_lt_of_le (hrep.named t ht g (hids ▸ hg)) hsteady.grown
  have hnd : ids.Nodup := ha.nodup (hids ▸ hrep.nodup) hold
  obtain ⟨g', y, j', hzip, hj', hylen, hynd, hlist, honly'⟩ := ha.place hppg
    (nodup_sortedLive ..) hnd (mem_sortedLive.mpr ⟨⟨g, hids ▸ hg, hpages⟩, hlive⟩) honly₁
  have hg' : g' ∈ ids := (List.of_mem_zip hzip).1
  obtain ⟨hmine, hlt'⟩ := ha.mem_ids hg'
  have hst₂ : st₂.manifest.strategy = .bTreeAware := by rw [ha.rest]; exact hst₁
  have hps : st₁.manifest.pageSize = i.manifest.pageSize := by rw [hsteady.rest]; rfl
  have hov : ∀ f, (st₂.manifest.overrides g').lookup f = none := by
    intro f
    rw [ha.rest, hsteady.rest]
    refine hrep.overrides g' ?_ f
    rw [hids]
    exact hmine.imp_right hsteady.grown.trans
  have hnew : st₂.manifest.groupKey g' = some (.pageGroup g' (nextVersion i)) := by
    rw [ha.groupKey, if_pos hg']
  -- the object holds the bytes of the cache file
  have henc := encodeGroup_holds hc hrep.dictionary hps (hps ▸ h.stored.pageSize_pos)
    (hps ▸ h.stored.pageSize_lt) g' y
  have hgid : (encodeGroup i st₁.manifest g' y).gid = g' := encodeRewrite_gid ..
  have hslot : ((y.map i.cache.file).map (CodecConfig.padPage st₁.manifest.pageSize))[j']? =
      some v := by
    rw [List.getElem?_map, List.getElem?_map, hj', Option.map_some, Option.map_some, hfile,
      CodecConfig.padPage_full ((i.cache.sized p v hfile).trans hps.symm)]
  have hsize : 8 + ((y.map i.cache.file).map (CodecConfig.padPage st₁.manifest.pageSize)).length *
      st₁.manifest.pageSize ≤ maxTieredDecompressedBytes := by
    rw [List.length_map, List.length_map, hps]
    exact (Nat.add_le_add_left (Nat.mul_le_mul_right _ hylen) 8).trans hrep.size
  have hps₂ : st₂.manifest.pageSize = st₁.manifest.pageSize := by rw [ha.rest]
  have hspf₂ : st₂.manifest.subPagesPerFrame = st₁.manifest.subPagesPerFrame := by rw [ha.rest]
  have hholds := henc.holdsGroup hps₂ hspf₂ (hgid.symm ▸ hnew) (ha.objects_new hnd _ hzip)
    (fun ft hft => hgid.symm ▸ ha.frameTable_new hnd _ hzip ft hft) (hgid.symm ▸ hov) hsize
  rw [hgid] at hholds
  have hholds := hholds.resolve_right fun hn => by
    have hbase := hn.base
    dsimp only at hbase
    rw [hbase] at hslot
    cases hslot
  refine ⟨g', j', ⟨hlist ▸ hj', hlist ▸ hynd, honly', hnew, hov, ⟨_, hholds, slotBytes_full ?_ hslot⟩,
    fun hmem => ?_⟩, hlt', ?_⟩
  · rw [Manifest.groupPageNums_bTreeAware hst₂, hlist, List.length_map, List.length_map]
  · -- what was replaced so far is an old key, or the new key of another group
    have hfresh : ∀ g'', i.manifest.groupKey g'' ≠ some (.pageGroup g' (nextVersion i)) :=
      fun g'' hk => h.ne_new (s := .group g'') hk g' rfl
    rcases ha.replaced _ hmem with hmem | ⟨g'', -, hk⟩ | ⟨-, -, -, hnd'⟩
    · rcases hsteady.replaced _ hmem with hmem | ⟨g'', hne, hk | ⟨hk, hlt⟩⟩
      · cases hmem
      · exact hfresh g'' hk
      · obtain rfl := (ObjectKey.pageGroup.inj hk).1
        rcases hmine with hmine | hge
        · exact hne (hids ▸ hmine)
        · exact absurd hlt (Nat.not_lt.mpr hge)
    · rcases hpend.keyed g'' _ hk with hk' | ⟨hk', hlt⟩
      · exact hfresh g'' hk'
      · obtain rfl := (ObjectKey.pageGroup.inj hk').1
        rcases hmine with hmine | hge
        · rw [hsteady.groupKey g' (hids ▸ hmine)] at hk
          exact hfresh g' hk
        · exact absurd hlt (Nat.not_lt.mpr hge)
    · exact hnd' hnd
  · rw [hids]
    exact hmine.imp_right hsteady.grown.trans

/-- A packed page is read from its new group. -/
theorem Compactable.read_packed (h : Compactable i ct) {st₂ : CompactState} {p g j : Nat} {v : Bytes}
    (hpack : Packed i st₂ p g j v) (hrest : Pending i [] st₂) (hsteady : Steady i {g} st₂ st)
    (hb : Kept st b) (hp : p < i.manifest.pageCount) :
    coldRead i.cfg (published i st cc) b p = .ok v := by
  obtain ⟨ct', hholds, hslot⟩ := hpack.holds
  refine hsteady.coldRead (by rw [hrest.rest]; exact h.bTreeAware)
    (by rw [hrest.rest]; exact h.stored.pageSize_pos) hholds hb (fun k hk => ?_)
    (by rw [hrest.rest]; exact hp) hpack.slot hpack.nodup hpack.only hslot
  obtain rfl : k = .pageGroup g (nextVersion i) := by
    rcases hk with hk | ⟨f, ovr, hf, -⟩
    · exact Option.some.inj (hk.symm.trans hpack.key)
    · rw [hpack.overrides f] at hf
      cases hf
  refine ⟨fun g' hne he => hne (ObjectKey.pageGroup.inj he).1.symm, fun hmem => ?_⟩
  rcases hsteady.replaced _ hmem with hmem | ⟨g', hne, hk | ⟨hk, -⟩⟩
  · exact hpack.kept hmem
  · exact h.ne_new (s := .group g') hk g rfl
  · exact hne (ObjectKey.pageGroup.inj hk).1.symm

/-- A live page of a tree with groups of its own is read as before. -/
theorem Compactable.read_repacked (h : Compactable i ct) (hc : i.cfg.codecs.Lawful)
    (hr : (compactedTrees i).foldlM (compactTree i) (start i) = .ok st) (hb : Kept st b)
    {p g j : Nat} (hp : p < i.manifest.pageCount)
    (hloc : i.manifest.pageLocation p = some ⟨g, j⟩) {t : BTreeDeadSpace}
    (ht : t ∈ compactedTrees i) (hg : g ∈ groupIds i t.rootPage) (hrep : Repackable i t p)
    {v : Bytes} (hv : coldRead i.cfg i.manifest i.backend p = .ok v) :
    coldRead i.cfg (published i st cc) b p = .ok v := by
  obtain ⟨pre, post, st₁, st₂, hts, h₁, h₂, h₃⟩ := split_trees ht hr
  have hpend : Pending i (pre ++ t :: post) (start i) := hts ▸ h.pending
  have hown : ∀ u, u ∈ pre ∨ u ∈ post → u ∈ compactedTrees i ∧
      ∀ g ∈ groupIds i u.rootPage, g ∉ groupIds i t.rootPage := by
    intro u hu
    have hmem : u ∈ compactedTrees i := by
      rw [hts]
      exact List.mem_append.mpr (hu.imp_right (List.mem_cons_of_mem t))
    exact ⟨hmem, hrep.own u hmem (hpend.ne_root hu)⟩
  -- up to the tree its groups stay as they are, and after it the page's new group does
  obtain ⟨hsteady, hpend₁⟩ := (Steady.refl i {g | g ∈ groupIds i t.rootPage} (start i)).trees hpend
    h.bTreeAware (hrep.named t ht) (fun u hu => (hown u (.inl hu)).2) h₁
  obtain ⟨g', j', hpack, hlt, hmine⟩ := h.packed hc ht hsteady hpend₁ h₂ hloc hg hrep
    (hrep.cached v hv)
  have hnot : ∀ u ∈ post, ∀ g'' ∈ groupIds i u.rootPage, g'' ∉ ({g'} : Set Nat) := by
    rintro u hu g'' hg'' rfl
    obtain ⟨hmem, hdisj⟩ := hown u (.inr hu)
    rcases hmine with hmine | hge
    · exact hdisj g'' hg'' hmine
    · exact absurd (hrep.named u hmem g'' hg'') (Nat.not_lt.mpr hge)
  have hpend₂ := hpend₁.step h₂
  rw [← List.append_nil post] at hpend₂
  obtain ⟨hsteady₂, -⟩ := (Steady.refl i {g'} st₂).trees hpend₂ h.bTreeAware
    (fun g'' hg'' => hg'' ▸ hlt) hnot h₃
  exact h.read_packed hpack ⟨hpend₂.rest, List.nodup_nil, fun _ hu => absurd hu List.not_mem_nil,
    hpend₂.keyed⟩ hsteady₂ hb hp

/-- A tree that does not reach a page adds it to no group, and takes it out of its own. -/
theorem compactTree_unreached {st₁ st₂ : CompactState} {t : BTreeDeadSpace}
    {ts : List BTreeDeadSpace} (hpend : Pending i (t :: ts) st₁) (hs : compactTree i st₁ t = .ok st₂)
    {p : Nat} (hdead : ∀ w ∈ (walk i i.manifest).btrees, p ∉ w.2.pages) {g : Nat}
    (hg : p ∈ st₂.manifest.groupPages.getD g []) : p ∈ st₁.manifest.groupPages.getD g [] ∧
      ((walk i i.manifest).btrees.lookup t.rootPage ≠ none → g ∉ groupIds i t.rootPage) := by
  rcases compactTree_inv hs with ⟨rfl, hnone⟩ | ⟨walked, entry, ids, hw, he, -, ha⟩
  · refine ⟨hg, fun hw hmem => ?_⟩
    rw [hpend.walk_eq, hpend.btrees t List.mem_cons_self] at hnone
    unfold groupIds at hmem
    rcases hnone with hnone | hnone
    · exact hw hnone
    · rw [hnone] at hmem
      cases hmem
  · rw [hpend.walk_eq] at hw
    rw [hpend.btrees t List.mem_cons_self] at he
    rcases ha.mem_pages hg with ⟨hnot, hg⟩ | ⟨-, hlive⟩
    · refine ⟨hg, fun _ hmem => hnot ?_⟩
      rw [groupIds, he] at hmem
      exact hmem
    · obtain ⟨-, hpages⟩ := mem_sortedLive.mp hlive
      obtain ⟨l₁, l₂, heq, -⟩ := List.lookup_eq_some_iff.mp hw
      refine absurd hpages (hdead (t.rootPage, walked) ?_)
      rw [heq]
      exact List.mem_append_right _ List.mem_cons_self

theorem trees_unreached {st₁ st₂ : CompactState} {ts rest : List BTreeDeadSpace}
    (hpend : Pending i (ts ++ rest) st₁) (hr : ts.foldlM (compactTree i) st₁ = .ok st₂)
    {p : Nat} (hdead : ∀ w ∈ (walk i i.manifest).btrees, p ∉ w.2.pages) :
    Pending i rest st₂ ∧ ∀ g, p ∈ st₂.manifest.groupPages.getD g [] →
      p ∈ st₁.manifest.groupPages.getD g [] := by
  induction ts generalizing st₁ with
  | nil =>
    cases hr
    exact ⟨hpend, fun _ hg => hg⟩
  | cons t ts ih =>
    rw [List.foldlM_cons] at hr
    obtain ⟨st, hs, hr⟩ := bind_eq_ok.mp hr
    obtain ⟨hpend', hsub⟩ := ih (hpend.step hs) hr
    exact ⟨hpend', fun g hg => (compactTree_unreached hpend hs hdead (hsub g hg)).1⟩

/-- A compacted tree is one of the walk. -/
theorem lookup_walk_ne_none {t : BTreeDeadSpace} (ht : t ∈ compactedTrees i) :
    (walk i i.manifest).btrees.lookup t.rootPage ≠ none := by
  obtain ⟨w, hw, hmap⟩ := List.mem_filterMap.mp (List.mem_filter.mp ht).1
  obtain ⟨entry, -, rfl⟩ := Option.map_eq_some_iff.mp hmap
  intro hnone
  have hne := List.lookup_eq_none_iff.mp hnone w hw
  simp [deadSpace] at hne

/-- A page that no tree reaches, in a group of a compacted tree, has no place afterwards. -/
theorem Compactable.dropped (h : Compactable i ct)
    (hr : (compactedTrees i).foldlM (compactTree i) (start i) = .ok st) {p g j : Nat}
    (hloc : i.manifest.pageLocation p = some ⟨g, j⟩) {t : BTreeDeadSpace}
    (ht : t ∈ compactedTrees i) (hg : g ∈ groupIds i t.rootPage)
    (hdead : ∀ w ∈ (walk i i.manifest).btrees, p ∉ w.2.pages) :
    (published i st cc).pageLocation p = none := by
  obtain ⟨-, honly⟩ := h.located hloc
  obtain ⟨pre, post, st₁, st₂, hts, h₁, h₂, h₃⟩ := split_trees ht hr
  have hpend : Pending i (pre ++ t :: post) (start i) := hts ▸ h.pending
  obtain ⟨hpend₁, hsub₁⟩ := trees_unreached hpend h₁ hdead
  have hpend₂ := hpend₁.step h₂
  rw [← List.append_nil post] at hpend₂
  obtain ⟨hpend₃, hsub₃⟩ := trees_unreached hpend₂ h₃ hdead
  have hst : st.manifest.strategy = .bTreeAware := by rw [hpend₃.rest]; exact h.bTreeAware
  refine pageLocation_published_none hst fun g' hg' => ?_
  obtain ⟨hmem, hnot⟩ := compactTree_unreached hpend₁ h₂ hdead (hsub₃ g' hg')
  obtain rfl := honly g' (hsub₁ g' hmem)
  exact hnot (lookup_walk_ne_none ht) hg

end Keeps

/-! ### The result -/

/-- What a compaction that succeeds has done. -/
theorem compact_inv {out : CompactOutput} (h : compact i = .ok out) :
    (compactedTrees i = [] ∧ out.manifest = i.manifest ∧ out.backend = i.backend) ∨
    ∃ cc st, compactedTrees i ≠ [] ∧
      (compactedTrees i).foldlM (compactTree i) (start i) = .ok st ∧
      out.manifest = published i st cc ∧ out.backend.manifest = some out.manifest ∧
      Kept st out.backend := by
  unfold compact at h
  dsimp only at h
  split at h
  · rename_i hnone
    cases h
    refine .inl ⟨?_, rfl, rfl⟩
    simp [compactedTrees, hnone]
  · rename_i hsome
    obtain ⟨cc, -, h⟩ := bind_eq_ok.mp h
    obtain ⟨st, hst, h⟩ := bind_eq_ok.mp h
    obtain ⟨b, hb, h⟩ := bind_eq_ok.mp h
    cases h
    have hne : compactedTrees i ≠ [] := by
      obtain ⟨name, hname⟩ := List.exists_mem_of_ne_nil _ hsome
      obtain ⟨t, ht, rfl⟩ := List.mem_map.mp hname
      refine List.ne_nil_of_mem (a := t) (List.mem_filter.mpr ⟨(List.mem_filter.mp ht).1, ?_⟩)
      exact decide_eq_true hname
    have hput : b.objects = st.backend.objects ∧ b.manifest = some (published i st cc) := by
      unfold Backend.putManifest at hb
      split at hb
      · split at hb
        · cases hb
        · cases hb
          exact ⟨rfl, rfl⟩
      · cases hb
        exact ⟨rfl, rfl⟩
    refine .inr ⟨cc, st, hne, hst, rfl, ?_, fun k hk => ?_⟩
    · dsimp only
      split
      · exact hput.2
      · exact hput.2
    · dsimp only
      split
      · simp only [Backend.deleteObjects, if_neg hk, hput.1]
      · rw [hput.1]

/-- After a compaction every page that is kept reads the bytes it had through the published manifest.
When the cache file has every page, a page that no tree reaches and whose group a compacted tree lists
is out of the layout. -/
theorem compact_preserves_pages {ct : Nat → GroupContent} {out : CompactOutput}
    (hc : i.cfg.codecs.Lawful) (hcomp : compactedTrees i ≠ [] → Compactable i ct)
    (h : compact i = .ok out) :
    (out.backend.manifest = some out.manifest ∨
      out.manifest = i.manifest ∧ out.backend = i.backend) ∧
    (∀ p < i.manifest.pageCount, Keeps i p → ∀ v,
      coldRead i.cfg i.manifest i.backend p = .ok v →
      coldRead i.cfg out.manifest out.backend p = .ok v) ∧
    ((∀ p < i.manifest.pageCount, (i.cache.file p).isSome) →
      ∀ p loc, i.manifest.pageLocation p = some loc →
        (∃ t ∈ compactedTrees i, loc.groupId ∈ groupIds i t.rootPage) →
        (∀ w ∈ (walk i i.manifest).btrees, p ∉ w.2.pages) →
        out.manifest.pageLocation p = none) := by
  rcases compact_inv h with ⟨hnone, hm, hb⟩ | ⟨cc, st, hne, hst, hm, hput, hkept⟩
  · refine ⟨.inr ⟨hm, hb⟩, fun p _ _ v hv => ?_, fun _ p loc _ ht => ?_⟩
    · rw [hm, hb]
      exact hv
    · obtain ⟨t, ht, -⟩ := ht
      rw [hnone] at ht
      cases ht
  · have hcomp := hcomp hne
    refine ⟨.inl hput, fun p hp hkeep v hv => ?_, fun _ p loc hloc ht hdead => ?_⟩
    · rw [hm]
      cases hloc : i.manifest.pageLocation p with
      | none => exact hcomp.read_unlisted hst hloc hv
      | some loc =>
        rcases hkeep loc hloc with hfree | ⟨t, ht, hg, hrep⟩
        · exact hcomp.read_untouched hc hst hkept hp hloc hfree hv
        · exact hcomp.read_repacked hc hst hkept hp hloc ht hg hrep hv
    · obtain ⟨t, ht, hg⟩ := ht
      rw [hm]
      exact hcomp.dropped hst hloc ht hg hdead

/-! ### An example -/

namespace Example

/-- Page 0 of a database of two pages: an empty schema. -/
def page0 : Bytes :=
  List.replicate 24 0 ++ [0, 0, 0, 1] ++ [0, 0, 0, 2] ++ List.replicate 68 0 ++ [0x0D] ++
    List.replicate 411 0

/-- A page of the freelist. -/
def page1 : Bytes := List.replicate 512 7

/-- The group of the two pages, in frames of one page. -/
def group : Bytes × List FrameEntry :=
  CodecConfig.plain.encodePageGroupSeekable (aadPageGroup 0) 512 1 [some page0, some page1]

/-- Version 1 with the one group. -/
def manifest : Manifest where
  version := 1
  changeCounter := 1
  pageCount := 2
  pageSize := 512
  pagesPerGroup := 2
  pageGroupKeys := [some (.pageGroup 0 1)]
  frameTables := [group.2]
  subPagesPerFrame := 1
  strategy := .bTreeAware
  groupPages := [[0, 1]]
  btrees := AList.insert 0 ⟨"sqlite_master", "table", [0], [0]⟩ ∅
  pageIndex := Manifest.pageIndexOf [[0, 1]]

/-- The backend that holds it. -/
def backend : Backend where
  objects := fun
    | .pageGroup 0 1 => some group.1
    | _ => none
  manifest := some manifest

/-- The pages as SQLite wrote them. -/
def pages : PageMap := fun
  | 0 => some page0
  | 1 => some page1
  | _ => none

theorem length_pages (p : Nat) (d : Bytes) (h : pages p = some d) : d.length = 512 := by
  unfold pages at h
  split at h
  · cases h
    decide +kernel
  · cases h
    decide +kernel
  · cases h

/-- Half of the tree's group is dead, and the threshold is 30 percent. -/
def input : CompactInput where
  cfg := .plain
  manifest := manifest
  backend := backend
  cache := .ofPages pages length_pages
  gcEnabled := true
  walkAllBtrees _ _ _ := ⟨[(0, ⟨"sqlite_master", "table", [0]⟩)], [1]⟩
  exceeds dead total := decide (3 * total ≤ 10 * dead)

/-- The pages of the group as they are decoded. -/
def content : Nat → GroupContent := fun _ =>
  ⟨[some page0, some page1].map (CodecConfig.padPage 512), fun _ => none⟩

theorem keyAt_eq {s : Slot} {k : ObjectKey} (h : manifest.keyAt s = some k) :
    s = .group 0 ∧ k = .pageGroup 0 1 := by
  cases s with
  | group g =>
    cases g with
    | zero => exact ⟨rfl, (Option.some.inj h).symm⟩
    | succ g => exact absurd (show none = some k from h) (by simp)
  | override g f => exact absurd (show none = some k from h) (by simp)
  | interior c => exact absurd (show none = some k from h) (by simp)
  | index c => exact absurd (show none = some k from h) (by simp)

theorem holdsGroup : HoldsGroup .plain manifest backend 0 (content 0) where
  base := ⟨.pageGroup 0 1, group.1, rfl, rfl,
    fun _ => CodecConfig.encodePageGroupSeekable_holds Codecs.plain_lawful _ (by
      intro data hd
      simp only [List.mem_cons, Option.some.injEq, List.not_mem_nil, or_false] at hd
      rcases hd with rfl | rfl <;> decide +kernel),
    fun h => absurd h (by decide)⟩
  size := show 8 + 2 * 512 ≤ 2 ^ 30 by decide
  overFrames _ := rfl

theorem compactable : Compactable input content where
  keyed := by
    refine ⟨fun s t k hs ht => ?_, fun s k hs => ?_⟩
    · rw [(keyAt_eq hs).1, (keyAt_eq ht).1]
    · rw [(keyAt_eq hs).2]
      exact ⟨1, Nat.le_refl _, rfl⟩
  stored :=
    { pageSize_pos := by decide
      pageSize_lt := by decide
      legacy := fun h => absurd h (by decide)
      unkeyed := fun g h => by
        cases g with
        | zero => exact absurd (show some _ = none from h) (by simp)
        | succ g => rfl
      holds := fun g h => by
        cases g with
        | zero => exact .inl holdsGroup
        | succ g => exact absurd (show (none : Option ObjectKey).isSome = true from h) (by simp)
      indexed := ⟨fun h => absurd h (by decide), fun _ _ => rfl⟩
      nodup := by decide }
  bTreeAware := rfl
  listed p g g' hg hg' := by
    have hzero : ∀ g, p ∈ manifest.groupPages.getD g [] → g = 0 := by
      intro g hg
      cases g with
      | zero => rfl
      | succ g => exact absurd hg List.not_mem_nil
    rw [hzero g hg, hzero g' hg']
  roots := by decide

theorem compactedTrees_eq : (compactedTrees input).map (·.rootPage) = [0] := by decide +kernel

theorem groupIds_zero : groupIds input 0 = [0] := rfl

/-- Page 0 is live, and alone in the cache and in its group's tree. -/
theorem keeps_zero : Keeps input 0 := by
  intro loc hloc
  have hloc : (⟨0, 0⟩ : PageLocation) = loc := Option.some.inj hloc
  subst hloc
  obtain ⟨t, ht, hroot⟩ : ∃ t ∈ compactedTrees input, t.rootPage = 0 :=
    List.mem_map.mp (by rw [compactedTrees_eq]; exact List.mem_cons_self)
  have hroots : ∀ u ∈ compactedTrees input, u.rootPage = 0 := by
    intro u hu
    have hmem : u.rootPage ∈ (compactedTrees input).map (·.rootPage) := List.mem_map_of_mem hu
    rw [compactedTrees_eq] at hmem
    exact List.mem_singleton.mp hmem
  refine .inr ⟨t, ht, by rw [hroot]; exact List.mem_cons_self, ?_⟩
  refine ⟨⟨⟨"sqlite_master", "table", [0]⟩, by rw [hroot]; rfl, List.mem_cons_self⟩, ?_,
    fun u hu g hg => ?_, fun u hu hne => ?_, fun _ _ _ => rfl, fun v hv => ?_, rfl, ?_⟩
  · rw [hroot, groupIds_zero]
    exact List.nodup_singleton 0
  · rw [hroots u hu, groupIds_zero, List.mem_singleton] at hg
    rw [hg]
    exact Nat.one_pos
  · exact absurd ((hroots u hu).trans hroot.symm) hne
  · have hread : (coldRead input.cfg input.manifest input.backend 0).toOption = some page0 := by
      decide +kernel
    rw [hv] at hread
    cases hread
    rfl
  · show 8 + 2 * 512 ≤ 2 ^ 30
    decide

end Example

open BTreeCompaction.Example in
/-- Page 0 of the example is kept, page 1 is dropped. -/
theorem compact_keeps_live_page : ∃ out, compact input = .ok out ∧
    coldRead .plain out.manifest out.backend 0 = .ok page0 ∧
    out.manifest.pageLocation 1 = none := by
  obtain ⟨out, hout⟩ := exists_ok
    (show (compact input).toOption.isSome = true by decide +kernel)
  obtain ⟨-, hkeep, hdrop⟩ := compact_preserves_pages Codecs.plain_lawful (fun _ => compactable) hout
  have hread : coldRead input.cfg input.manifest input.backend 0 = .ok page0 := by decide +kernel
  refine ⟨out, hout, hkeep 0 (by decide) keeps_zero _ hread, ?_⟩
  refine hdrop (fun p hp => ?_) 1 ⟨0, 1⟩ rfl ?_ ?_
  · match p, hp with
    | 0, _ => rfl
    | 1, _ => rfl
  · obtain ⟨t, ht, hroot⟩ : ∃ t ∈ compactedTrees input, t.rootPage = 0 :=
      List.mem_map.mp (by rw [compactedTrees_eq]; exact List.mem_cons_self)
    exact ⟨t, ht, by rw [hroot]; exact List.mem_cons_self⟩
  · intro w hw
    obtain rfl := List.mem_singleton.mp hw
    decide

open BTreeCompaction.Example in
/-- A page of the freelist reads its bytes before the compaction and zeros after it. -/
theorem compact_drops_free_page : ∃ out, compact input = .ok out ∧
    coldRead .plain manifest backend 1 = .ok page1 ∧
    coldRead .plain out.manifest out.backend 1 = .ok (List.replicate 512 0) ∧
    page1 ≠ List.replicate 512 0 := by
  have hrun : (compact input).toOption.map (fun out =>
      (coldRead .plain out.manifest out.backend 1).toOption) = some (some (List.replicate 512 0)) := by
    decide +kernel
  obtain ⟨out, hout, hread⟩ := Option.map_eq_some_iff.mp hrun
  have hcompact : compact input = .ok out := by
    cases h : compact input with
    | error e =>
      rw [h] at hout
      cases hout
    | ok out' =>
      rw [h] at hout
      cases hout
      rfl
  have hzero : coldRead .plain out.manifest out.backend 1 = .ok (List.replicate 512 0) := by
    cases h : coldRead .plain out.manifest out.backend 1 with
    | error e =>
      rw [h] at hread
      cases hread
    | ok v =>
      rw [h] at hread
      cases hread
      rfl
  exact ⟨out, hcompact, by decide +kernel, hzero, by decide +kernel⟩

end BTreeCompaction

end Turbolite
