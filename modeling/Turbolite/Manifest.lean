import Mathlib.Data.List.AList
import Mathlib.Data.List.Sort
import Turbolite.Keys
import Turbolite.Lib.Blocks

/-!
# Turbolite.Manifest

The manifest (`manifest.rs`): where every page of the database lives in the backend. Only
`page_index` of the reverse indices is kept; the tree-name and sibling indices steer prefetch and
never decide which bytes a page has.
-/

namespace Turbolite

/-- A hash map as its entries; `AList.insert` replaces the entry of an equal key. -/
abbrev HMap (α : Type) (β : Type) := AList (fun _ : α => β)

/-! ### Data model -/

/-- Byte range of one frame inside a page-group object. -/
structure FrameEntry where
  offset : Nat
  len : Nat
  deriving DecidableEq, Repr

/-- An object that replaces one frame of a group. -/
structure SubframeOverride where
  key : ObjectKey
  entry : FrameEntry
  deriving DecidableEq, Repr

/-- How pages are assigned to groups. -/
inductive GroupingStrategy where
  | positional
  | bTreeAware
  deriving DecidableEq, Repr

/-- Group and slot of a page. -/
structure PageLocation where
  groupId : Nat
  index : Nat
  deriving DecidableEq, Repr

/-- One B-tree of the database and the groups that hold its pages. -/
structure BTreeManifestEntry where
  name : String
  objType : String
  groupIds : List Nat
  pages : List Nat
  deriving DecidableEq, Repr

/-- Replay floor, base anchor and lease epoch. -/
structure ReplayCursor where
  lastAppliedSeq : Nat := 0
  baseObjectChecksum : Bytes := []
  epoch : Nat := 0
  deriving DecidableEq, Repr

/-- `Manifest`. An empty string in `page_group_keys` is `none`. -/
structure Manifest where
  version : Nat := 0
  changeCounter : Nat := 0
  pageCount : Nat := 0
  pageSize : Nat := 0
  pagesPerGroup : Nat := 0
  pageGroupKeys : List (Option ObjectKey) := []
  interiorChunkKeys : HMap Nat ObjectKey := ∅
  indexChunkKeys : HMap Nat ObjectKey := ∅
  frameTables : List (List FrameEntry) := []
  subPagesPerFrame : Nat := 0
  subframeOverrides : List (HMap Nat SubframeOverride) := []
  strategy : GroupingStrategy := .positional
  groupPages : List (List Nat) := []
  btrees : HMap Nat BTreeManifestEntry := ∅
  pageIndex : HMap Nat PageLocation := ∅
  dbHeader : Option Bytes := none
  discontinuityStamp : Nat := 0
  cursor : ReplayCursor := {}
  writerId : String := ""
  deriving DecidableEq

namespace Manifest

/-- `Manifest::empty`. -/
def empty : Manifest := {}

/-- `total_groups_for`. -/
def totalGroupsFor (pageCount pagesPerGroup : Nat) : Nat :=
  if pagesPerGroup = 0 ∨ pageCount = 0 then 0 else Blocks.divCeil pageCount pagesPerGroup

/-- `total_groups`. -/
def totalGroups (m : Manifest) : Nat :=
  if m.groupPages = [] then totalGroupsFor m.pageCount m.pagesPerGroup else m.groupPages.length

/-- `(page, location)` for every slot of every group, in the order `build_page_index` inserts. -/
def slotEntries (groupPages : List (List Nat)) : List (Nat × PageLocation) :=
  groupPages.zipIdx.flatMap fun gp => gp.1.zipIdx.map fun pi => (pi.1, ⟨gp.2, pi.2⟩)

/-- The reverse index of explicit groups; a page listed twice keeps its last slot. -/
def pageIndexOf (groupPages : List (List Nat)) : HMap Nat PageLocation :=
  (slotEntries groupPages).foldl (fun idx e => idx.insert e.1 e.2) ∅

/-- `build_page_index`. -/
def buildPageIndex (m : Manifest) : Manifest :=
  let strategy := if m.groupPages ≠ [] then .bTreeAware else m.strategy
  match strategy with
  | .positional => { m with strategy := .positional, pageIndex := ∅ }
  | .bTreeAware => { m with strategy := .bTreeAware, pageIndex := pageIndexOf m.groupPages }

/-- `page_location`. -/
def pageLocation (m : Manifest) (pageNum : Nat) : Option PageLocation :=
  match m.strategy with
  | .positional =>
    if m.pagesPerGroup = 0 ∨ m.pageCount ≤ pageNum then none
    else some ⟨pageNum / m.pagesPerGroup, pageNum % m.pagesPerGroup⟩
  | .bTreeAware => m.pageIndex.lookup pageNum

/-- `group_page_nums`. -/
def groupPageNums (m : Manifest) (gid : Nat) : List Nat :=
  match m.strategy with
  | .positional =>
    let start := gid * m.pagesPerGroup
    List.range' start (min (start + m.pagesPerGroup) m.pageCount - start)
  | .bTreeAware => m.groupPages.getD gid []

/-- `normalize_overrides`. -/
def normalizeOverrides (m : Manifest) : Manifest :=
  { m with subframeOverrides := m.subframeOverrides ++
      List.replicate (m.pageGroupKeys.length - m.subframeOverrides.length) ∅ }

/-- `detect_and_normalize_strategy`. -/
def detectAndNormalizeStrategy (m : Manifest) : Manifest :=
  let strategy := if m.groupPages ≠ [] then .bTreeAware else m.strategy
  ({ m with strategy := strategy }).normalizeOverrides.buildPageIndex

/-- The key of a group, when it has one (`page_group_keys.get(gid)` and not empty). -/
def groupKey (m : Manifest) (gid : Nat) : Option ObjectKey := m.pageGroupKeys.getD gid none

theorem getElem?_pageGroupKeys {m : Manifest} {gid : Nat} {key : ObjectKey}
    (h : m.groupKey gid = some key) : m.pageGroupKeys[gid]? = some (some key) := by
  unfold groupKey at h
  rw [List.getD_eq_getElem?_getD] at h
  cases hg : m.pageGroupKeys[gid]? with
  | none => rw [hg] at h; cases h
  | some k => rw [hg] at h; exact congrArg some h

/-- The frame table of a group; empty when missing. -/
def frameTable (m : Manifest) (gid : Nat) : List FrameEntry := m.frameTables.getD gid []

/-- The overrides of a group; none when missing. -/
def overrides (m : Manifest) (gid : Nat) : HMap Nat SubframeOverride :=
  m.subframeOverrides.getD gid ∅

/-! ### Field ranges -/

/-- `is_valid_page_size`: a power of two between 512 and 65536. -/
def isValidPageSize (ps : Nat) : Bool := ps ∈ [512, 1024, 2048, 4096, 8192, 16384, 32768, 65536]

/-- `validate_field_ranges`, with the texts of its errors. -/
def validateFieldRanges (m : Manifest) : IoResult Unit :=
  if m.pageSize ≠ 0 ∧ ¬ isValidPageSize m.pageSize then
    .error (.io .invalidData s!"invalid manifest page_size: {m.pageSize}")
  else if m.pagesPerGroup > 16384 then
    .error (.io .invalidData s!"pages_per_group {m.pagesPerGroup} exceeds 16384")
  else if m.pageCount > (2 ^ 64 - 1) / 65536 then
    .error (.io .invalidData s!"page_count {m.pageCount} exceeds allowed maximum")
  else if m.frameTables.length > m.pageGroupKeys.length then
    .error (.io .invalidData "frame_tables length exceeds page_group_keys length")
  else if m.subframeOverrides.length > m.pageGroupKeys.length then
    .error (.io .invalidData "subframe_overrides length exceeds page_group_keys length")
  else if m.groupPages.length > m.pageGroupKeys.length then
    .error (.io .invalidData "group_pages length exceeds page_group_keys length")
  else .ok ()

/-! ### Dirty frames -/

/-- `dirty_frames_for_group`: the frames that hold a dirty page, ascending, also past the end of the
base frame table. -/
def dirtyFramesForGroup (dirtyPageNums groupPages : List Nat) (frameTable : List FrameEntry)
    (subPagesPerFrame : Nat) : List Nat :=
  if subPagesPerFrame = 0 ∨ frameTable = [] then []
  else
    ((dirtyPageNums.filter (· ∈ groupPages)).map
      (fun p => groupPages.idxOf p / subPagesPerFrame)).dedup.insertionSort (· ≤ ·)

/-! ### Maps from pairs -/

/-- `collect` into a map. -/
def collectPairs {β : Type} (ps : List (Nat × β)) : HMap Nat β :=
  ps.foldl (fun h p => h.insert p.1 p.2) ∅

/-- Pairs with distinct keys replace what the map had under them. -/
theorem lookup_foldl_insert_iff {β : Type} {ps : List (Nat × β)} {h : HMap Nat β}
    (hnd : (ps.map (·.1)).Nodup) {k : Nat} {v : β} :
    (ps.foldl (fun h p => h.insert p.1 p.2) h).lookup k = some v ↔
      (k, v) ∈ ps ∨ (k ∉ ps.map (·.1) ∧ h.lookup k = some v) := by
  induction ps generalizing h with
  | nil => simp
  | cons p ps ih =>
    obtain ⟨hp, hnd'⟩ := List.nodup_cons.mp (List.map_cons ▸ hnd)
    rw [List.foldl_cons, ih hnd']
    by_cases hk : k = p.1
    · subst hk
      -- the key is not seen again
      have hmem : (p.1, v) ∈ ps ↔ False :=
        iff_false_intro fun hm => hp (List.mem_map.mpr ⟨_, hm, rfl⟩)
      rw [AList.lookup_insert, List.mem_cons, List.map_cons, List.mem_cons, hmem]
      constructor
      · rintro (hf | ⟨-, hv⟩)
        · exact hf.elim
        · exact .inl (.inl (by rw [← Option.some.inj hv]))
      · rintro ((heq | hf) | ⟨hn, -⟩)
        · exact .inr ⟨hp, by rw [← heq]⟩
        · exact hf.elim
        · exact absurd (.inl rfl) hn
    · rw [AList.lookup_insert_ne hk, List.mem_cons, List.map_cons, List.mem_cons]
      have hne : (k, v) ≠ p := fun he => hk (congrArg Prod.fst he)
      simp [hne, hk]

theorem lookup_collectPairs {β : Type} {ps : List (Nat × β)} (hnd : (ps.map (·.1)).Nodup) {k : Nat}
    {v : β} : (collectPairs ps).lookup k = some v ↔ (k, v) ∈ ps := by
  simp [collectPairs, lookup_foldl_insert_iff hnd]

/-! ### The reverse index -/

theorem lookup_foldl_insert {es : List (Nat × PageLocation)} {idx : HMap Nat PageLocation} {p : Nat}
    {loc : PageLocation}
    (h : (es.foldl (fun idx e => idx.insert e.1 e.2) idx).lookup p = some loc) :
    (p, loc) ∈ es ∨ idx.lookup p = some loc := by
  induction es generalizing idx with
  | nil => exact .inr h
  | cons e es ih =>
    rcases ih h with hmem | hidx
    · exact .inl (List.mem_cons_of_mem e hmem)
    · by_cases hp : p = e.1
      · subst hp
        rw [AList.lookup_insert] at hidx
        cases hidx
        exact .inl (List.mem_cons_self ..)
      · rw [AList.lookup_insert_ne hp] at hidx
        exact .inr hidx

theorem lookup_foldl_insert_isSome {es : List (Nat × PageLocation)} {idx : HMap Nat PageLocation}
    {p : Nat} (h : p ∈ es.map (·.1) ∨ (idx.lookup p).isSome) :
    ((es.foldl (fun idx e => idx.insert e.1 e.2) idx).lookup p).isSome := by
  induction es generalizing idx with
  | nil =>
    rcases h with h | h
    · cases h
    · exact h
  | cons e es ih =>
    refine ih ?_
    by_cases hp : p = e.1
    · right
      rw [hp, AList.lookup_insert]; rfl
    · rw [AList.lookup_insert_ne hp]
      rcases h with h | h
      · rcases List.mem_cons.mp h with h | h
        · exact absurd h hp
        · exact .inl h
      · exact .inr h

theorem mem_slotEntries {gps : List (List Nat)} {p g i : Nat} :
    (p, (⟨g, i⟩ : PageLocation)) ∈ slotEntries gps ↔ (gps.getD g [])[i]? = some p := by
  simp only [slotEntries, List.mem_flatMap, List.mem_map, List.mem_zipIdx_iff_getElem?,
    Prod.exists, Prod.mk.injEq, PageLocation.mk.injEq, List.getD_eq_getElem?_getD]
  constructor
  · rintro ⟨pages, g', hg, q, j, hj, rfl, rfl, rfl⟩
    rw [hg]
    exact hj
  · intro h
    cases hg : gps[g]? with
    | none => rw [hg] at h; cases h
    | some pages =>
      rw [hg] at h
      exact ⟨pages, g, hg, p, i, h, rfl, rfl, rfl⟩

/-- Every location of the index is a slot that holds the page. -/
theorem pageIndexOf_sound {gps : List (List Nat)} {p g i : Nat}
    (h : (pageIndexOf gps).lookup p = some ⟨g, i⟩) : (gps.getD g [])[i]? = some p := by
  rcases lookup_foldl_insert h with hmem | hnone
  · exact mem_slotEntries.mp hmem
  · simp at hnone

/-- Every page of a group has a location. -/
theorem pageIndexOf_complete {gps : List (List Nat)} {p g i : Nat}
    (h : (gps.getD g [])[i]? = some p) : ((pageIndexOf gps).lookup p).isSome :=
  lookup_foldl_insert_isSome (.inl (List.mem_map.mpr ⟨_, mem_slotEntries.mpr h, rfl⟩))

end Manifest

end Turbolite
