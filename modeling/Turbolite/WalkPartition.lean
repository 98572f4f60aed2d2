import Turbolite.Lib.SearchOrder
import Turbolite.PageWalk

/-!
# Turbolite.WalkPartition

The walks of `walk_all_btrees` over any `read_page`, and when they split the pages of the file.

A child pointer or a schema root is followed to any page that can be read; only an overflow page has to be
below the page count. Pages that two trees lead to are owned by both. `walkAllBtrees_ends` holds of any
`read_page`: the walk ends, and when it fails a number did not fit.
-/

namespace Turbolite

open Blocks Results Turbolite.Partition

namespace PageWalk

open BTreeWalker (cellOffsets cellCount MasterEntry rootsOf insertTree Trees)
open Search (State)

/-! ### The walks -/

/-- More than there are page numbers of 32 bits, and one for the root. -/
@[irreducible] def steps : Nat := 2 ^ 32 + 2

section

variable (read : Nat → Option Bytes) (pageSize pageCount : Nat) (fromUtf8Lossy : Bytes → String)

/-- `collect_leaf_pages_inner`: the leaves so far and the pages seen. -/
def collectLeafPagesInner : Nat → Nat → List Nat × List Nat → WalkResult (List Nat × List Nat)
  | 0, _, _ => .error .running
  | fuel + 1, page, (leaves, visited) =>
    if page ∈ visited then .ok (leaves, visited)
    else
      match read page with
      | none => .ok (leaves, page :: visited)
      | some buf =>
        let hdrOff := btreeHeaderOffset page
        if buf.length < hdrOff + 1 then .ok (leaves, page :: visited)
        else do
          let typeByte ← byteAt buf hdrOff
          if typeByte = 0x05 then do
            let children ← extractInteriorChildren buf hdrOff
            children.foldlM (fun acc child =>
              if child = 0 then .ok acc else collectLeafPagesInner fuel (child - 1) acc)
              (leaves, page :: visited)
          else if typeByte = 0x0D then .ok (leaves ++ [page], page :: visited)
          else .ok (leaves, page :: visited)

/-- `collect_leaf_pages`. -/
def collectLeafPages (root : Nat) : WalkResult (List Nat) := do
  let acc ← collectLeafPagesInner read steps root ([], [])
  .ok acc.1

/-- The rows of one leaf. -/
def leafEntries (page : Nat) : WalkResult (List MasterEntry) :=
  match read page with
  | none => .ok []
  | some buf =>
    let hdrOff := btreeHeaderOffset page
    if buf.length < hdrOff + 8 then .ok []
    else do
      let typeByte ← byteAt buf hdrOff
      if typeByte ≠ 0x0D then .ok []
      else do
        let cellCount ← u16At buf (hdrOff + 3)
        cellLoop buf (hdrOff + 8) (parseMasterCell fromUtf8Lossy buf) (List.range cellCount)

/-- `parse_sqlite_master`. -/
def parseSqliteMaster : WalkResult (List MasterEntry) := do
  let leafPages ← collectLeafPages read 0
  let entries ← leafPages.mapM (leafEntries read fromUtf8Lossy)
  .ok entries.flatten

/-- A child pointer, 1-based. -/
def enqueueChild (st : State Nat) (child : Nat) : State Nat :=
  if child = 0 then st else st.enqueue (child - 1)

/-- An overflow chain from `ovfl` on. -/
def followOverflow : Nat → Nat → State Nat → WalkResult (State Nat)
  | 0, _, _ => .error .running
  | fuel + 1, ovfl, st =>
    if ovfl ∈ st.visited ∨ pageCount ≤ ovfl then .ok st
    else
      match read ovfl with
      | none => .ok st
      | some buf =>
        let st := { st with visited := ovfl :: st.visited, found := st.found ++ [ovfl] }
        if buf.length < 4 then .ok st
        else do
          let next ← u32At buf 0
          if next = 0 then .ok st else followOverflow fuel (next - 1) st

/-- One page from the queue; `found` are the `pages` of the tree. -/
def visitPage (page : Nat) (st : State Nat) : WalkResult (State Nat) :=
  match read page with
  | none => .ok st
  | some buf =>
    let st := { st with found := st.found ++ [page] }
    let hdrOff := btreeHeaderOffset page
    if buf.length < hdrOff + 12 then .ok st
    else do
      let typeByte ← byteAt buf hdrOff
      if typeByte = 0x02 ∨ typeByte = 0x05 then do
        let children ← extractInteriorChildren buf hdrOff
        .ok (children.foldl enqueueChild st)
      else if typeByte = 0x0A ∨ typeByte = 0x0D then do
        let overflowPages ← extractLeafOverflowPages buf hdrOff pageSize (typeByte = 0x0D)
        overflowPages.foldlM (fun st ovfl =>
          if ovfl = 0 then .ok st else followOverflow read pageCount steps (ovfl - 1) st) st
      else .ok st

/-- The loop over the queue. -/
def walkLoop : Nat → State Nat → WalkResult (State Nat)
  | 0, _ => .error .running
  | fuel + 1, st =>
    match st.queue with
    | [] => .ok st
    | page :: rest => do
      let st ← visitPage read pageSize pageCount page { st with queue := rest }
      walkLoop fuel st

/-- `walk_btree`. -/
def walkBtree (root : Nat) : WalkResult (List Nat) := do
  let st ← walkLoop read pageSize pageCount steps { queue := [root], visited := [root] }
  .ok (st.found.insertionSort (· ≤ ·))

/-- One schema row: its tree, and the pages owned so far. -/
def walkEntry (acc : List (Nat × BTreeEntry) × List Nat) (e : MasterEntry) :
    WalkResult (List (Nat × BTreeEntry) × List Nat) :=
  if e.rootPage = 0 then .ok acc
  else do
    let pages ← walkBtree read pageSize pageCount (e.rootPage - 1)
    .ok (insertTree acc.1 (e.rootPage - 1) ⟨e.name, e.objType, pages⟩, acc.2 ++ pages)

/-- `walk_all_btrees`. -/
def walkAllBtrees : WalkResult Walk := do
  let entries ← parseSqliteMaster read fromUtf8Lossy
  let master ← walkBtree read pageSize pageCount 0
  let (trees, owned) ← entries.foldlM (walkEntry read pageSize pageCount)
    ([(0, ⟨"sqlite_master", "table", master⟩)], master)
  .ok ⟨trees, (List.range pageCount).filter (· ∉ owned)⟩

/-! ### The graph of the pages -/

/-- The pages that pointers lead to; a null pointer leads nowhere. -/
def targets (ptrs : List Nat) : List Nat := (ptrs.filter (· ≠ 0)).map (· - 1)

/-- The children of a page and the first pages of the overflow chains of its cells. -/
def pageLinks (page : Nat) (buf : Bytes) : WalkResult (List Nat × List Nat) :=
  let hdrOff := btreeHeaderOffset page
  if buf.length < hdrOff + 12 then .ok ([], [])
  else do
    let typeByte ← byteAt buf hdrOff
    if typeByte = 0x02 ∨ typeByte = 0x05 then do
      let children ← extractInteriorChildren buf hdrOff
      .ok (targets children, [])
    else if typeByte = 0x0A ∨ typeByte = 0x0D then do
      let overflowPages ← extractLeafOverflowPages buf hdrOff pageSize (typeByte = 0x0D)
      .ok ([], targets overflowPages)
    else .ok ([], [])

/-- The pages as a graph: children are branches, overflow pages are chains. -/
def pageGraph : Search.Graph WalkError Nat where
  present page := (read page).isSome
  links page :=
    match read page with
    | none => .ok ([], [])
    | some buf => pageLinks pageSize page buf
  admits page := page < pageCount
  next page :=
    match read page with
    | none => none
    | some buf => if buf.length < 4 ∨ beU32At buf 0 = 0 then none else some (beU32At buf 0 - 1)

end

section

variable {read : Nat → Option Bytes} {pageSize pageCount : Nat}

theorem mem_targets {ptrs : List Nat} {page : Nat} :
    page ∈ targets ptrs ↔ ∃ ptr ∈ ptrs, ptr ≠ 0 ∧ ptr - 1 = page := by
  simp [targets, and_assoc]

theorem foldl_enqueueChild (ptrs : List Nat) (st : State Nat) :
    ptrs.foldl enqueueChild st = (targets ptrs).foldl State.enqueue st := by
  induction ptrs generalizing st with
  | nil => rfl
  | cons ptr ptrs ih =>
    rw [List.foldl_cons, ih]
    by_cases hptr : ptr = 0
    · simp [targets, enqueueChild, hptr]
    · simp [targets, enqueueChild, hptr]

theorem foldlM_targets {α : Type} (f : α → Nat → WalkResult α) (ptrs : List Nat) (a : α) :
    ptrs.foldlM (fun a ptr => if ptr = 0 then .ok a else f a (ptr - 1)) a = (targets ptrs).foldlM f a := by
  induction ptrs generalizing a with
  | nil => rfl
  | cons ptr ptrs ih =>
    rw [List.foldlM_cons]
    by_cases hptr : ptr = 0
    · rw [if_pos hptr, ok_bind, ih]
      simp [targets, hptr]
    · rw [if_neg hptr]
      have hcons : targets (ptr :: ptrs) = (ptr - 1) :: targets ptrs := by simp [targets, hptr]
      rw [hcons, List.foldlM_cons]
      exact bind_congr ih

theorem followOverflow_eq_follow (pageSize fuel ovfl : Nat) (st : State Nat) :
    followOverflow read pageCount fuel ovfl st =
      Search.follow (pageGraph read pageSize pageCount) .running fuel ovfl st := by
  induction fuel generalizing ovfl st with
  | zero => rfl
  | succ fuel ih =>
    unfold followOverflow Search.follow
    cases hread : read ovfl with
    | none =>
      have hshut : ovfl ∈ st.visited ∨ (pageGraph read pageSize pageCount).admits ovfl = false ∨
          (pageGraph read pageSize pageCount).present ovfl = false := by
        refine .inr (.inr ?_)
        show (read ovfl).isSome = false
        rw [hread]
        rfl
      rw [if_pos hshut]
      split
      · rfl
      · rfl
    | some buf =>
      have hiff : (ovfl ∈ st.visited ∨ (pageGraph read pageSize pageCount).admits ovfl = false ∨
          (pageGraph read pageSize pageCount).present ovfl = false) ↔
          (ovfl ∈ st.visited ∨ pageCount ≤ ovfl) := by
        simp [pageGraph, hread]
      by_cases hstop : ovfl ∈ st.visited ∨ pageCount ≤ ovfl
      · rw [if_pos hstop, if_pos (hiff.mpr hstop)]
      · rw [if_neg hstop, if_neg (mt hiff.mp hstop)]
        have hnext : (pageGraph read pageSize pageCount).next ovfl =
            if buf.length < 4 ∨ beU32At buf 0 = 0 then none else some (beU32At buf 0 - 1) := by
          simp only [pageGraph, hread]
        rw [hnext]
        by_cases hlen : buf.length < 4
        · simp only [if_pos hlen, if_pos (Or.inl hlen : buf.length < 4 ∨ beU32At buf 0 = 0)]
          rfl
        · simp only [if_neg hlen, u32At_of_le (Nat.not_lt.mp hlen : 0 + 4 ≤ buf.length), ok_bind]
          by_cases hzero : beU32At buf 0 = 0
          · simp only [if_pos hzero, if_pos (Or.inr hzero : buf.length < 4 ∨ beU32At buf 0 = 0)]
            rfl
          · rw [if_neg hzero, if_neg (not_or.mpr ⟨hlen, hzero⟩)]
            exact ih _ _

theorem visitPage_eq_visit (page : Nat) (st : State Nat) :
    visitPage read pageSize pageCount page st =
      Search.visit (pageGraph read pageSize pageCount) .running steps page st := by
  unfold visitPage Search.visit
  cases hread : read page with
  | none =>
    have habs : (pageGraph read pageSize pageCount).present page = false := by
      show (read page).isSome = false
      rw [hread]
      rfl
    rw [if_pos habs]
  | some buf =>
    have hpres : ¬ (pageGraph read pageSize pageCount).present page = false := by
      simp [pageGraph, hread]
    have hlinks : (pageGraph read pageSize pageCount).links page = pageLinks pageSize page buf := by
      simp only [pageGraph, hread]
    rw [if_neg hpres, hlinks]
    unfold pageLinks
    dsimp only
    split
    · rfl
    · cases byteAt buf (btreeHeaderOffset page) with
      | error e => rfl
      | ok typeByte =>
        rw [ok_bind, ok_bind]
        split
        · cases extractInteriorChildren buf (btreeHeaderOffset page) with
          | error e => rfl
          | ok children => exact congrArg Except.ok (foldl_enqueueChild children _)
        · split
          · cases extractLeafOverflowPages buf (btreeHeaderOffset page) pageSize (typeByte = 0x0D) with
            | error e => rfl
            | ok ptrs =>
              refine (foldlM_targets (fun st ovfl => followOverflow read pageCount steps ovfl st)
                ptrs _).trans ?_
              simp only [followOverflow_eq_follow pageSize]
              rfl
          · rfl

theorem walkLoop_eq_loop (fuel : Nat) (st : State Nat) :
    walkLoop read pageSize pageCount fuel st =
      Search.loop (pageGraph read pageSize pageCount) .running steps fuel st := by
  induction fuel generalizing st with
  | zero => rfl
  | succ fuel ih =>
    unfold walkLoop Search.loop
    cases st.queue with
    | nil => rfl
    | cons page rest =>
      simp only [visitPage_eq_visit]
      exact bind_congr ih

/-- The walk of a tree is a search from its root. -/
theorem walkBtree_eq_search (root : Nat) :
    walkBtree read pageSize pageCount root =
      (Search.search (pageGraph read pageSize pageCount) .running steps root >>= fun found =>
        .ok (found.insertionSort (· ≤ ·))) := by
  unfold walkBtree Search.search
  rw [walkLoop_eq_loop]
  cases Search.loop (pageGraph read pageSize pageCount) .running steps steps
    { queue := [root], visited := [root] } with
  | error e => rfl
  | ok st => rfl

/-! ### The links of a page -/

theorem btreeHeaderOffset_le (page : Nat) : btreeHeaderOffset page ≤ 100 := by
  unfold btreeHeaderOffset
  split
  · exact Nat.le_refl _
  · exact Nat.zero_le _

/-- The arithmetic on a page fits. -/
def PageFits (pageSize page : Nat) (buf : Bytes) : Prop :=
  btreeHeaderOffset page + 12 ≤ buf.length →
    (buf[btreeHeaderOffset page]? = some 0x0A →
      LeafFits pageSize buf (btreeHeaderOffset page) false) ∧
    (buf[btreeHeaderOffset page]? = some 0x0D →
      LeafFits pageSize buf (btreeHeaderOffset page) true)

theorem pageLinks_fits (hsize : pageSize < 2 ^ 32) (page : Nat) (buf : Bytes) :
    Fits (pageLinks pageSize page buf) (PageFits pageSize page buf) := by
  have hhdr := btreeHeaderOffset_le page
  unfold pageLinks PageFits
  generalize btreeHeaderOffset page = hdrOff at hhdr ⊢
  dsimp only
  split
  · rename_i hshort
    exact .of_ok _ fun hlen => absurd hlen (Nat.not_le.mpr hshort)
  · rename_i hlen
    have hlen : hdrOff + 12 ≤ buf.length := Nat.not_lt.mp hlen
    have hbyte : buf[hdrOff]? = some buf[hdrOff] := List.getElem?_eq_getElem (by omega)
    rw [byteAt_of_lt (by omega), ok_bind, hbyte]
    generalize buf[hdrOff] = typeByte
    split
    · rename_i hint
      rw [extractInteriorChildren_eq hhdr, ok_bind]
      refine .of_ok _ fun _ => ?_
      cases hint with
      | inl heq => exact ⟨fun h => by simp [heq] at h, fun h => by simp [heq] at h⟩
      | inr heq => exact ⟨fun h => by simp [heq] at h, fun h => by simp [heq] at h⟩
    · split
      · rename_i hleaf
        have hfits : Fits (extractLeafOverflowPages buf hdrOff pageSize (typeByte = 0x0D)) _ :=
          extractLeafOverflowPages_fits hsize hhdr (by omega)
        refine (hfits.bind fun ptrs => ⟨([], targets ptrs), rfl⟩).congr ?_
        cases hleaf with
        | inl heq =>
          subst heq
          simp [hlen]
        | inr heq =>
          subst heq
          simp [hlen]
      · rename_i hleaf
        obtain ⟨hindex, htable⟩ := not_or.mp hleaf
        refine .of_ok _ fun _ => ⟨fun h => ?_, fun h => ?_⟩
        · exact absurd (Option.some.inj h) hindex
        · exact absurd (Option.some.inj h) htable

theorem lt_of_mem_targets {ptrs : List Nat} (h : ∀ ptr ∈ ptrs, ptr - 1 < 2 ^ 32) :
    ∀ page ∈ targets ptrs, page ∈ Finset.range (2 ^ 32) := by
  intro page hpage
  obtain ⟨ptr, hptr, -, rfl⟩ := mem_targets.mp hpage
  exact Finset.mem_range.mpr (h ptr hptr)

/-- All pointers have 32 bits. -/
theorem pageGraph_within (read : Nat → Option Bytes) (pageSize pageCount : Nat) :
    (pageGraph read pageSize pageCount).Within (Finset.range (2 ^ 32)) where
  links page bs cs h := by
    have hnone : ∀ p : Nat, p ∈ ([] : List Nat) → p ∈ Finset.range (2 ^ 32) :=
      fun p hp => absurd hp List.not_mem_nil
    simp only [pageGraph] at h
    split at h
    · cases h
      exact ⟨hnone, hnone⟩
    · rename_i buf hread
      have hhdr := btreeHeaderOffset_le page
      unfold pageLinks at h
      dsimp only at h
      split at h
      · cases h
        exact ⟨hnone, hnone⟩
      · obtain ⟨typeByte, -, h⟩ := bind_eq_ok.mp h
        split at h
        · rw [extractInteriorChildren_eq hhdr, ok_bind] at h
          cases h
          exact ⟨lt_of_mem_targets fun ptr => BTreeWalker.lt_of_mem_extractInteriorChildren, hnone⟩
        · split at h
          · obtain ⟨ptrs, hptrs, h⟩ := bind_eq_ok.mp h
            cases h
            refine ⟨hnone, lt_of_mem_targets fun ptr hptr => lt_of_le_of_lt (Nat.sub_le _ _) ?_⟩
            exact lt_of_mem_extractLeafOverflowPages hhdr hptrs ptr hptr
          · cases h
            exact ⟨hnone, hnone⟩
  next page p h := by
    simp only [pageGraph] at h
    split at h
    · cases h
    · split at h
      · cases h
      · cases h
        exact Finset.mem_range.mpr (BTreeWalker.beU32At_sub_one_lt ..)

/-! ### One tree -/

/-- `order` says how and when `walk_btree` meets a page first: the children of a page and the overflow chains
of its cells in their order, a chain to its end, and no page again. -/
abbrev Ranks (read : Nat → Option Bytes) (pageSize pageCount root : Nat) (order : Search.Order Nat) : Prop :=
  (pageGraph read pageSize pageCount).Ranking root order

variable {root : Nat} {pages : List Nat} {order : Search.Order Nat}

theorem walkBtree_eq_ok (h : walkBtree read pageSize pageCount root = .ok pages) : ∃ found,
    Search.search (pageGraph read pageSize pageCount) .running steps root = .ok found ∧
      pages.Perm found := by
  rw [walkBtree_eq_search] at h
  obtain ⟨found, hfound, h⟩ := bind_eq_ok.mp h
  cases h
  exact ⟨found, hfound, List.perm_insertionSort ..⟩

theorem walkBtree_nodup (h : walkBtree read pageSize pageCount root = .ok pages) : pages.Nodup := by
  obtain ⟨found, hfound, hperm⟩ := walkBtree_eq_ok h
  exact hperm.nodup_iff.mpr (Search.search_nodup hfound)

/-- The pages of a tree are those the order ranks, but for the missing ones. -/
theorem mem_walkBtree_iff (h : walkBtree read pageSize pageCount root = .ok pages)
    (hr : Ranks read pageSize pageCount root order) {page : Nat} :
    page ∈ pages ↔ (read page).isSome ∧ (order page).isSome := by
  obtain ⟨found, hfound, hperm⟩ := walkBtree_eq_ok h
  rw [hperm.mem_iff]
  exact Search.mem_search_iff hfound hr

theorem links_of_read {page : Nat} {buf : Bytes} (h : read page = some buf) :
    (pageGraph read pageSize pageCount).links page = pageLinks pageSize page buf := by
  simp only [pageGraph, h]

/-- A walk that succeeds met the pages in an order and did the arithmetic on every child. -/
theorem walkBtree_ranks (hsize : pageSize < 2 ^ 32)
    (h : walkBtree read pageSize pageCount root = .ok pages) :
    ∃ order, Ranks read pageSize pageCount root order ∧
      ∀ page t buf, order page = some (.branch, t) → read page = some buf → PageFits pageSize page buf := by
  obtain ⟨found, hfound, -⟩ := walkBtree_eq_ok h
  obtain ⟨order, hr, -, hlinks⟩ := Search.search_ranking hfound
  refine ⟨order, hr, fun page t buf hpage hread => ?_⟩
  have hpres : (pageGraph read pageSize pageCount).present page = true := by
    simp [pageGraph, hread]
  obtain ⟨links, hlinks⟩ := hlinks page t hpage hpres
  rw [links_of_read hread] at hlinks
  exact (pageLinks_fits hsize page buf).ok_iff.mp ⟨links, hlinks⟩

/-- The walk of a tree ends; it fails when the arithmetic on a child overflows. -/
theorem walkBtree_ends (read : Nat → Option Bytes) (pageCount : Nat) (hsize : pageSize < 2 ^ 32)
    (root : Nat) :
    (∃ pages, walkBtree read pageSize pageCount root = .ok pages) ∨
      walkBtree read pageSize pageCount root = .error .overflow ∧
        ∀ order, Ranks read pageSize pageCount root order →
          ∃ page t buf, order page = some (.branch, t) ∧ read page = some buf ∧
            ¬ PageFits pageSize page buf := by
  have hsteps : (Finset.range (2 ^ 32)).card + 1 < steps := by
    rw [Finset.card_range]
    unfold steps
    omega
  rw [walkBtree_eq_search]
  cases Search.search_ends .running root (pageGraph_within read pageSize pageCount) hsteps with
  | inl hok =>
    obtain ⟨found, hfound⟩ := hok
    rw [hfound, ok_bind]
    exact .inl ⟨_, rfl⟩
  | inr herr =>
    obtain ⟨page, e, hpres, hlinks, hsearch, hranked⟩ := herr
    obtain ⟨buf, hread⟩ : ∃ buf, read page = some buf := Option.isSome_iff_exists.mp hpres
    rw [links_of_read hread] at hlinks
    have hfits := pageLinks_fits hsize page buf
    have hnot : ¬ PageFits pageSize page buf := by
      intro hp
      obtain ⟨links, hok⟩ := hfits.1 hp
      rw [hlinks] at hok
      cases hok
    have he : e = .overflow := by
      have hover := hfits.2 hnot
      rw [hlinks] at hover
      exact Except.error.inj hover
    rw [hsearch, error_bind, he]
    refine .inr ⟨rfl, fun order hr => ?_⟩
    obtain ⟨t, hpage⟩ := hranked order hr
    exact ⟨page, t, buf, hpage, hread, hnot⟩

end

/-! ### The schema -/

/-- The pages of `sqlite_master`, along the interior table pages. -/
inductive SchemaPage (read : Nat → Option Bytes) : Nat → Prop
  | root : SchemaPage read 0
  | child {page child : Nat} {buf : Bytes} : SchemaPage read page → read page = some buf →
      buf[btreeHeaderOffset page]? = some 0x05 →
      child ∈ targets (BTreeWalker.extractInteriorChildren buf (btreeHeaderOffset page)) →
      SchemaPage read child

/-- The page can be read and is a table leaf. -/
def IsTableLeaf (read : Nat → Option Bytes) (page : Nat) : Prop :=
  ∃ buf, read page = some buf ∧ buf[btreeHeaderOffset page]? = some 0x0D

/-- A cell of a table leaf. -/
def LeafCell (read : Nat → Option Bytes) (page : Nat) (buf : Bytes) (off : Nat) : Prop :=
  read page = some buf ∧ buf[btreeHeaderOffset page]? = some 0x0D ∧
    btreeHeaderOffset page + 8 ≤ buf.length ∧
    off ∈ cellOffsets buf (btreeHeaderOffset page + 8) (cellCount buf (btreeHeaderOffset page))

/-- A cell of a leaf of `sqlite_master`. -/
def SchemaCell (read : Nat → Option Bytes) (buf : Bytes) (off : Nat) : Prop :=
  ∃ page, SchemaPage read page ∧ LeafCell read page buf off

/-- The children of every interior page in `pages` are in `visited`. -/
def ChildrenIn (read : Nat → Option Bytes) (pages visited : List Nat) : Prop :=
  ∀ page ∈ pages, ∀ buf, read page = some buf → buf[btreeHeaderOffset page]? = some 0x05 →
    ∀ child ∈ targets (BTreeWalker.extractInteriorChildren buf (btreeHeaderOffset page)), child ∈ visited

section

variable {read : Nat → Option Bytes}

/-- The pages seen belong to the schema, and the leaves are those of the pages seen. -/
structure Collected (read : Nat → Option Bytes) (acc : List Nat × List Nat) : Prop where
  schema : ∀ page ∈ acc.2, SchemaPage read page
  leaves : ∀ page, page ∈ acc.1 ↔ page ∈ acc.2 ∧ IsTableLeaf read page

/-- What entering a page does: it and all pages newly seen with it have their children seen. -/
structure Collects (read : Nat → Option Bytes) (acc acc' : List Nat × List Nat) : Prop where
  collected : Collected read acc'
  subset : acc.2 ⊆ acc'.2
  children : ∀ page ∈ acc'.2, page ∉ acc.2 → ChildrenIn read [page] acc'.2

theorem Collects.refl {acc : List Nat × List Nat} (h : Collected read acc) : Collects read acc acc where
  collected := h
  subset := List.Subset.refl _
  children _ hpage hnew := absurd hpage hnew

theorem ChildrenIn.mono {pages visited visited' : List Nat} (h : ChildrenIn read pages visited)
    (hsub : visited ⊆ visited') : ChildrenIn read pages visited' :=
  fun page hpage buf hread htype child hchild => hsub (h page hpage buf hread htype child hchild)

theorem Collects.trans {acc acc₁ acc₂ : List Nat × List Nat} (h₁ : Collects read acc acc₁)
    (h₂ : Collects read acc₁ acc₂) : Collects read acc acc₂ where
  collected := h₂.collected
  subset := List.Subset.trans h₁.subset h₂.subset
  children page hpage hnew := by
    by_cases hmem : page ∈ acc₁.2
    · exact (h₁.children page hmem hnew).mono h₂.subset
    · exact h₂.children page hpage hmem

theorem fresh_lt_steps (visited : List Nat) :
    Search.fresh (Finset.range (2 ^ 32)) visited < steps := by
  have hle : Search.fresh (Finset.range (2 ^ 32)) visited ≤ (Finset.range (2 ^ 32)).card :=
    Finset.card_le_card Finset.sdiff_subset
  rw [Finset.card_range] at hle
  unfold steps
  omega

/-- The children of a page, one after the other. -/
theorem collect_children {f : Nat → List Nat × List Nat → WalkResult (List Nat × List Nat)} {n : Nat}
    (hf : ∀ page acc, SchemaPage read page → page < 2 ^ 32 → Collected read acc →
      Search.fresh (Finset.range (2 ^ 32)) acc.2 < n →
        ∃ acc', f page acc = .ok acc' ∧ Collects read acc acc' ∧ page ∈ acc'.2)
    {pages : List Nat} (hpages : ∀ page ∈ pages, SchemaPage read page ∧ page < 2 ^ 32)
    {acc : List Nat × List Nat} (hacc : Collected read acc)
    (hn : Search.fresh (Finset.range (2 ^ 32)) acc.2 < n) :
    ∃ acc', pages.foldlM (fun acc page => f page acc) acc = .ok acc' ∧ Collects read acc acc' ∧
      ∀ page ∈ pages, page ∈ acc'.2 := by
  induction pages generalizing acc with
  | nil => exact ⟨acc, rfl, .refl hacc, fun page hpage => absurd hpage List.not_mem_nil⟩
  | cons page pages ih =>
    obtain ⟨hschema, hlt⟩ := hpages page (List.mem_cons_self ..)
    obtain ⟨acc₁, hacc₁, hcol₁, hmem⟩ := hf page acc hschema hlt hacc hn
    have hn₁ : Search.fresh (Finset.range (2 ^ 32)) acc₁.2 < n :=
      lt_of_le_of_lt (Search.fresh_anti hcol₁.subset) hn
    obtain ⟨acc₂, hacc₂, hcol₂, hall⟩ :=
      ih (fun p hp => hpages p (List.mem_cons_of_mem page hp)) hcol₁.collected hn₁
    refine ⟨acc₂, bind_eq_ok.mpr ⟨acc₁, hacc₁, hacc₂⟩, hcol₁.trans hcol₂, ?_⟩
    intro p hp
    cases List.mem_cons.mp hp with
    | inl heq => exact heq ▸ hcol₂.subset hmem
    | inr hp => exact hall p hp

/-- A page that was not seen yet and leads nowhere. -/
theorem Collected.see {leaves visited leaves' : List Nat} {page : Nat}
    (h : Collected read (leaves, visited)) (hpage : SchemaPage read page)
    (hleaves : ∀ p, p ∈ leaves' ↔ p ∈ leaves ∨ p = page ∧ IsTableLeaf read page) :
    Collected read (leaves', page :: visited) where
  schema p hp := by
    cases List.mem_cons.mp hp with
    | inl heq => exact heq ▸ hpage
    | inr hp => exact h.schema p hp
  leaves p := by
    rw [hleaves p, h.leaves p, List.mem_cons]
    constructor
    · intro hp
      cases hp with
      | inl hp => exact ⟨.inr hp.1, hp.2⟩
      | inr hp => exact ⟨.inl hp.1, hp.1 ▸ hp.2⟩
    · intro hp
      obtain ⟨hp, hleaf⟩ := hp
      cases hp with
      | inl heq => exact .inr ⟨heq, heq ▸ hleaf⟩
      | inr hp => exact .inl ⟨hp, hleaf⟩

theorem Collects.see {leaves visited leaves' : List Nat} {page : Nat}
    (h : Collected read (leaves', page :: visited)) (hnone : ∀ visited, ChildrenIn read [page] visited) :
    Collects read (leaves, visited) (leaves', page :: visited) where
  collected := h
  subset := List.subset_cons_self _ _
  children p hp hnew := by
    cases List.mem_cons.mp hp with
    | inl heq => exact heq ▸ hnone _
    | inr hp => exact absurd hp hnew

/-- `collect_leaf_pages_inner` ends, and has then seen all that is below the page. -/
theorem collectLeafPagesInner_spec (fuel : Nat) (page : Nat) (acc : List Nat × List Nat)
    (hpage : SchemaPage read page) (hlt : page < 2 ^ 32) (hacc : Collected read acc)
    (hfuel : Search.fresh (Finset.range (2 ^ 32)) acc.2 < fuel) :
    ∃ acc', collectLeafPagesInner read fuel page acc = .ok acc' ∧ Collects read acc acc' ∧
      page ∈ acc'.2 := by
  induction fuel generalizing page acc with
  | zero => exact absurd hfuel (Nat.not_lt_zero _)
  | succ fuel ih =>
    obtain ⟨leaves, visited⟩ := acc
    have hfuel : Search.fresh (Finset.range (2 ^ 32)) visited < fuel + 1 := hfuel
    have hhdr := btreeHeaderOffset_le page
    unfold collectLeafPagesInner
    split
    · rename_i hseen
      exact ⟨_, rfl, .refl hacc, hseen⟩
    · rename_i hnew
      have hself : page ∈ page :: visited := List.mem_cons_self ..
      -- the page alone, without its children
      have halone : ¬ IsTableLeaf read page → Collected read (leaves, page :: visited) :=
        fun hleaf => hacc.see hpage fun p => ⟨.inl, fun hp => hp.resolve_right fun hp => hleaf hp.2⟩
      cases hread : read page with
      | none =>
        have hleaf : ¬ IsTableLeaf read page := by
          intro hleaf
          obtain ⟨buf, hbuf, -⟩ := hleaf
          rw [hread] at hbuf
          cases hbuf
        refine ⟨_, rfl, .see (halone hleaf) ?_, hself⟩
        intro _ p hp buf hbuf
        rw [List.mem_singleton.mp hp, hread] at hbuf
        cases hbuf
      | some buf =>
        have hleaf_iff : IsTableLeaf read page ↔ buf[btreeHeaderOffset page]? = some 0x0D := by
          simp [IsTableLeaf, hread]
        have hnone : buf[btreeHeaderOffset page]? ≠ some 0x05 →
            ∀ visited, ChildrenIn read [page] visited := by
          intro htype _ p hp buf' hbuf' htype'
          rw [List.mem_singleton.mp hp] at hbuf' htype'
          rw [hread] at hbuf'
          cases hbuf'
          exact absurd htype' htype
        dsimp only
        split
        · rename_i hshort
          have hbyte : buf[btreeHeaderOffset page]? = none := List.getElem?_eq_none (by omega)
          refine ⟨_, rfl, .see (halone ?_) (hnone ?_), hself⟩
          · rw [hleaf_iff, hbyte]
            exact fun h => by cases h
          · rw [hbyte]
            exact fun h => by cases h
        · rename_i hlen
          have hbyte : buf[btreeHeaderOffset page]? = some buf[btreeHeaderOffset page] :=
            List.getElem?_eq_getElem (by omega)
          rw [byteAt_of_lt (by omega), ok_bind]
          split
          · rename_i hint
            rw [hint] at hbyte
            rw [extractInteriorChildren_eq hhdr, ok_bind, foldlM_targets (fun acc child =>
              collectLeafPagesInner read fuel child acc)]
            have hchild : ∀ child ∈ targets (BTreeWalker.extractInteriorChildren buf
                (btreeHeaderOffset page)), SchemaPage read child ∧ child < 2 ^ 32 := by
              intro child hchild
              refine ⟨.child hpage hread hbyte hchild, Finset.mem_range.mp ?_⟩
              exact lt_of_mem_targets (fun ptr => BTreeWalker.lt_of_mem_extractInteriorChildren) child hchild
            have hleaf : ¬ IsTableLeaf read page := by
              rw [hleaf_iff, hbyte]
              decide
            have hcons := Search.fresh_cons (Finset.mem_range.mpr hlt) hnew
            have hless : Search.fresh (Finset.range (2 ^ 32)) (page :: visited) < fuel := by omega
            obtain ⟨acc', hacc', hcol, hall⟩ := collect_children ih hchild (halone hleaf) hless
            refine ⟨acc', hacc', ⟨hcol.collected, ?_, ?_⟩, hcol.subset hself⟩
            · exact List.Subset.trans (List.subset_cons_self _ _) hcol.subset
            · intro p hp hpnew
              by_cases heq : p = page
              · rw [heq]
                intro q hq buf' hbuf' _ child hc
                rw [List.mem_singleton.mp hq] at hbuf' hc
                rw [hread] at hbuf'
                cases hbuf'
                exact hall child hc
              · refine hcol.children p hp ?_
                intro hmem
                cases List.mem_cons.mp hmem with
                | inl h => exact heq h
                | inr h => exact hpnew h
          · rename_i hint
            have htype : buf[btreeHeaderOffset page]? ≠ some 0x05 := by
              rw [hbyte]
              exact fun h => hint (Option.some.inj h)
            split
            · rename_i hdata
              rw [hdata] at hbyte
              have hleaf := hleaf_iff.mpr hbyte
              refine ⟨_, rfl, .see (hacc.see hpage ?_) (hnone htype), hself⟩
              intro p
              rw [List.mem_append, List.mem_singleton]
              exact or_congr_right ⟨fun h => ⟨h, hleaf⟩, fun h => h.1⟩
            · rename_i hdata
              refine ⟨_, rfl, .see (halone ?_) (hnone htype), hself⟩
              rw [hleaf_iff, hbyte]
              exact fun h => hdata (Option.some.inj h)

/-- `collect_leaf_pages` finds the leaves of `sqlite_master`. -/
theorem collectLeafPages_spec (read : Nat → Option Bytes) : ∃ leaves,
    collectLeafPages read 0 = .ok leaves ∧
      ∀ page, page ∈ leaves ↔ SchemaPage read page ∧ IsTableLeaf read page := by
  have hinit : Collected read ([], []) :=
    ⟨fun page hpage => absurd hpage List.not_mem_nil, fun page => by simp⟩
  obtain ⟨acc, hacc, hcol, hroot⟩ := collectLeafPagesInner_spec steps 0 ([], []) .root (by decide) hinit
    (fresh_lt_steps [])
  refine ⟨acc.1, bind_eq_ok.mpr ⟨acc, hacc, rfl⟩, ?_⟩
  have hall : ∀ page, SchemaPage read page → page ∈ acc.2 := by
    intro page hpage
    induction hpage with
    | root => exact hroot
    | @child page child buf _ hread htype hchild ih =>
      exact hcol.children page ih List.not_mem_nil page (List.mem_singleton_self _) buf hread htype
        child hchild
  intro page
  rw [hcol.collected.leaves page]
  exact and_congr_left fun _ => ⟨hcol.collected.schema page, hall page⟩

variable {fromUtf8Lossy : Bytes → String}

/-- What `leafEntries` does with the cells of a leaf. -/
theorem leafEntries_eq {page : Nat} {buf : Bytes} (hread : read page = some buf)
    (htype : buf[btreeHeaderOffset page]? = some 0x0D)
    (hlen : btreeHeaderOffset page + 8 ≤ buf.length) :
    leafEntries read fromUtf8Lossy page =
      ((cellOffsets buf (btreeHeaderOffset page + 8) (cellCount buf (btreeHeaderOffset page))).mapM
        (parseMasterCell fromUtf8Lossy buf) >>= fun rs => .ok (rs.filterMap id)) := by
  have hhdr := btreeHeaderOffset_le page
  have hbyte : byteAt buf (btreeHeaderOffset page) = .ok 0x0D := by
    rw [byteAt, htype]
    rfl
  unfold leafEntries
  simp only [hread]
  rw [if_neg (Nat.not_lt.mpr hlen), hbyte, ok_bind, if_neg (by decide), u16At_of_le (by omega), ok_bind]
  exact cellLoop_range (by omega) (Nat.le_of_lt (beU16At_lt ..))

theorem leafEntries_spec (read : Nat → Option Bytes) (fromUtf8Lossy : Bytes → String) (page : Nat) :
    Fits (leafEntries read fromUtf8Lossy page)
      (∀ buf off, LeafCell read page buf off → MasterCellFits buf off) ∧
    ∀ entries, leafEntries read fromUtf8Lossy page = .ok entries → ∀ e, e ∈ entries ↔
      ∃ buf off, LeafCell read page buf off ∧ parseMasterCell fromUtf8Lossy buf off = .ok (some e) := by
  by_cases hleaf : ∃ buf, read page = some buf ∧ buf[btreeHeaderOffset page]? = some 0x0D ∧
      btreeHeaderOffset page + 8 ≤ buf.length
  · obtain ⟨buf, hread, htype, hlen⟩ := hleaf
    rw [leafEntries_eq hread htype hlen]
    -- the schema cells of the page are those its pointers name
    have hcell : ∀ buf' off, LeafCell read page buf' off ↔ buf' = buf ∧
        off ∈ cellOffsets buf (btreeHeaderOffset page + 8) (cellCount buf (btreeHeaderOffset page)) := by
      intro buf' off
      constructor
      · intro h
        obtain ⟨hread', -, -, hoff⟩ := h
        rw [hread] at hread'
        cases hread'
        exact ⟨rfl, hoff⟩
      · intro h
        obtain ⟨rfl, hoff⟩ := h
        exact ⟨hread, htype, hlen, hoff⟩
    constructor
    · have hcells : Fits ((cellOffsets buf (btreeHeaderOffset page + 8)
          (cellCount buf (btreeHeaderOffset page))).mapM (parseMasterCell fromUtf8Lossy buf)) _ :=
        .mapM fun off hoff => parseMasterCell_fits (lt_of_mem_cellOffsets hoff)
      refine (hcells.bind fun rs => ⟨rs.filterMap id, rfl⟩).congr ?_
      constructor
      · intro h buf' off hoff
        obtain ⟨rfl, hoff⟩ := (hcell buf' off).mp hoff
        exact h off hoff
      · exact fun h off hoff => h buf off ((hcell buf off).mpr ⟨rfl, hoff⟩)
    · intro entries h e
      obtain ⟨rs, hrs, h⟩ := bind_eq_ok.mp h
      cases h
      constructor
      · intro he
        obtain ⟨r, hr, hre⟩ := List.mem_filterMap.mp he
        obtain ⟨off, hoff, hparse⟩ := mapM_inv hrs r hr
        obtain rfl : r = some e := hre
        exact ⟨buf, off, (hcell buf off).mpr ⟨rfl, hoff⟩, hparse⟩
      · intro he
        obtain ⟨buf', off, hoff, hparse⟩ := he
        obtain ⟨rfl, hoff⟩ := (hcell buf' off).mp hoff
        obtain ⟨r, hr, hparse'⟩ := ok_of_mapM hrs hoff
        rw [hparse] at hparse'
        cases hparse'
        exact List.mem_filterMap.mpr ⟨some e, hr, rfl⟩
  · -- a page that cannot be read, is cut off or is no table leaf has no rows
    have hnone : leafEntries read fromUtf8Lossy page = .ok [] := by
      unfold leafEntries
      cases hread : read page with
      | none => rfl
      | some buf =>
        dsimp only
        split
        · rfl
        · rename_i hlen
          have hlen : btreeHeaderOffset page + 8 ≤ buf.length := Nat.not_lt.mp hlen
          rw [byteAt_of_lt (by omega), ok_bind]
          refine if_pos fun htype => hleaf ⟨buf, hread, ?_, hlen⟩
          rw [← htype]
          exact List.getElem?_eq_getElem _
    have hcell : ∀ buf off, ¬ LeafCell read page buf off :=
      fun buf off h => hleaf ⟨buf, h.1, h.2.1, h.2.2.1⟩
    rw [hnone]
    constructor
    · exact .of_ok [] fun buf off h => absurd h (hcell buf off)
    · intro entries h e
      cases h
      constructor
      · exact fun he => absurd he List.not_mem_nil
      · intro he
        obtain ⟨buf, off, h, -⟩ := he
        exact absurd h (hcell buf off)

/-- `parse_sqlite_master` fails exactly on a cell whose arithmetic overflows, and finds the rows of all. -/
theorem parseSqliteMaster_spec (read : Nat → Option Bytes) (fromUtf8Lossy : Bytes → String) :
    Fits (parseSqliteMaster read fromUtf8Lossy)
      (∀ buf off, SchemaCell read buf off → MasterCellFits buf off) ∧
    ∀ entries, parseSqliteMaster read fromUtf8Lossy = .ok entries → ∀ e, e ∈ entries ↔
      ∃ buf off, SchemaCell read buf off ∧ parseMasterCell fromUtf8Lossy buf off = .ok (some e) := by
  obtain ⟨leaves, hleaves, hmem⟩ := collectLeafPages_spec read
  unfold parseSqliteMaster
  rw [hleaves, ok_bind]
  constructor
  · have hall : Fits (leaves.mapM (leafEntries read fromUtf8Lossy)) _ :=
      .mapM fun page _ => (leafEntries_spec read fromUtf8Lossy page).1
    refine (hall.bind fun entries => ⟨entries.flatten, rfl⟩).congr ?_
    constructor
    · intro h buf off hcell
      obtain ⟨page, hpage, hleaf⟩ := hcell
      have hin : page ∈ leaves := (hmem page).mpr ⟨hpage, buf, hleaf.1, hleaf.2.1⟩
      exact h page hin buf off hleaf
    · intro h page hpage buf off hleaf
      exact h buf off (⟨page, ((hmem page).mp hpage).1, hleaf⟩)
  · intro entries h e
    obtain ⟨rows, hrows, h⟩ := bind_eq_ok.mp h
    cases h
    rw [List.mem_flatten]
    constructor
    · intro he
      obtain ⟨es, hes, he⟩ := he
      obtain ⟨page, hpage, hparse⟩ := mapM_inv hrows es hes
      obtain ⟨buf, off, hleaf, hrow⟩ := ((leafEntries_spec read fromUtf8Lossy page).2 es hparse e).mp he
      exact ⟨buf, off, ⟨page, ((hmem page).mp hpage).1, hleaf⟩, hrow⟩
    · intro he
      obtain ⟨buf, off, hcell, hrow⟩ := he
      obtain ⟨page, hpage, hleaf⟩ := hcell
      have hin : page ∈ leaves := (hmem page).mpr ⟨hpage, buf, hleaf.1, hleaf.2.1⟩
      obtain ⟨es, hes, hparse⟩ := ok_of_mapM hrows hin
      exact ⟨es, hes, ((leafEntries_spec read fromUtf8Lossy page).2 es hparse e).mpr ⟨buf, off, hleaf, hrow⟩⟩

end

/-! ### All trees -/

/-- The root of `sqlite_master`, and those its rows name. -/
def IsRoot (read : Nat → Option Bytes) (fromUtf8Lossy : Bytes → String) (root : Nat) : Prop :=
  root = 0 ∨ ∃ buf off e, SchemaCell read buf off ∧
    parseMasterCell fromUtf8Lossy buf off = .ok (some e) ∧ e.rootPage ≠ 0 ∧ root = e.rootPage - 1

section

variable {read : Nat → Option Bytes} {pageSize pageCount : Nat} {fromUtf8Lossy : Bytes → String}

theorem mem_rootsOf_iff {entries : List MasterEntry}
    (h : parseSqliteMaster read fromUtf8Lossy = .ok entries) {root : Nat} :
    root ∈ rootsOf entries ↔ IsRoot read fromUtf8Lossy root := by
  have hrows := (parseSqliteMaster_spec read fromUtf8Lossy).2 entries h
  unfold rootsOf IsRoot
  rw [List.mem_cons, List.mem_map]
  refine or_congr_right ?_
  constructor
  · intro he
    obtain ⟨e, he, rfl⟩ := he
    obtain ⟨he, hne⟩ := List.mem_filter.mp he
    obtain ⟨buf, off, hcell, hparse⟩ := (hrows e).mp he
    exact ⟨buf, off, e, hcell, hparse, by simpa using hne, rfl⟩
  · intro he
    obtain ⟨buf, off, e, hcell, hparse, hne, rfl⟩ := he
    exact ⟨e, List.mem_filter.mpr ⟨(hrows e).mpr ⟨buf, off, hcell, hparse⟩, by simpa using hne⟩, rfl⟩

/-- `walk_btree` of a root finds `pages`. -/
abbrev Walks (read : Nat → Option Bytes) (pageSize pageCount root : Nat) (pages : List Nat) : Prop :=
  walkBtree read pageSize pageCount root = .ok pages

theorem walks_fun (root : Nat) (ps ps' : List Nat) (h : Walks read pageSize pageCount root ps)
    (h' : Walks read pageSize pageCount root ps') : ps = ps' :=
  Except.ok.inj (h.symm.trans h')

theorem walkBtree_fits (read : Nat → Option Bytes) (pageCount : Nat) (hsize : pageSize < 2 ^ 32)
    (root : Nat) :
    Fits (walkBtree read pageSize pageCount root) (∃ pages, Walks read pageSize pageCount root pages) := by
  cases walkBtree_ends read pageCount hsize root with
  | inl hok =>
    refine ⟨fun _ => hok, fun hnot => absurd hok hnot⟩
  | inr herr =>
    obtain ⟨herr, -⟩ := herr
    rw [herr]
    refine .of_error fun hok => ?_
    obtain ⟨pages, hok⟩ := hok
    rw [Walks, herr] at hok
    cases hok

theorem walkEntries_fits (hsize : pageSize < 2 ^ 32) (entries : List MasterEntry)
    (acc : List (Nat × BTreeEntry) × List Nat) :
    Fits (entries.foldlM (walkEntry read pageSize pageCount) acc)
      (∀ e ∈ entries, e.rootPage ≠ 0 → ∃ pages, Walks read pageSize pageCount (e.rootPage - 1) pages) := by
  induction entries generalizing acc with
  | nil => exact .of_ok acc fun e he => absurd he List.not_mem_nil
  | cons e entries ih =>
    rw [List.foldlM_cons]
    by_cases hzero : e.rootPage = 0
    · rw [walkEntry, if_pos hzero, ok_bind]
      refine (ih acc).congr ?_
      rw [List.forall_mem_cons]
      exact ⟨fun h => ⟨fun hne => absurd hzero hne, h⟩, fun h => h.2⟩
    · rw [walkEntry, if_neg hzero]
      have hwalk := walkBtree_fits read pageCount hsize (e.rootPage - 1)
      by_cases hok : ∃ pages, Walks read pageSize pageCount (e.rootPage - 1) pages
      · obtain ⟨pages, hpages⟩ := hok
        rw [hpages, ok_bind, ok_bind]
        refine (ih _).congr ?_
        rw [List.forall_mem_cons]
        exact ⟨fun h => ⟨fun _ => ⟨pages, hpages⟩, h⟩, fun h => h.2⟩
      · rw [hwalk.2 hok, error_bind, error_bind]
        exact .of_error fun h => hok (h e (List.mem_cons_self ..) hzero)

/-- `walk_all_btrees` fails exactly when the schema or a tree cannot be read for an overflow. -/
theorem walkAllBtrees_fits (read : Nat → Option Bytes) (pageCount : Nat) (fromUtf8Lossy : Bytes → String)
    (hsize : pageSize < 2 ^ 32) :
    Fits (walkAllBtrees read pageSize pageCount fromUtf8Lossy)
      ((∀ buf off, SchemaCell read buf off → MasterCellFits buf off) ∧
        ∀ root, IsRoot read fromUtf8Lossy root → ∃ pages, Walks read pageSize pageCount root pages) := by
  obtain ⟨hschema, -⟩ := parseSqliteMaster_spec read fromUtf8Lossy
  unfold walkAllBtrees
  by_cases hcells : ∀ buf off, SchemaCell read buf off → MasterCellFits buf off
  rotate_left
  · rw [hschema.2 hcells, error_bind]
    exact .of_error fun h => hcells h.1
  obtain ⟨entries, hentries⟩ := hschema.1 hcells
  rw [hentries, ok_bind]
  have hroots : ∀ root, root ∈ rootsOf entries ↔ IsRoot read fromUtf8Lossy root :=
    fun root => mem_rootsOf_iff hentries
  by_cases hmaster : ∃ pages, Walks read pageSize pageCount 0 pages
  rotate_left
  · rw [(walkBtree_fits read pageCount hsize 0).2 hmaster, error_bind]
    exact .of_error fun h => hmaster (h.2 0 (.inl rfl))
  obtain ⟨master, hmaster⟩ := hmaster
  rw [hmaster, ok_bind]
  refine ((walkEntries_fits hsize entries _).bind fun acc => ⟨_, rfl⟩).congr ?_
  constructor
  · intro h
    refine ⟨hcells, ?_⟩
    intro root hroot
    cases List.mem_cons.mp ((hroots root).mpr hroot) with
    | inl heq => exact ⟨master, heq ▸ hmaster⟩
    | inr hmem =>
      obtain ⟨e, he, rfl⟩ := List.mem_map.mp hmem
      obtain ⟨he, hne⟩ := List.mem_filter.mp he
      exact h e he (by simpa using hne)
  · intro h e he hne
    refine h.2 _ ((hroots _).mp (List.mem_cons_of_mem 0 (List.mem_map.mpr ⟨e, ?_, rfl⟩)))
    exact List.mem_filter.mpr ⟨he, by simpa using hne⟩

/-- Whatever `read_page` does, the walk ends, and it fails only when a number does not fit. -/
theorem walkAllBtrees_ends (read : Nat → Option Bytes) (pageCount : Nat) (fromUtf8Lossy : Bytes → String)
    (hsize : pageSize < 2 ^ 32) :
    (∃ w, walkAllBtrees read pageSize pageCount fromUtf8Lossy = .ok w) ∨
      walkAllBtrees read pageSize pageCount fromUtf8Lossy = .error .overflow :=
  (walkAllBtrees_fits read pageCount fromUtf8Lossy hsize).cases

/-- What a walk of all trees found. -/
theorem walkAllBtrees_spec {w : Walk} (h : walkAllBtrees read pageSize pageCount fromUtf8Lossy = .ok w) :
    ∃ entries owned, parseSqliteMaster read fromUtf8Lossy = .ok entries ∧
      Trees (Walks read pageSize pageCount) (rootsOf entries) (w.btrees, owned) ∧
      w.unowned = (List.range pageCount).filter (· ∉ owned) := by
  obtain ⟨entries, hentries, h⟩ := bind_eq_ok.mp h
  obtain ⟨master, hmaster, h⟩ := bind_eq_ok.mp h
  obtain ⟨⟨trees, owned⟩, hfold, h⟩ := bind_eq_ok.mp h
  cases h
  refine ⟨entries, owned, hentries, ?_, rfl⟩
  refine foldlM_inv (P := fun ys acc => Trees (Walks read pageSize pageCount) (rootsOf ys) acc)
    (.single hmaster _ _) ?_ hfold
  intro ys e acc acc' _ hacc hstep
  rw [BTreeWalker.rootsOf_append]
  unfold walkEntry at hstep
  split at hstep
  · rename_i hzero
    cases hstep
    rw [if_pos hzero]
    exact hacc
  · rename_i hne
    obtain ⟨pages, hpages, hstep⟩ := bind_eq_ok.mp hstep
    cases hstep
    rw [if_neg hne]
    exact hacc.insert walks_fun hpages e.name e.objType

/-- Whatever `read_page` does, a tree has no page twice, and every page below the page count is reported:
owned or unowned, not both. -/
theorem walkAllBtrees_reports {w : Walk}
    (h : walkAllBtrees read pageSize pageCount fromUtf8Lossy = .ok w) :
    (∀ t ∈ w.btrees, t.2.pages.Nodup) ∧ w.unowned.Nodup ∧ (∀ page ∈ w.unowned, page < pageCount) ∧
      ∀ page < pageCount, page ∈ w.unowned ↔ ∀ t ∈ w.btrees, page ∉ t.2.pages := by
  obtain ⟨entries, owned, -, htrees, hunowned⟩ := walkAllBtrees_spec h
  rw [hunowned]
  refine ⟨fun t ht => walkBtree_nodup (htrees.walked t ht), List.nodup_range.filter _, ?_, ?_⟩
  · exact fun page hpage => List.mem_range.mp (List.mem_filter.mp hpage).1
  · intro page hpage
    rw [List.mem_filter, List.mem_range, decide_eq_true_iff, htrees.owned page]
    constructor
    · exact fun h t ht hp => h.2 ⟨t, ht, hp⟩
    · intro h
      refine ⟨hpage, fun howned => ?_⟩
      obtain ⟨t, ht, hp⟩ := howned
      exact h t ht hp

/-! ### When the pages are split -/

/-- `walk_all_btrees` succeeds, and its trees and unowned pages are the pages of the file once each. -/
def Partitioned (read : Nat → Option Bytes) (pageSize pageCount : Nat)
    (fromUtf8Lossy : Bytes → String) : Prop :=
  ∃ w, walkAllBtrees read pageSize pageCount fromUtf8Lossy = .ok w ∧ Covers w pageCount

/-- The numbers in the schema fit. In the order of each tree those on a page that is first met as a child fit,
and it is below the page count, when it can be read; an overflow page has to be. No page that can be read is in
the orders of two roots. -/
structure Walkable (read : Nat → Option Bytes) (pageSize pageCount : Nat)
    (fromUtf8Lossy : Bytes → String) : Prop where
  schema : ∀ buf off, SchemaCell read buf off → MasterCellFits buf off
  trees : ∀ root, IsRoot read fromUtf8Lossy root → ∃ order, Ranks read pageSize pageCount root order ∧
    ∀ page t buf, order page = some (.branch, t) → read page = some buf →
      PageFits pageSize page buf ∧ page < pageCount
  apart : ∀ root root' order order' page, IsRoot read fromUtf8Lossy root → IsRoot read fromUtf8Lossy root' →
    Ranks read pageSize pageCount root order → Ranks read pageSize pageCount root' order' →
      (read page).isSome → (order page).isSome → (order' page).isSome → root = root'

theorem partitioned_of_walkable (hsize : pageSize < 2 ^ 32)
    (h : Walkable read pageSize pageCount fromUtf8Lossy) :
    Partitioned read pageSize pageCount fromUtf8Lossy := by
  have hwalks : ∀ root, IsRoot read fromUtf8Lossy root →
      ∃ pages, Walks read pageSize pageCount root pages := by
    intro root hroot
    cases walkBtree_ends read pageCount hsize root with
    | inl hok => exact hok
    | inr herr =>
      obtain ⟨order, hr, hfits⟩ := h.trees root hroot
      obtain ⟨page, t, buf, hpage, hread, hnot⟩ := herr.2 order hr
      exact absurd (hfits page t buf hpage hread).1 hnot
  obtain ⟨w, hw⟩ := (walkAllBtrees_fits read pageCount fromUtf8Lossy hsize).1 ⟨h.schema, hwalks⟩
  obtain ⟨entries, owned, hentries, htrees, hunowned⟩ := walkAllBtrees_spec hw
  have hroots : ∀ root, root ∈ rootsOf entries ↔ IsRoot read fromUtf8Lossy root :=
    fun root => mem_rootsOf_iff hentries
  refine ⟨w, hw, (htrees.covers_iff walks_fun hunowned fun r ps hps => walkBtree_nodup hps).mpr ?_⟩
  constructor
  · intro r hr r' hr' hne ps ps' hps hps' p hp hp'
    obtain ⟨order, horder, -⟩ := h.trees r ((hroots r).mp hr)
    obtain ⟨order', horder', -⟩ := h.trees r' ((hroots r').mp hr')
    obtain ⟨hpres, hmet⟩ := (mem_walkBtree_iff hps horder).mp hp
    obtain ⟨-, hmet'⟩ := (mem_walkBtree_iff hps' horder').mp hp'
    exact hne (h.apart r r' order order' p ((hroots r).mp hr) ((hroots r').mp hr') horder horder' hpres
      hmet hmet')
  · intro r hr ps hps p hp
    obtain ⟨order, horder, hfits⟩ := h.trees r ((hroots r).mp hr)
    obtain ⟨hpres, hmet⟩ := (mem_walkBtree_iff hps horder).mp hp
    obtain ⟨buf, hread⟩ := Option.isSome_iff_exists.mp hpres
    obtain ⟨⟨role, t⟩, hpage⟩ := Option.isSome_iff_exists.mp hmet
    cases role with
    | branch => exact (hfits p t buf hpage hread).2
    | chain => exact of_decide_eq_true (horder.admits hpage)

theorem walkable_of_partitioned (hsize : pageSize < 2 ^ 32)
    (h : Partitioned read pageSize pageCount fromUtf8Lossy) :
    Walkable read pageSize pageCount fromUtf8Lossy := by
  obtain ⟨w, hw, hcovers⟩ := h
  obtain ⟨hschema, hwalks⟩ :=
    (walkAllBtrees_fits read pageCount fromUtf8Lossy hsize).ok_iff.mp ⟨w, hw⟩
  obtain ⟨entries, owned, hentries, htrees, hunowned⟩ := walkAllBtrees_spec hw
  have hroots : ∀ root, root ∈ rootsOf entries ↔ IsRoot read fromUtf8Lossy root :=
    fun root => mem_rootsOf_iff hentries
  obtain ⟨hdisjoint, hlt⟩ :=
    (htrees.covers_iff walks_fun hunowned fun r ps hps => walkBtree_nodup hps).mp hcovers
  constructor
  · exact hschema
  · intro root hroot
    obtain ⟨pages, hpages⟩ := hwalks root hroot
    obtain ⟨order, horder, hfits⟩ := walkBtree_ranks hsize hpages
    refine ⟨order, horder, fun page t buf hpage hread => ⟨hfits page t buf hpage hread, ?_⟩⟩
    refine hlt root ((hroots root).mpr hroot) pages hpages page ((mem_walkBtree_iff hpages horder).mpr ?_)
    simp [hread, hpage]
  · intro root root' order order' page hroot hroot' horder horder' hpres hmet hmet'
    obtain ⟨pages, hpages⟩ := hwalks root hroot
    obtain ⟨pages', hpages'⟩ := hwalks root' hroot'
    have hmem := (mem_walkBtree_iff hpages horder).mpr ⟨hpres, hmet⟩
    have hmem' := (mem_walkBtree_iff hpages' horder').mpr ⟨hpres, hmet'⟩
    by_contra hne
    exact hdisjoint root ((hroots root).mpr hroot) root' ((hroots root').mpr hroot') hne pages pages'
      hpages hpages' page hmem hmem'

/-- The walk splits the pages of exactly the files whose trees, each in the order of its walk, are apart and
inside the file. -/
theorem walk_partitions (hsize : pageSize < 2 ^ 32) :
    Partitioned read pageSize pageCount fromUtf8Lossy ↔ Walkable read pageSize pageCount fromUtf8Lossy :=
  ⟨walkable_of_partitioned hsize, partitioned_of_walkable hsize⟩

/-- A row of `sqlite_master` names the tree of page 1. Page 4 is on an overflow chain of its leaf 2 and a child
of page 3; its own child pointer leads out of the file. -/
def sharedChild : Nat → Option Bytes
  | 0 => some (List.replicate 100 0 ++ [0x0D, 0, 0, 0, 1, 0, 0, 0, 0, 112, 0, 0, 14, 1, 6, 23, 15, 15, 1, 0,
      0x74, 0x61, 0x62, 0x6C, 0x65, 0x74, 0x74, 2])
  | 1 => some [0x05, 0, 0, 0, 1, 0, 0, 0, 0, 0, 0, 3, 0, 14, 0, 0, 0, 4]
  | 2 => some ([0x0D, 0, 0, 0, 1, 0, 0, 0, 0, 12, 0, 0, 0x84, 0, 1] ++ List.replicate 39 0 ++ [0, 0, 0, 5])
  | 3 => some [0x05, 0, 0, 0, 0, 0, 0, 0, 0, 0, 0, 5]
  | 4 => some [0x05, 0, 0, 0, 0, 0, 0, 0, 0, 0, 0, 7]
  | 6 => some []
  | _ => none

/-- The chain comes to page 4 first, so its child pointer is not followed: two trees and page 5. -/
theorem shared_child_walkable :
    Walkable sharedChild 512 6 (fun bytes => .ofList (bytes.map fun b => Char.ofNat b.toNat)) := by
  refine (walk_partitions (by decide)).mp ?_
  have hwalk : (walkAllBtrees sharedChild 512 6 fun bytes =>
      .ofList (bytes.map fun b => Char.ofNat b.toNat)).toOption.map (fun w =>
        (w.btrees.map (·.2.pages), w.unowned)) = some ([[0], [1, 2, 3, 4]], [5]) := by decide +kernel
  cases hw : walkAllBtrees sharedChild 512 6 fun bytes =>
      .ofList (bytes.map fun b => Char.ofNat b.toNat) with
  | error e =>
    rw [hw] at hwalk
    cases hwalk
  | ok w =>
    rw [hw] at hwalk
    obtain ⟨htrees, hunowned⟩ := Prod.mk.inj (Option.some.inj hwalk)
    refine ⟨w, hw, ?_⟩
    rw [Covers, List.flatMap_def, htrees, hunowned]
    decide

/-- The first page of a file, whose `sqlite_master` is an interior page with page 2 as its only child. -/
def strayChild : Nat → Option Bytes
  | 0 => some (List.replicate 100 0 ++ [0x05, 0, 0, 0, 0, 0, 0, 0, 0, 0, 0, 2])
  | 1 => some []
  | _ => none

/-- One page, and the child behind it can be read: the walk reports page 1. -/
theorem stray_child_reported : ¬ Partitioned strayChild 512 1 (fun _ => "") := by
  intro h
  obtain ⟨w, hw, hcovers⟩ := h
  have hwalk : (walkAllBtrees strayChild 512 1 fun _ => "").toOption.map (fun w =>
      w.btrees.flatMap (·.2.pages)) = some [0, 1] := by decide +kernel
  rw [hw] at hwalk
  have hpages : w.btrees.flatMap (·.2.pages) = [0, 1] := Option.some.inj hwalk
  have hmem : 1 ∈ w.btrees.flatMap (·.2.pages) := by
    rw [hpages]
    decide
  exact absurd (List.mem_range.mp (hcovers.mem_iff.mp (List.mem_append_left _ hmem))) (by decide)

/-- Page 1 stands in a tree, and no page below the count is left over. -/
theorem stray_child_covers_no_more : ∃ w, walkAllBtrees strayChild 512 1 (fun _ => "") = .ok w ∧
    ∀ page < 1, page ∈ w.unowned ↔ ∀ t ∈ w.btrees, page ∉ t.2.pages := by
  have hok : (walkAllBtrees strayChild 512 1 fun _ => "").toOption.isSome = true := by decide +kernel
  cases hw : walkAllBtrees strayChild 512 1 fun _ => "" with
  | error e =>
    rw [hw] at hok
    cases hok
  | ok w => exact ⟨w, rfl, (walkAllBtrees_reports hw).2.2.2⟩

end

end PageWalk

end Turbolite
