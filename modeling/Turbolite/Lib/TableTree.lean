import Turbolite.Lib.SqliteFormat

/-!
# Turbolite.Lib.TableTree

The B-tree of a table of a SQLite database file. Its height is part of its type, so that all leaves are
equally deep. `Held` says that a file holds a tree, `Ordered` that its keys separate the rowids, and
`Path` which pages lead from the root to a leaf.

The child that stores a rowid is found by comparing keys: `childFor_eq`.
-/

namespace SqliteFormat

/-- A leaf: its page and the rowids on it. -/
structure Leaf where
  page : Nat
  rowids : List (BitVec 64)

/-- An interior page: the children with the keys of their cells, and the rightmost child. -/
structure Interior (T : Type) where
  page : Nat
  cells : List (T × BitVec 64)
  last : T

/-- `Tree h` has `h` levels of interior pages above its leaves. -/
def Tree : Nat → Type
  | 0 => Leaf
  | h + 1 => Interior (Tree h)

namespace Interior

variable {T : Type} (t : Interior T)

/-- The children from left to right. -/
def children : List T := t.cells.map Prod.fst ++ [t.last]

theorem mem_children {c : T} : c ∈ t.children ↔ (∃ k, (c, k) ∈ t.cells) ∨ c = t.last := by
  simp [children]

end Interior

namespace Tree

/-- The page of the root, counted from 0. -/
def page : {h : Nat} → Tree h → Nat
  | 0, t => Leaf.page t
  | _ + 1, t => Interior.page t

/-- The leaves from left to right. -/
def leaves : {h : Nat} → Tree h → List Leaf
  | 0, t => [t]
  | _ + 1, t => (Interior.children t).flatMap leaves

/-- The interior pages. -/
def interiors : {h : Nat} → Tree h → List Nat
  | 0, _ => []
  | _ + 1, t => Interior.page t :: (Interior.children t).flatMap interiors

/-- All pages. -/
def pages {h : Nat} (t : Tree h) : List Nat := t.interiors ++ t.leaves.map Leaf.page

/-- The rowid is stored below the root. -/
def Stores {h : Nat} (t : Tree h) (rowid : BitVec 64) : Prop := ∃ leaf ∈ t.leaves, rowid ∈ leaf.rowids

/-- The cells of an interior page; its child pointers count from 1. -/
def interiorCells {h : Nat} (t : Interior (Tree h)) : List InteriorCell :=
  t.cells.map fun c => ⟨c.1.page + 1, c.2⟩

/-- The file holds the tree. -/
def Held (file : Nat → Bytes) : {h : Nat} → Tree h → Prop
  | 0, t => ∃ offs, IsTableLeaf (file (Leaf.page t)) (Leaf.page t == 0) (Leaf.rowids t) offs
  | _ + 1, t =>
    (∃ offs, IsTableInterior (file (Interior.page t)) (Interior.page t == 0) (interiorCells t)
      ((Interior.last t).page + 1) offs) ∧ ∀ c ∈ Interior.children t, Held file c

/-- A rowid is stored below a cell only if it is at most the key of the cell, and after the cell only if
it is greater. -/
def Ordered : {h : Nat} → Tree h → Prop
  | 0, _ => True
  | _ + 1, t =>
    (∀ c ∈ Interior.cells t, ∀ r, Stores c.1 r → r.toInt ≤ c.2.toInt) ∧
      ((Interior.cells t).Pairwise fun c d => ∀ r, Stores d.1 r → c.2.toInt < r.toInt) ∧
      (∀ c ∈ Interior.cells t, ∀ r, Stores (Interior.last t) r → c.2.toInt < r.toInt) ∧
      ∀ c ∈ Interior.children t, Ordered c

/-- The pages from the root to a leaf. -/
def Path : {h : Nat} → Tree h → Leaf → List Nat → Prop
  | 0, t, leaf, path => t = leaf ∧ path = [leaf.page]
  | _ + 1, t, leaf, path =>
    ∃ c ∈ Interior.children t, ∃ below, Path c leaf below ∧ path = Interior.page t :: below

/-- The child whose key is the first that is not less than the rowid, or the rightmost one. -/
def childFor {h : Nat} (t : Interior (Tree h)) (rowid : BitVec 64) : Tree h :=
  match t.cells.find? fun c => decide (rowid.toInt ≤ c.2.toInt) with
  | some c => c.1
  | none => t.last

/-- The leaf that the keys lead to, with the leaves that have the same parent. -/
def siblings : {h : Nat} → Tree h → BitVec 64 → List Leaf
  | 0, t, _ => [t]
  | 1, t, _ => Interior.children t
  | h + 2, t, rowid => siblings (childFor (h := h + 1) t rowid) rowid

section Children

variable {h : Nat} {t : Interior (Tree h)} {c : Tree h} {rowid : BitVec 64}

theorem childFor_mem (t : Interior (Tree h)) (rowid : BitVec 64) : childFor t rowid ∈ t.children := by
  unfold childFor
  rw [t.mem_children]
  split
  · rename_i c hfind
    exact .inl ⟨c.2, List.mem_of_find?_eq_some hfind⟩
  · exact .inr rfl

/-- The keys of a tree lead to the child that stores the rowid. -/
theorem childFor_eq (hordered : Ordered (h := h + 1) t) (hc : c ∈ t.children) (hstores : Stores c rowid) :
    childFor t rowid = c := by
  obtain ⟨hle, hlt, hlast, -⟩ := hordered
  unfold childFor
  rcases t.mem_children.mp hc with ⟨k, hk⟩ | rfl
  · obtain ⟨init, rest, hcells⟩ := List.append_of_mem hk
    have hinit : ∀ d ∈ init, ¬ rowid.toInt ≤ d.2.toInt := by
      rw [hcells, List.pairwise_append] at hlt
      intro d hd
      exact Int.not_le.mpr (hlt.2.2 d hd (c, k) List.mem_cons_self rowid hstores)
    have hfirst : ((c, k) :: rest).find? (fun c => decide (rowid.toInt ≤ c.2.toInt)) = some (c, k) :=
      List.find?_cons_of_pos (decide_eq_true (hle (c, k) hk rowid hstores))
    rw [hcells, List.find?_append, List.find?_eq_none.mpr (by simpa using hinit), Option.none_or, hfirst]
  · rw [List.find?_eq_none.mpr (by simpa using fun a b hab => hlast (a, b) hab rowid hstores)]

theorem mem_leaves_childFor {leaf : Leaf} (hordered : Ordered (h := h + 1) t)
    (hleaf : leaf ∈ leaves (h := h + 1) t) (hrowid : rowid ∈ leaf.rowids) :
    leaf ∈ (childFor t rowid).leaves := by
  obtain ⟨c, hc, hleaf⟩ := List.mem_flatMap.mp hleaf
  rwa [childFor_eq hordered hc ⟨leaf, hleaf, hrowid⟩]

theorem page_mem_interiors (t : Interior (Tree h)) : t.page ∈ interiors (h := h + 1) t :=
  List.mem_cons_self

theorem interiors_child (hc : c ∈ t.children) {p : Nat} (hp : p ∈ c.interiors) :
    p ∈ interiors (h := h + 1) t :=
  List.mem_cons_of_mem _ (List.mem_flatMap.mpr ⟨c, hc, hp⟩)

theorem pages_child (hc : c ∈ t.children) {p : Nat} (hp : p ∈ c.pages) : p ∈ pages (h := h + 1) t := by
  rcases List.mem_append.mp hp with hp | hp
  · exact List.mem_append_left _ (interiors_child hc hp)
  · obtain ⟨leaf, hleaf, rfl⟩ := List.mem_map.mp hp
    exact List.mem_append_right _ (List.mem_map_of_mem (List.mem_flatMap.mpr ⟨c, hc, hleaf⟩))

end Children

theorem mem_leaves_zero {t : Leaf} {leaf : Leaf} : leaf ∈ leaves (h := 0) t ↔ leaf = t :=
  List.mem_singleton

/-- A leaf that stores the rowid is its own sibling. -/
theorem mem_siblings {h : Nat} {t : Tree h} {leaf : Leaf} {rowid : BitVec 64} (hordered : t.Ordered)
    (hleaf : leaf ∈ t.leaves) (hrowid : rowid ∈ leaf.rowids) : leaf ∈ t.siblings rowid := by
  induction h with
  | zero => exact hleaf
  | succ h ih =>
    have hleaf' := mem_leaves_childFor hordered hleaf hrowid
    have hc := childFor_mem t rowid
    cases h with
    | zero =>
      rw [mem_leaves_zero.mp hleaf']
      exact hc
    | succ h => exact ih (hordered.2.2.2 _ hc) hleaf'

theorem exists_path {h : Nat} {t : Tree h} {leaf : Leaf} (hleaf : leaf ∈ t.leaves) :
    ∃ below, Path t leaf (t.page :: below) := by
  induction h with
  | zero =>
    have heq := mem_leaves_zero.mp hleaf
    exact ⟨[], heq.symm, by rw [heq]; rfl⟩
  | succ h ih =>
    obtain ⟨c, hc, hleaf⟩ := List.mem_flatMap.mp hleaf
    obtain ⟨below, hbelow⟩ := ih hleaf
    exact ⟨c.page :: below, c, hc, _, hbelow, rfl⟩

theorem page_mem_pages {h : Nat} (t : Tree h) : t.page ∈ t.pages := by
  cases h with
  | zero => exact List.mem_cons_self
  | succ h => exact List.mem_cons_self

/-- The type of the root's page tells whether it is a leaf. -/
theorem Held.kind {file : Nat → Bytes} {h : Nat} {t : Tree h} (hheld : Held file t) :
    (file t.page)[headerOffset (t.page == 0)]? = some (if h = 0 then 0x0d else 0x05) := by
  cases h with
  | zero =>
    obtain ⟨_, hpage⟩ := hheld
    exact hpage.layout.kind
  | succ h =>
    obtain ⟨⟨_, hpage⟩, -⟩ := hheld
    exact hpage.layout.kind

end Tree

end SqliteFormat
