import Mathlib.Data.Finset.Basic
import Turbolite.BTreePages
import Turbolite.Lib.TableTree
import Turbolite.Storage

/-!
# Turbolite.Lookahead

The resolver of rowids (`lookahead.rs`): it goes down a table's B-tree through the pages that are in the
disk cache, and guesses that a page it has not got is a leaf.

`resolve_sound` is about every file that holds the tree and every cache of the file. It is carried by
`descend_sound`, an induction on the height of the tree.
-/

namespace Turbolite

open Blocks Checked Results

namespace Lookahead

open SqliteFormat hiding Bytes
open BTreePeek

/-- `page.get(hdr_off)`. -/
def kindByte (page : Bytes) (pageNum : Nat) : Option UInt8 := page[headerOffset (pageNum == 0)]?

/-- The child of the first cell whose key is not less, or the rightmost one. -/
def chooseTableChild (interior : TableInteriorCells) (rowid : Int) : Option Nat :=
  match interior.cells.find? fun cell => decide (rowid ≤ cell.rowidKey) with
  | some cell => some cell.childPage
  | none => interior.rightmostChildPage

section Resolver

variable {pageSize : Nat} (cache : DiskCache pageSize)

/-- `is_present`. -/
def isPresent (p : Nat) : Bool := (cache.page p).isSome

/-- The loop over the child pages: one that cannot be read is passed over. -/
def anyTableLeaf : List Nat → IoResult Bool
  | [] => .ok false
  | childPageNum :: rest =>
    if isPresent cache childPageNum then
      match cache.readPage childPageNum with
      | .error .panic => .error .panic
      | .error (.io _ _) => anyTableLeaf rest
      | .ok childPage =>
        if kindByte childPage childPageNum = some 0x0d then .ok true else anyTableLeaf rest
    else anyTableLeaf rest

/-- A child page in the cache is a table leaf. -/
def parentHasCachedTableLeafChild (interior : TableInteriorCells) : IoResult Bool :=
  anyTableLeaf cache <|
    (interior.cells.map (·.childPage) ++ interior.rightmostChildPage.toList).filterMap (sub? · 1)

variable (knownTableInteriors : Option (Finset Nat)) (rowid : Int)

/-- The rounds that are left, from the page and the path before it. -/
def descend : Nat → Nat → List Nat → IoResult (Option Nat × List Nat)
  | 0, _, path => .ok (none, path)
  | depth + 1, pageNum, path =>
    if isPresent cache pageNum then do
      let page ← cache.readPage pageNum
      if kindByte page pageNum = some 0x0d then .ok (some pageNum, path ++ [pageNum])
      else if kindByte page pageNum = some 0x05 then do
        let interior ← parseTableInteriorCells page (pageNum == 0)
        match chooseTableChild interior rowid with
        | none => .ok (none, path ++ [pageNum])
        | some 0 => .ok (none, path ++ [pageNum])
        | some (childPage + 1) =>
          if isPresent cache childPage then descend depth childPage (path ++ [pageNum])
          else if (knownTableInteriors.map fun interiors => decide (childPage ∉ interiors)).getD false then
            .ok (some childPage, path ++ [pageNum] ++ [childPage])
          else do
            let inferred ← parentHasCachedTableLeafChild cache interior
            .ok (if inferred then some childPage else none, path ++ [pageNum] ++ [childPage])
      else .ok (none, path ++ [pageNum])
    else .ok (none, path ++ [pageNum])

/-- `resolve_rowid_to_page_with_path`. -/
def resolveRowidToPageWithPath (tableRootPage : Nat) : IoResult (Option Nat × List Nat) :=
  if pageSize = 0 then .ok (none, []) else descend cache knownTableInteriors rowid 64 tableRootPage []

end Resolver

/-! ### One round -/

/-- The cache holds pages of the file. -/
structure Caches {pageSize h : Nat} (cache : DiskCache pageSize) (file : Nat → Bytes) (t : Tree h) :
    Prop where
  size : ∀ p ∈ t.pages, (file p).length = pageSize
  page_eq : ∀ p ∈ t.pages, ∀ data, cache.page p = some data → data = file p

/-- An interior page as it is parsed. -/
def interiorOf {h : Nat} (t : Interior (Tree h)) : TableInteriorCells :=
  { rightmostChildPage := some (t.last.page + 1), cells := (Tree.interiorCells t).map interiorCell }

theorem chooseTableChild_interiorOf {h : Nat} (t : Interior (Tree h)) (rowid : BitVec 64) :
    chooseTableChild (interiorOf t) rowid.toInt = some ((Tree.childFor t rowid).page + 1) := by
  have hcells : (interiorOf t).cells =
      t.cells.map fun c => { childPage := c.1.page + 1, rowidKey := c.2.toInt } := by
    simp [interiorOf, Tree.interiorCells, interiorCell]
  unfold chooseTableChild Tree.childFor
  rw [hcells, List.find?_map, Function.comp_def]
  cases t.cells.find? fun c => decide (rowid.toInt ≤ c.2.toInt) with
  | none => rfl
  | some c => rfl

section Round

variable {pageSize h : Nat} {cache : DiskCache pageSize} {file : Nat → Bytes}

theorem Caches.child {t : Interior (Tree h)} (hcaches : Caches (h := h + 1) cache file t) {c : Tree h}
    (hc : c ∈ t.children) : Caches cache file c :=
  ⟨fun p hp => hcaches.size p (Tree.pages_child hc hp),
    fun p hp => hcaches.page_eq p (Tree.pages_child hc hp)⟩

theorem Caches.readPage {t : Tree h} (hcaches : Caches cache file t)
    (hpresent : isPresent cache t.page = true) : cache.readPage t.page = .ok (file t.page) := by
  obtain ⟨data, hdata⟩ := Option.isSome_iff_exists.mp hpresent
  unfold DiskCache.readPage
  rw [cache.coherent _ _ hdata]
  exact congrArg _ (hcaches.page_eq _ t.page_mem_pages _ hdata)

/-- No page of the children fails, and a leaf is found among them if they are leaves and one of them is in
the cache. -/
theorem anyTableLeaf_pages {cs : List (Tree h)} (hheld : ∀ c ∈ cs, c.Held file)
    (hcaches : ∀ c ∈ cs, Caches cache file c) :
    anyTableLeaf cache (cs.map Tree.page) =
      .ok (decide (h = 0) && cs.any fun c => isPresent cache c.page) := by
  induction cs with
  | nil => simp [anyTableLeaf]
  | cons c cs ih =>
    have hrest := ih (fun d hd => hheld d (List.mem_cons_of_mem _ hd))
      fun d hd => hcaches d (List.mem_cons_of_mem _ hd)
    rw [List.map_cons, anyTableLeaf, List.any_cons]
    by_cases hpresent : isPresent cache c.page = true
    · have hkind : kindByte (file c.page) c.page = some (if h = 0 then 0x0d else 0x05) :=
        (hheld c List.mem_cons_self).kind
      rw [if_pos hpresent, (hcaches c List.mem_cons_self).readPage hpresent]
      dsimp only
      rw [hkind, hrest, hpresent]
      by_cases hzero : h = 0
      · simp [hzero]
      · simp [hzero]
    · rw [if_neg hpresent, hrest, Bool.eq_false_of_not_eq_true hpresent, Bool.false_or]

theorem parentHasCachedTableLeafChild_interiorOf {t : Interior (Tree h)}
    (hheld : Tree.Held (h := h + 1) file t) (hcaches : Caches (h := h + 1) cache file t) :
    parentHasCachedTableLeafChild cache (interiorOf t) =
      .ok (decide (h = 0) && t.children.any fun c => isPresent cache c.page) := by
  have hpages : ((interiorOf t).cells.map (·.childPage) ++
      (interiorOf t).rightmostChildPage.toList).filterMap (sub? · 1) = t.children.map Tree.page := by
    simp [interiorOf, Tree.interiorCells, interiorCell, Interior.children, sub?, Function.comp_def]
  unfold parentHasCachedTableLeafChild
  rw [hpages]
  exact anyTableLeaf_pages hheld.2 fun c hc => hcaches.child hc

variable {t : Tree h} {known : Option (Finset Nat)} {rowid : Int}

theorem descend_absent (hpresent : isPresent cache t.page = false) (depth : Nat) (pre : List Nat) :
    descend cache known rowid (depth + 1) t.page pre = .ok (none, pre ++ [t.page]) := by
  rw [descend, if_neg (by simp [hpresent])]

theorem descend_leaf {t : Leaf} (hheld : Tree.Held (h := 0) file t) (hcaches : Caches (h := 0) cache file t)
    (hpresent : isPresent cache t.page = true) (depth : Nat) (pre : List Nat) :
    descend cache known rowid (depth + 1) t.page pre = .ok (some t.page, pre ++ [t.page]) := by
  have hread : cache.readPage t.page = .ok (file t.page) := hcaches.readPage hpresent
  have hkind : kindByte (file t.page) t.page = some 0x0d := hheld.kind
  rw [descend, if_pos hpresent, hread, ok_bind, if_pos hkind]

/-- A page that is not in the cache is a leaf, as far as the resolver knows. -/
def guess (cache : DiskCache pageSize) (known : Option (Finset Nat)) (t : Interior (Tree h)) (p : Nat) :
    IoResult (Option Nat) :=
  if (known.map fun interiors => decide (p ∉ interiors)).getD false then .ok (some p)
  else do
    let inferred ← parentHasCachedTableLeafChild cache (interiorOf t)
    .ok (if inferred then some p else none)

/-- From an interior page the round goes to the child that the keys lead to. -/
theorem descend_interior {t : Interior (Tree h)} (hheld : Tree.Held (h := h + 1) file t)
    (hcaches : Caches (h := h + 1) cache file t) (hpresent : isPresent cache t.page = true)
    (rowid : BitVec 64) (depth : Nat) (pre : List Nat) :
    descend cache known rowid.toInt (depth + 1) t.page pre =
      if isPresent cache (Tree.childFor t rowid).page then
        descend cache known rowid.toInt depth (Tree.childFor t rowid).page (pre ++ [t.page])
      else (guess cache known t (Tree.childFor t rowid).page).bind fun res =>
        .ok (res, pre ++ [t.page, (Tree.childFor t rowid).page]) := by
  obtain ⟨offs, hpage⟩ := hheld.1
  have hread : cache.readPage t.page = .ok (file t.page) := hcaches.readPage hpresent
  have hkind : kindByte (file t.page) t.page = some 0x05 := hheld.kind
  have hparse : parseTableInteriorCells (file t.page) (t.page == 0) = .ok (interiorOf t) :=
    parseTableInteriorCells_eq hpage
  rw [descend, if_pos hpresent, hread, ok_bind, if_neg (by simp [hkind]), if_pos hkind, hparse, ok_bind,
    chooseTableChild_interiorOf]
  dsimp only
  split_ifs with hchild hknown
  · rfl
  · rw [guess, if_pos hknown, List.append_assoc]
    rfl
  · rw [guess, if_neg hknown, List.append_assoc]
    cases parentHasCachedTableLeafChild cache (interiorOf t) <;> rfl

/-- Every guess is a leaf: a set of known interior pages that lacks the page has all interior pages, and
the children of a page are equally deep. -/
theorem guess_sound {t : Interior (Tree h)} (hheld : Tree.Held (h := h + 1) file t)
    (hcaches : Caches (h := h + 1) cache file t)
    (hknown : ∀ interiors ∈ known, ∀ p ∈ Tree.interiors (h := h + 1) t, p ∈ interiors) {c : Tree h}
    (hc : c ∈ t.children) :
    ∃ res, guess cache known t c.page = .ok res ∧ ∀ p, res = some p → p = c.page ∧ h = 0 := by
  have hfound := parentHasCachedTableLeafChild_interiorOf hheld hcaches
  unfold guess
  split_ifs with hlacks
  · refine ⟨_, rfl, fun p hp => ⟨(Option.some.inj hp).symm, ?_⟩⟩
    cases known with
    | none => cases hlacks
    | some interiors =>
      have hlacks : c.page ∉ interiors := of_decide_eq_true hlacks
      cases h with
      | zero => rfl
      | succ h =>
        exact absurd (hknown interiors rfl _ (Tree.interiors_child hc (Tree.page_mem_interiors c))) hlacks
  · rw [hfound, ok_bind]
    refine ⟨_, rfl, fun p hp => ?_⟩
    rw [Option.ite_none_right_eq_some, Bool.and_eq_true] at hp
    exact ⟨(Option.some.inj hp.2).symm, of_decide_eq_true hp.1.1⟩

/-- Over leaves the guess is that the page is a leaf, if it is not known as an interior page or one of
them is in the cache. -/
theorem guess_leaves {t : Interior (Tree 0)} (hheld : Tree.Held (h := 1) file t)
    (hcaches : Caches (h := 1) cache file t) (interiors : Finset Nat) (p : Nat) :
    guess cache (some interiors) t p = .ok (if p ∉ interiors ∨
      ∃ c ∈ t.children, isPresent cache (Tree.page c) = true then some p else none) := by
  rw [guess, Option.map_some, Option.getD_some]
  by_cases hlacks : p ∉ interiors
  · rw [if_pos (decide_eq_true hlacks), if_pos (.inl hlacks)]
  · have hfound := parentHasCachedTableLeafChild_interiorOf hheld hcaches
    rw [if_neg fun hget => hlacks (of_decide_eq_true hget), hfound, ok_bind]
    simp only [decide_true, Bool.true_and, List.any_eq_true, hlacks, false_or]

end Round

/-! ### The way down -/

/-- What the resolver may return: the pages of the path are the first ones on the way to the leaf, and a
page that is returned is the leaf with the whole way to it. -/
def Sound {h : Nat} (t : Tree h) (leaf : Leaf) (res : Option Nat) (path : List Nat) : Prop :=
  ∃ full, t.Path leaf full ∧ path <+: full ∧ ∀ p, res = some p → p = leaf.page ∧ path = full

section Descent

variable {pageSize h : Nat} {cache : DiskCache pageSize} {file : Nat → Bytes} {t : Tree h} {leaf : Leaf}
  {known : Option (Finset Nat)} {rowid : BitVec 64}

theorem sound_nil (hleaf : leaf ∈ t.leaves) : Sound t leaf none [] := by
  obtain ⟨below, hpath⟩ := Tree.exists_path hleaf
  exact ⟨_, hpath, List.nil_prefix, by simp⟩

theorem sound_root (hleaf : leaf ∈ t.leaves) : Sound t leaf none [t.page] := by
  obtain ⟨below, hpath⟩ := Tree.exists_path hleaf
  exact ⟨_, hpath, ⟨below, rfl⟩, by simp⟩

theorem sound_leaf {t : Leaf} : Sound (h := 0) t t (some t.page) [t.page] :=
  ⟨[t.page], ⟨rfl, rfl⟩, List.prefix_rfl, fun _ hp => ⟨(Option.some.inj hp).symm, rfl⟩⟩

theorem Sound.of_child {t : Interior (Tree h)} {c : Tree h} {res : Option Nat} {path : List Nat}
    (hc : c ∈ t.children) (h' : Sound c leaf res path) : Sound (h := h + 1) t leaf res (t.page :: path) := by
  obtain ⟨full, hfull, hprefix, hres⟩ := h'
  refine ⟨t.page :: full, ⟨c, hc, full, hfull, rfl⟩, List.cons_prefix_cons.mpr ⟨rfl, hprefix⟩,
    fun p hp => ?_⟩
  obtain ⟨hp, rfl⟩ := hres p hp
  exact ⟨hp, rfl⟩

/-- A page that is not in the cache ends the way down: none is returned, or it is the leaf. -/
theorem sound_guess {c : Tree h} {res : Option Nat} (hleaf : leaf ∈ c.leaves)
    (hres : ∀ p, res = some p → p = c.page ∧ h = 0) : Sound c leaf res [c.page] := by
  cases res with
  | none => exact sound_root hleaf
  | some p =>
    obtain ⟨rfl, rfl⟩ := hres p rfl
    rw [Tree.mem_leaves_zero.mp hleaf]
    exact sound_leaf

theorem descend_sound (hheld : t.Held file) (hordered : t.Ordered) (hcaches : Caches cache file t)
    (hknown : ∀ interiors ∈ known, ∀ p ∈ t.interiors, p ∈ interiors) (hleaf : leaf ∈ t.leaves)
    (hrowid : rowid ∈ leaf.rowids) (depth : Nat) (pre : List Nat) :
    ∃ res path, descend cache known rowid.toInt depth t.page pre = .ok (res, pre ++ path) ∧
      Sound t leaf res path ∧ (0 < depth → path ≠ []) := by
  induction h generalizing depth pre with
  | zero =>
    cases depth with
    | zero => exact ⟨none, [], by rw [descend, List.append_nil], sound_nil hleaf, by simp⟩
    | succ depth =>
      cases hpresent : isPresent cache t.page with
      | false => exact ⟨none, [t.page], descend_absent hpresent depth pre, sound_root hleaf, by simp⟩
      | true =>
        have heq := Tree.mem_leaves_zero.mp hleaf
        refine ⟨some leaf.page, [leaf.page], ?_, ?_, by simp⟩
        · rw [heq]
          exact descend_leaf hheld hcaches hpresent depth pre
        · rw [← heq]
          exact sound_leaf
  | succ h ih =>
    cases depth with
    | zero => exact ⟨none, [], by rw [descend, List.append_nil], sound_nil hleaf, by simp⟩
    | succ depth =>
      cases hpresent : isPresent cache t.page with
      | false => exact ⟨none, [t.page], descend_absent hpresent depth pre, sound_root hleaf, by simp⟩
      | true =>
        have hc := Tree.childFor_mem t rowid
        have hleaf' := Tree.mem_leaves_childFor hordered hleaf hrowid
        have hround : descend cache known rowid.toInt (depth + 1) (Interior.page t) pre = _ :=
          descend_interior hheld hcaches hpresent rowid depth pre
        cases hchild : isPresent cache (Tree.childFor t rowid).page with
        | true =>
          obtain ⟨res, path, hres, hsound, -⟩ := ih (hheld.2 _ hc) (hordered.2.2.2 _ hc)
            (hcaches.child hc) (fun interiors hi p hp => hknown interiors hi p (Tree.interiors_child hc hp))
            hleaf' depth (pre ++ [Interior.page t])
          rw [if_pos hchild, hres, List.append_assoc] at hround
          exact ⟨res, _, hround, hsound.of_child hc, by simp⟩
        | false =>
          obtain ⟨res, hres, hguess⟩ := guess_sound hheld hcaches hknown hc
          rw [if_neg (by simp [hchild]), hres] at hround
          exact ⟨res, _, hround, (sound_guess hleaf' hguess).of_child hc, by simp⟩

/-- With all interior pages at hand the way down ends at the leaf: the first page that is not in the cache
is the leaf, and it is taken for a leaf if the set of known interior pages lacks it or a sibling of it is
in the cache. -/
theorem descend_complete (hheld : t.Held file) (hordered : t.Ordered) (hcaches : Caches cache file t)
    {interiors : Finset Nat} (hleaf : leaf ∈ t.leaves) (hrowid : rowid ∈ leaf.rowids)
    (hroot : isPresent cache t.page = true) (hinteriors : ∀ p ∈ t.interiors, isPresent cache p = true)
    {depth : Nat} (hdepth : h < depth) (pre : List Nat) :
    ∃ path, descend cache (some interiors) rowid.toInt depth t.page pre =
      .ok (if leaf.page ∉ interiors ∨ ∃ l ∈ t.siblings rowid, isPresent cache l.page = true then
        some leaf.page else none, path) := by
  obtain ⟨depth, rfl⟩ : ∃ d, depth = d + 1 := ⟨depth - 1, by omega⟩
  induction h generalizing depth pre with
  | zero =>
    rw [if_pos (.inr ⟨t, List.mem_singleton_self _, hroot⟩), Tree.mem_leaves_zero.mp hleaf]
    exact ⟨_, descend_leaf hheld hcaches hroot depth pre⟩
  | succ h ih =>
    have hc := Tree.childFor_mem t rowid
    have hleaf' := Tree.mem_leaves_childFor hordered hleaf hrowid
    have hround : descend cache (some interiors) rowid.toInt (depth + 1) (Interior.page t) pre = _ :=
      descend_interior hheld hcaches hroot rowid depth pre
    cases hchild : isPresent cache (Tree.childFor t rowid).page with
    | true =>
      obtain ⟨depth, rfl⟩ : ∃ d, depth = d + 1 := ⟨depth - 1, by omega⟩
      obtain ⟨path, hpath⟩ := ih (hheld.2 _ hc) (hordered.2.2.2 _ hc) (hcaches.child hc) hleaf' hchild
        (fun p hp => hinteriors p (Tree.interiors_child hc hp)) (pre ++ [Interior.page t]) depth (by omega)
      rw [if_pos hchild, hpath] at hround
      cases h with
      | zero =>
        -- The leaf is in the cache: it is its own sibling.
        have hleafPage : isPresent cache leaf.page = true := by
          rw [Tree.mem_leaves_zero.mp hleaf']
          exact hchild
        rw [if_pos (.inr ⟨leaf, Tree.mem_siblings trivial hleaf' hrowid, hleafPage⟩)] at hround
        rw [if_pos (.inr ⟨leaf, Tree.mem_siblings hordered hleaf hrowid, hleafPage⟩)]
        exact ⟨path, hround⟩
      | succ h => exact ⟨path, hround⟩
    | false =>
      cases h with
      | zero =>
        rw [if_neg (by simp [hchild]), guess_leaves hheld hcaches] at hround
        rw [Tree.mem_leaves_zero.mp hleaf']
        exact ⟨_, hround⟩
      | succ h =>
        have hpresent := hinteriors _ (Tree.interiors_child hc (Tree.page_mem_interiors _))
        exact absurd (hchild.symm.trans hpresent) Bool.false_ne_true

/-- **Resolution.** For every tree of the file, every cache of the file and every set of known interior
pages that has those of the tree, a stored rowid is resolved to no page or to its leaf, along the way
there. With all interior pages in the cache and known it is resolved to its leaf exactly if the root is in
the cache, and the leaf or a sibling of it is too or the leaf is not taken for an interior page. -/
theorem resolve_sound (hheld : t.Held file) (hordered : t.Ordered) (hcaches : Caches cache file t)
    (hknown : ∀ interiors ∈ known, ∀ p ∈ t.interiors, p ∈ interiors) (hleaf : leaf ∈ t.leaves)
    (hrowid : rowid ∈ leaf.rowids) :
    ∃ res path, resolveRowidToPageWithPath cache known rowid.toInt t.page = .ok (res, path) ∧
      path ≠ [] ∧ Sound t leaf res path ∧
      (h < 64 → (∀ p ∈ t.interiors, isPresent cache p = true) → ∀ interiors, known = some interiors →
        (res = some leaf.page ↔ isPresent cache t.page = true ∧ (leaf.page ∉ interiors ∨
          ∃ l ∈ t.siblings rowid, isPresent cache l.page = true))) := by
  have hsize : pageSize ≠ 0 := by
    intro hzero
    have hkind := hheld.kind
    rw [List.getElem?_eq_none (by
      rw [hcaches.size _ t.page_mem_pages, hzero]
      exact Nat.zero_le _)] at hkind
    cases hkind
  obtain ⟨res, path, hres, hsound, hne⟩ := descend_sound hheld hordered hcaches hknown hleaf hrowid 64 []
  have hresolve : resolveRowidToPageWithPath cache known rowid.toInt t.page = .ok (res, path) := by
    rw [resolveRowidToPageWithPath, if_neg hsize, hres, List.nil_append]
  refine ⟨res, path, hresolve, hne (by decide), hsound, fun hdepth hinteriors interiors heq => ?_⟩
  subst heq
  cases hroot : isPresent cache t.page with
  | false =>
    rw [descend_absent hroot] at hres
    rw [← (Prod.mk.inj (Except.ok.inj hres)).1]
    simp
  | true =>
    obtain ⟨path', hpath⟩ := descend_complete hheld hordered hcaches hleaf hrowid hroot hinteriors hdepth []
    rw [hpath] at hres
    rw [← (Prod.mk.inj (Except.ok.inj hres)).1, Option.ite_none_right_eq_some]
    simp only [and_true, true_and]

end Descent

/-! ### A table of two leaves -/

/-- The rowid 5 on page 1, the rowid 7 on page 2, and the root on page 3. -/
def twoLeaves : Interior (Tree 0) :=
  { page := 3, cells := [(Leaf.mk 1 [5], 5)], last := Leaf.mk 2 [7] }

/-- The root, as bytes. -/
def rootPage : Bytes := [0x05, 0, 0, 0, 1, 0, 0, 0, 0, 0, 0, 3, 0, 14, 0, 0, 0, 2, 5]

/-- A leaf with one rowid, as bytes. -/
def leafPage (rowid : UInt8) : Bytes := [0x0d, 0, 0, 0, 1, 0, 0, 0, 0, 10, 2, rowid, 2, 0, 0, 0, 0, 0, 0]

/-- The three pages of the file. -/
def twoLeavesFile (p : Nat) : Bytes := if p = 3 then rootPage else leafPage (if p = 1 then 5 else 7)

/-- A cache with the root only. -/
def rootCache : DiskCache 19 :=
  .ofPages (fun p => if p = 3 then some rootPage else none) fun p d hd => by
    split_ifs at hd
    cases hd
    rfl

theorem isTableLeaf_leafPage {b : UInt8} {rowid : BitVec 64} (hval : rowid.toNat = b.toNat)
    (hb : b.toNat < 128) : IsTableLeaf (leafPage b) false [rowid] [10] := by
  refine ⟨⟨by simp [leafPage], rfl, by simp [leafPage, headerOffset], ⟨by simp [leafPage, headerOffset], rfl⟩,
    fun i off hoff => ?_⟩, .cons ⟨2, [2], [b], isVarint_one rfl (by decide), isVarint_one hval hb,
      ⟨by simp [leafPage], ⟨_, rfl⟩⟩⟩ .nil⟩
  cases i with
  | zero =>
    cases hoff
    exact ⟨by simp [leafPage, headerOffset], rfl⟩
  | succ i => cases hoff

theorem held_twoLeaves : Tree.Held (h := 1) twoLeavesFile twoLeaves := by
  refine ⟨⟨[14], ⟨by decide, rfl, by decide, by decide, fun i off hoff => ?_⟩, by decide,
    .cons ⟨by decide, [5], isVarint_one rfl (by decide), by decide⟩ .nil⟩, fun c hc => ?_⟩
  · cases i with
    | zero =>
      cases hoff
      decide
    | succ i => cases hoff
  · rcases (Interior.mem_children _).mp hc with ⟨k, hk⟩ | rfl
    · cases List.mem_singleton.mp hk
      exact ⟨[10], isTableLeaf_leafPage rfl (by decide)⟩
    · exact ⟨[10], isTableLeaf_leafPage rfl (by decide)⟩

theorem ordered_twoLeaves : Tree.Ordered (h := 1) twoLeaves := by
  refine ⟨?_, List.pairwise_singleton _ _, ?_, fun _ _ => trivial⟩
  · rintro c hc r ⟨leaf, hleaf, hr⟩
    cases List.mem_singleton.mp hc
    rw [Tree.mem_leaves_zero.mp hleaf] at hr
    rw [List.mem_singleton.mp hr]
  · rintro c hc r ⟨leaf, hleaf, hr⟩
    cases List.mem_singleton.mp hc
    rw [Tree.mem_leaves_zero.mp hleaf] at hr
    rw [List.mem_singleton.mp hr]
    simp

theorem caches_rootCache : Caches (h := 1) rootCache twoLeavesFile twoLeaves := by
  refine ⟨?_, fun p _ d hd => ?_⟩
  · show ∀ p ∈ [3, 1, 2], (twoLeavesFile p).length = 19
    decide
  · change (if p = 3 then some rootPage else none) = some d at hd
    split_ifs at hd with hp
    rw [← Option.some.inj hd, twoLeavesFile, if_pos hp]

theorem resolve_sound_twoLeaves :
    ∃ path, resolveRowidToPageWithPath rootCache (some {3}) (5 : BitVec 64).toInt 3 = .ok (some 1, path) ∧
      Sound (h := 1) twoLeaves (Leaf.mk 1 [5]) (some 1) path := by
  have hleaf : Leaf.mk 1 [5] ∈ Tree.leaves (h := 1) twoLeaves := List.mem_cons_self
  have hknown : ∀ interiors ∈ some ({3} : Finset Nat),
      ∀ p ∈ Tree.interiors (h := 1) twoLeaves, p ∈ interiors := by
    decide
  obtain ⟨res, path, hres, -, hsound, hfound⟩ := resolve_sound held_twoLeaves ordered_twoLeaves
    caches_rootCache hknown hleaf (List.mem_singleton_self 5)
  obtain rfl := (hfound (by decide) (by decide) {3} rfl).mpr ⟨rfl, .inl (by decide)⟩
  exact ⟨path, hres, hsound⟩

/-- A leaf that is not in the cache is not found where it is the whole tree, and where it is taken for an
interior page. -/
theorem leaf_not_found :
    (Tree.interiors (h := 1) twoLeaves = [3] ∧ isPresent rootCache 3 = true ∧
      Tree.leaves (h := 1) twoLeaves = [Leaf.mk 1 [5], Leaf.mk 2 [7]] ∧
      Tree.Held (h := 1) twoLeavesFile twoLeaves ∧ Tree.Ordered (h := 1) twoLeaves ∧
      Caches (h := 1) rootCache twoLeavesFile twoLeaves ∧
      resolveRowidToPageWithPath rootCache (some {1, 3}) 5 3 = .ok (none, [3, 1])) ∧
    Tree.interiors (h := 0) (Leaf.mk 1 [5]) = [] ∧ Tree.Held (h := 0) twoLeavesFile (Leaf.mk 1 [5]) ∧
      resolveRowidToPageWithPath rootCache (some {}) 5 1 = .ok (none, [1]) := by
  refine ⟨⟨rfl, rfl, rfl, held_twoLeaves, ordered_twoLeaves, caches_rootCache, by decide +kernel⟩, rfl,
    ⟨[10], isTableLeaf_leafPage rfl (by decide)⟩, by decide +kernel⟩

end Lookahead

end Turbolite
