import Mathlib.Data.Finset.Card
import Turbolite.Bundles
import Turbolite.Partition

/-!
# Turbolite.BTreeWalker

`btree_walker.rs`: find the B-trees of a SQLite file in `sqlite_master` and walk each of them. The
file is not trusted: child pointers may repeat or point outside, cells may be cut off, and a schema
row may name any root.

A page number in a page has 32 bits. A root from the schema has 64, and its file offset is computed
modulo 2 ^ 64: arithmetic is that of a release build, where an overflow wraps and an index out of
range still panics.

`covers_iff` says when the trees and the pages no tree owns are every page of the file once.
-/

namespace Turbolite

open Blocks Results Turbolite.Partition

namespace BTreeWalker

/-! ### Wrapping arithmetic -/

/-- The sum of two `u64`s. -/
def wrapAdd (a b : Nat) : Nat := (a + b) % 2 ^ 64

/-- The difference of two `u64`s. -/
def wrapSub (a b : Nat) : Nat := (a + 2 ^ 64 - b) % 2 ^ 64

/-! ### Reading -/

/-- `read_exact_at` of page `p`. -/
def readPage (file : Bytes) (pageSize p : Nat) : Option Bytes :=
  let offset := p * pageSize % 2 ^ 64
  if offset + pageSize ≤ file.length then some ((file.drop offset).take pageSize) else none

/-- Two bytes of a page, big-endian. -/
def beU16At (buf : Bytes) (offset : Nat) : Nat := ofBeBytes ((buf.drop offset).take 2)

/-- `read_varint`: the value and the bytes it took. -/
def readVarint (buf : Bytes) : Nat × Nat := go 8 0 0 buf
where
  go : Nat → Nat → Nat → Bytes → Nat × Nat
    | _, val, i, [] => (val, i)
    -- all 8 bits of the ninth byte are payload
    | 0, val, i, b :: _ => (val * 256 + b.toNat, i + 1)
    | n + 1, val, i, b :: bs =>
      if b.toNat < 128 then (val * 128 + b.toNat, i + 1)
      else go n (val * 128 + b.toNat % 128) (i + 1) bs

/-! ### Cells -/

/-- The cell pointer array; it stops at the end of the page. -/
def cellOffsets (buf : Bytes) (start count : Nat) : List Nat :=
  ((List.range count).takeWhile fun i => start + i * 2 + 2 ≤ buf.length).map fun i =>
    beU16At buf (start + i * 2)

/-- The number of cells in the page header. -/
def cellCount (buf : Bytes) (hdrOff : Nat) : Nat := beU16At buf (hdrOff + 3)

/-- `extract_interior_children`: the right-most child, then the left child of every cell, 1-based. -/
def extractInteriorChildren (buf : Bytes) (hdrOff : Nat) : List Nat :=
  if buf.length < hdrOff + 12 then []
  else
    let maxCells := (buf.length - (hdrOff + 12)) / 2
    beU32At buf (hdrOff + 8) ::
      ((cellOffsets buf (hdrOff + 12) (min (cellCount buf hdrOff) maxCells)).filter
        fun off => off + 4 ≤ buf.length).map (beU32At buf)

/-- What a leaf cell keeps on its page. -/
def maxLocal (pageSize : Nat) (isTable : Bool) : Nat :=
  if isTable then wrapSub pageSize 35 else wrapSub (wrapSub pageSize 12 * 64 / 255) 23

/-- The least that an overflowing cell keeps on its page. -/
def minLocal (pageSize : Nat) : Nat := wrapSub (wrapSub pageSize 12 * 32 / 255) 23

/-- `local_size` of a payload that overflows. -/
def localSize (pageSize payloadSize maxLocal : Nat) : Nat :=
  let surplus := wrapAdd (minLocal pageSize)
    (wrapSub payloadSize (minLocal pageSize) % wrapSub pageSize 4)
  if surplus ≤ maxLocal then surplus else minLocal pageSize

/-- The first overflow page of one leaf cell, 1-based; `none` when the cell is whole. -/
def cellOverflow (buf : Bytes) (pageSize : Nat) (isTable : Bool) (cellOff : Nat) :
    IoResult (Option Nat) :=
  if buf.length ≤ cellOff then .ok none
  else
    let (payloadSize, n) := readVarint (buf.drop cellOff)
    let pos := cellOff + n
    let pos := if isTable then pos + (readVarint (buf.drop pos)).2 else pos
    if payloadSize ≤ maxLocal pageSize isTable then .ok none
    else
      let off := wrapAdd pos (localSize pageSize payloadSize (maxLocal pageSize isTable))
      if buf.length < wrapAdd off 4 then .ok none
      else if buf.length < off + 4 then .error .panic
      else if beU32At buf off = 0 then .ok none
      else .ok (some (beU32At buf off))

/-- `extract_leaf_overflow_pages`. -/
def extractLeafOverflowPages (buf : Bytes) (hdrOff pageSize : Nat) (isTable : Bool) :
    IoResult (List Nat) :=
  if buf.length < hdrOff + 8 then .ok []
  else do
    let firsts ← (cellOffsets buf (hdrOff + 8) (cellCount buf hdrOff)).mapM
      (cellOverflow buf pageSize isTable)
    .ok (firsts.filterMap id)

/-! ### The schema -/

/-- A row of `sqlite_master`. -/
structure MasterEntry where
  objType : String
  name : String
  rootPage : Nat

/-- `serial_type_size`. -/
def serialTypeSize (serialType : Nat) : Nat :=
  match serialType with
  | 0 => 0
  | 1 => 1
  | 2 => 2
  | 3 => 3
  | 4 => 4
  | 5 => 6
  | 6 => 8
  | 7 => 8
  | 8 => 0
  | 9 => 0
  | 10 => 0
  | 11 => 0
  | n => if n % 2 = 0 then (n - 12) / 2 else (n - 13) / 2

/-- `read_column_text`, over `String::from_utf8_lossy`. A length that wraps makes a slice that ends
before it starts. -/
def readColumnText (fromUtf8Lossy : Bytes → String) (buf : Bytes) (pos serialType : Nat) :
    IoResult (Option (String × Nat)) :=
  if serialType < 13 ∨ serialType % 2 ≠ 1 then .ok (some ("", serialTypeSize serialType))
  else
    let len := (serialType - 13) / 2
    if buf.length < wrapAdd pos len then .ok none
    else if buf.length < pos + len then .error .panic
    else .ok (some (fromUtf8Lossy ((buf.drop pos).take len), len))

/-- `val = (val << 8) | byte` over the bytes of a column. -/
def shiftIn (bytes : Bytes) : BitVec 64 :=
  bytes.foldl (fun (val : BitVec 64) (b : UInt8) => val <<< 8 ||| BitVec.ofNat 64 b.toNat) 0

/-- The value of `read_column_int`, cast to `u64`; it is shifted up and back down for its sign. -/
def signExtend (bytes : Bytes) : Nat :=
  let shift := 64 - bytes.length * 8
  ((shiftIn bytes <<< shift).sshiftRight shift).toNat

theorem toNat_shiftIn (bytes : Bytes) : (shiftIn bytes).toNat = ofBeBytes bytes % 2 ^ 64 := by
  unfold shiftIn ofBeBytes
  induction bytes using List.reverseRecOn with
  | nil => rfl
  | append_singleton bytes b ih =>
    have hb := b.toNat_lt
    rw [List.foldl_concat, List.foldl_concat, BitVec.toNat_or, BitVec.toNat_shiftLeft, ih,
      BitVec.toNat_ofNat, ← Nat.or_mod_two_pow,
      ← Nat.shiftLeft_add_eq_or_of_lt (show b.toNat < 2 ^ 8 by omega), Nat.shiftLeft_eq]
    omega

/-- The two shifts give the two's complement of a number of `n` bits. -/
theorem toNat_shift_back {val : BitVec 64} {n : Nat} (hn : 0 < n) (hle : n ≤ 64)
    (hlt : val.toNat < 2 ^ n) :
    ((val <<< (64 - n)).sshiftRight (64 - n)).toNat =
      if val.toNat < 2 ^ (n - 1) then val.toNat else val.toNat + 2 ^ 64 - 2 ^ n := by
  have hword : 2 ^ 64 = 2 ^ n * 2 ^ (64 - n) := by
    rw [← Nat.pow_add, Nat.add_sub_cancel' hle]
  have hhalf : 2 ^ 63 = 2 ^ (n - 1) * 2 ^ (64 - n) := by
    rw [← Nat.pow_add]
    congr 1
    omega
  have hpos : 0 < 2 ^ (64 - n) := Nat.two_pow_pos _
  have hup : (val <<< (64 - n)).toNat = val.toNat * 2 ^ (64 - n) := by
    rw [BitVec.toNat_shiftLeft, Nat.shiftLeft_eq, Nat.mod_eq_of_lt]
    rw [hword]
    exact Nat.mul_lt_mul_of_pos_right hlt hpos
  have hmsb : (val <<< (64 - n)).msb = decide (2 ^ (n - 1) ≤ val.toNat) := by
    rw [BitVec.msb_eq_decide, hup, decide_eq_decide]
    show 2 ^ 63 ≤ _ ↔ _
    rw [hhalf]
    exact Nat.mul_le_mul_right_iff hpos
  rw [BitVec.toNat_sshiftRight, hmsb, hup, Nat.shiftRight_eq_div_pow, Nat.shiftRight_eq_div_pow]
  by_cases hneg : 2 ^ (n - 1) ≤ val.toNat
  · have hdiv : (2 ^ 64 - 1 - val.toNat * 2 ^ (64 - n)) / 2 ^ (64 - n) = 2 ^ n - 1 - val.toNat := by
      have hsub : 2 ^ 64 - 1 - val.toNat * 2 ^ (64 - n) =
          2 ^ (64 - n) - 1 + (2 ^ n - 1 - val.toNat) * 2 ^ (64 - n) := by
        have hsplit : 2 ^ n = 2 ^ n - 1 - val.toNat + 1 + val.toNat := by omega
        have hmul := congrArg (· * 2 ^ (64 - n)) hsplit
        simp only [Nat.add_mul, Nat.one_mul, ← hword] at hmul
        omega
      rw [hsub, Nat.add_mul_div_right _ _ hpos, Nat.div_eq_of_lt (by omega), Nat.zero_add]
    have hbound : 2 ^ n ≤ 2 ^ 64 := Nat.pow_le_pow_right (by decide) hle
    rw [if_pos (decide_eq_true hneg), hdiv, if_neg (Nat.not_lt.mpr hneg)]
    omega
  · rw [if_neg (by simpa using hneg), Nat.mul_div_cancel _ hpos, if_pos (Nat.not_le.mp hneg)]

/-- A signed integer of at most eight bytes. -/
theorem signExtend_eq {bytes : Bytes} (hpos : 0 < bytes.length) (hle : bytes.length ≤ 8) :
    signExtend bytes = if ofBeBytes bytes < 2 ^ (8 * bytes.length - 1) then ofBeBytes bytes
      else ofBeBytes bytes + 2 ^ 64 - 2 ^ (8 * bytes.length) := by
  have hlt : ofBeBytes bytes < 2 ^ (8 * bytes.length) := by
    rw [Nat.pow_mul]
    exact ofBeBytes_lt bytes
  have hval : (shiftIn bytes).toNat = ofBeBytes bytes := by
    rw [toNat_shiftIn, Nat.mod_eq_of_lt]
    exact hlt.trans_le (Nat.pow_le_pow_right (by decide) (by omega))
  rw [← hval] at hlt ⊢
  have hshift := toNat_shift_back (by omega) (by omega) hlt
  rw [Nat.mul_comm] at hshift ⊢
  exact hshift

/-- `read_column_int`, cast to `u64`. -/
def readColumnInt (buf : Bytes) (pos serialType : Nat) : IoResult (Option Nat) :=
  let read (bytes : Nat) : IoResult (Option Nat) :=
    if buf.length < wrapAdd pos bytes then .ok none
    else if buf.length < pos + bytes then .error .panic
    else .ok (some (signExtend ((buf.drop pos).take bytes)))
  match serialType with
  | 0 => .ok (some 0)
  | 1 => read 1
  | 2 => read 2
  | 3 => read 3
  | 4 => read 4
  | 5 => read 6
  | 6 => read 8
  | 8 => .ok (some 0)
  | 9 => .ok (some 1)
  | _ => .ok none

/-- The serial types of a record header that ends at `headerEnd`. -/
def serialTypes (buf : Bytes) (headerEnd : Nat) : Nat → Nat → List Nat
  | 0, _ => []
  | n + 1, pos =>
    if headerEnd ≤ pos ∨ buf.length ≤ pos then []
    else
      let (st, k) := readVarint (buf.drop pos)
      st :: serialTypes buf headerEnd n (pos + k)

/-- `parse_master_cell`. -/
def parseMasterCell (fromUtf8Lossy : Bytes → String) (buf : Bytes) (cellOff : Nat) :
    IoResult (Option MasterEntry) :=
  if buf.length ≤ cellOff then .ok none
  else
    let pos := cellOff + (readVarint (buf.drop cellOff)).2
    let payloadStart := pos + (readVarint (buf.drop pos)).2
    if buf.length ≤ payloadStart then .ok none
    else
      let (headerLen, n) := readVarint (buf.drop payloadStart)
      let headerEnd := wrapAdd payloadStart headerLen
      match serialTypes buf headerEnd 5 (payloadStart + n) with
      | [typeT, nameT, tblT, rootT, _] =>
        if buf.length ≤ headerEnd then .ok none
        else do
          match ← readColumnText fromUtf8Lossy buf headerEnd typeT with
          | none => .ok none
          | some (objType, n) =>
            let pos := wrapAdd headerEnd n
            match ← readColumnText fromUtf8Lossy buf pos nameT with
            | none => .ok none
            | some (name, n) =>
              let pos := wrapAdd (wrapAdd pos n) (serialTypeSize tblT)
              let root ← readColumnInt buf pos rootT
              .ok (root.map fun rootPage => ⟨objType, name, rootPage⟩)
      | _ => .ok none

/-! ### The walks -/

/-- The 32-bit page numbers and the root. -/
@[irreducible] def pageNumbers : Nat := 2 ^ 32 + 1

section

variable (file : Bytes) (pageSize : Nat) (fromUtf8Lossy : Bytes → String)

/-- `collect_leaf_pages_inner`: the leaves so far and the pages seen. A page is entered once, so the
recursion is no deeper than there are page numbers. -/
def collectLeafPagesInner : Nat → Nat → List Nat × List Nat → List Nat × List Nat
  | 0, _, acc => acc
  | fuel + 1, page, (leaves, visited) =>
    if page ∈ visited then (leaves, visited)
    else
      match readPage file pageSize page with
      | none => (leaves, page :: visited)
      | some buf =>
        match buf[btreeHeaderOffset page]? with
        | some 0x05 =>
          (extractInteriorChildren buf (btreeHeaderOffset page)).foldl (fun acc child =>
            if child = 0 then acc else collectLeafPagesInner fuel (child - 1) acc)
            (leaves, page :: visited)
        | some 0x0D => (leaves ++ [page], page :: visited)
        | _ => (leaves, page :: visited)

/-- `collect_leaf_pages`. -/
def collectLeafPages (root : Nat) : List Nat :=
  (collectLeafPagesInner file pageSize pageNumbers root ([], [])).1

/-- The rows of one leaf. -/
def leafEntries (page : Nat) : IoResult (List MasterEntry) :=
  match readPage file pageSize page with
  | none => .ok []
  | some buf =>
    let hdrOff := btreeHeaderOffset page
    if buf.length < hdrOff + 8 then .ok []
    else if buf[hdrOff]? ≠ some 0x0D then .ok []
    else do
      let entries ← (cellOffsets buf (hdrOff + 8) (cellCount buf hdrOff)).mapM
        (parseMasterCell fromUtf8Lossy buf)
      .ok (entries.filterMap id)

/-- `parse_sqlite_master`. -/
def parseSqliteMaster : IoResult (List MasterEntry) := do
  let entries ← (collectLeafPages file pageSize 0).mapM (leafEntries file pageSize fromUtf8Lossy)
  .ok entries.flatten

/-- The walk of one tree: what is left to visit, what was reached, and the pages found. -/
structure WalkState where
  queue : List Nat
  visited : List Nat
  pages : List Nat := []

/-- A child pointer, 1-based. -/
def WalkState.enqueue (st : WalkState) (child : Nat) : WalkState :=
  if child = 0 ∨ child - 1 ∈ st.visited then st
  else { st with queue := st.queue ++ [child - 1], visited := (child - 1) :: st.visited }

/-- An overflow chain from `ovfl` on. Every page of it is a new one below the page count. -/
def followOverflow (pageCount : Nat) : Nat → Nat → WalkState → WalkState
  | 0, _, st => st
  | fuel + 1, ovfl, st =>
    if ovfl ∈ st.visited ∨ pageCount ≤ ovfl then st
    else
      match readPage file pageSize ovfl with
      | none => st
      | some buf =>
        let st := { st with visited := ovfl :: st.visited, pages := st.pages ++ [ovfl] }
        if buf.length < 4 ∨ beU32At buf 0 = 0 then st
        else followOverflow pageCount fuel (beU32At buf 0 - 1) st

/-- One page from the queue. -/
def visitPage (pageCount : Nat) (st : WalkState) (page : Nat) : IoResult WalkState :=
  match readPage file pageSize page with
  | none => .ok st
  | some buf =>
    let st := { st with pages := st.pages ++ [page] }
    let hdrOff := btreeHeaderOffset page
    if buf.length < hdrOff + 12 then .ok st
    else
      match buf[hdrOff]? with
      | some 0x02 => .ok ((extractInteriorChildren buf hdrOff).foldl WalkState.enqueue st)
      | some 0x05 => .ok ((extractInteriorChildren buf hdrOff).foldl WalkState.enqueue st)
      | some 0x0A => do
        let firsts ← extractLeafOverflowPages buf hdrOff pageSize false
        .ok (firsts.foldl (fun st o => followOverflow file pageSize pageCount pageCount (o - 1) st) st)
      | some 0x0D => do
        let firsts ← extractLeafOverflowPages buf hdrOff pageSize true
        .ok (firsts.foldl (fun st o => followOverflow file pageSize pageCount pageCount (o - 1) st) st)
      | _ => .ok st

/-- The loop over the queue. -/
def walkLoop (pageCount : Nat) : Nat → WalkState → IoResult WalkState
  | 0, st => .ok st
  | fuel + 1, st =>
    match st.queue with
    | [] => .ok st
    | page :: rest => do
      let st ← visitPage file pageSize pageCount { st with queue := rest } page
      walkLoop pageCount fuel st

/-- `walk_btree`. A page number is queued once, and one that is queued has 32 bits or is the root. -/
def walkBtree (pageCount root : Nat) : IoResult (List Nat) := do
  let st ← walkLoop file pageSize pageCount pageNumbers { queue := [root], visited := [root] }
  .ok (st.pages.insertionSort (· ≤ ·))

/-- `HashMap::insert`. -/
def insertTree (trees : List (Nat × BTreeEntry)) (root : Nat) (e : BTreeEntry) :
    List (Nat × BTreeEntry) :=
  if root ∈ trees.map (·.1) then trees.map fun t => if t.1 = root then (root, e) else t
  else trees ++ [(root, e)]

/-- One schema row: its tree, and the pages owned so far. -/
def walkEntry (pageCount : Nat) (acc : List (Nat × BTreeEntry) × List Nat) (e : MasterEntry) :
    IoResult (List (Nat × BTreeEntry) × List Nat) :=
  if e.rootPage = 0 then .ok acc
  else do
    let pages ← walkBtree file pageSize pageCount (e.rootPage - 1)
    .ok (insertTree acc.1 (e.rootPage - 1) ⟨e.name, e.objType, pages⟩, acc.2 ++ pages)

/-- `walk_all_btrees`. -/
def walkAllBtrees (pageCount : Nat) : IoResult Walk := do
  let entries ← parseSqliteMaster file pageSize fromUtf8Lossy
  let master ← walkBtree file pageSize pageCount 0
  let (trees, owned) ← entries.foldlM (walkEntry file pageSize pageCount)
    ([(0, ⟨"sqlite_master", "table", master⟩)], master)
  .ok ⟨trees, (List.range pageCount).filter (· ∉ owned)⟩

end

/-! ### One tree -/

section

variable {file : Bytes} {pageSize pageCount root : Nat}

theorem beU32At_sub_one_lt (buf : Bytes) (off : Nat) : beU32At buf off - 1 < 2 ^ 32 :=
  lt_of_le_of_lt (Nat.sub_le _ _) (beU32At_lt buf off)

/-- What the walk of a tree keeps: nothing is queued or recorded twice, what is recorded can be read,
and only the root can have more than 32 bits. -/
structure Inv (file : Bytes) (pageSize root : Nat) (st : WalkState) : Prop where
  nodup : (st.pages ++ st.queue).Nodup
  visited : ∀ p ∈ st.pages ++ st.queue, p ∈ st.visited
  readable : ∀ p ∈ st.pages, (readPage file pageSize p).isSome
  small : ∀ p ∈ st.pages ++ st.queue, p = root ∨ p < 2 ^ 32

theorem Inv.enqueue {st : WalkState} (h : Inv file pageSize root st) {child : Nat}
    (hlt : child - 1 < 2 ^ 32) : Inv file pageSize root (st.enqueue child) := by
  unfold WalkState.enqueue
  split
  · exact h
  · rename_i hnew
    obtain ⟨-, hnew⟩ := not_or.mp hnew
    constructor
    · show (st.pages ++ (st.queue ++ [child - 1])).Nodup
      rw [← List.append_assoc]
      refine h.nodup.append (List.nodup_singleton _) ?_
      intro p hp hp'
      rw [List.mem_singleton.mp hp'] at hp
      exact hnew (h.visited _ hp)
    · intro p hp
      rw [← List.append_assoc] at hp
      cases List.mem_append.mp hp with
      | inl hp => exact List.mem_cons_of_mem _ (h.visited p hp)
      | inr hp => exact List.mem_cons.mpr (.inl (List.mem_singleton.mp hp))
    · exact h.readable
    · intro p hp
      rw [← List.append_assoc] at hp
      cases List.mem_append.mp hp with
      | inl hp => exact h.small p hp
      | inr hp =>
        rw [List.mem_singleton.mp hp]
        exact .inr hlt

theorem Inv.enqueueAll {children : List Nat} (hlt : ∀ c ∈ children, c - 1 < 2 ^ 32) {st : WalkState}
    (h : Inv file pageSize root st) :
    Inv file pageSize root (children.foldl WalkState.enqueue st) := by
  induction children generalizing st with
  | nil => exact h
  | cons c cs ih =>
    exact ih (fun x hx => hlt x (List.mem_cons_of_mem c hx))
      (h.enqueue (hlt c (List.mem_cons_self ..)))

theorem lt_of_mem_extractInteriorChildren {buf : Bytes} {hdrOff c : Nat}
    (h : c ∈ extractInteriorChildren buf hdrOff) : c - 1 < 2 ^ 32 := by
  unfold extractInteriorChildren at h
  split at h
  · cases h
  · cases List.mem_cons.mp h with
    | inl h =>
      rw [h]
      exact beU32At_sub_one_lt ..
    | inr h =>
      obtain ⟨off, -, rfl⟩ := List.mem_map.mp h
      exact beU32At_sub_one_lt ..

/-- A page that was not reached before is recorded. -/
theorem Inv.record {st : WalkState} (h : Inv file pageSize root st) {p : Nat}
    (hnew : p ∉ st.visited) (hread : (readPage file pageSize p).isSome) (hlt : p < 2 ^ 32) :
    Inv file pageSize root
      { st with visited := p :: st.visited, pages := st.pages ++ [p] } where
  nodup := by
    have hperm : (st.pages ++ [p] ++ st.queue).Perm (p :: (st.pages ++ st.queue)) := by
      rw [List.append_assoc]
      exact List.perm_middle
    refine hperm.nodup_iff.mpr (List.nodup_cons.mpr ⟨?_, h.nodup⟩)
    exact fun hp => hnew (h.visited p hp)
  visited q hq := by
    rw [List.append_assoc] at hq
    cases List.mem_cons.mp (List.perm_middle.mem_iff.mp hq) with
    | inl hq => exact List.mem_cons.mpr (.inl hq)
    | inr hq => exact List.mem_cons_of_mem _ (h.visited q hq)
  readable q hq := by
    cases List.mem_append.mp hq with
    | inl hq => exact h.readable q hq
    | inr hq =>
      rw [List.mem_singleton.mp hq]
      exact hread
  small q hq := by
    rw [List.append_assoc] at hq
    cases List.mem_cons.mp (List.perm_middle.mem_iff.mp hq) with
    | inl hq =>
      rw [hq]
      exact .inr hlt
    | inr hq => exact h.small q hq

theorem Inv.followOverflow {fuel ovfl : Nat} (hlt : ovfl < 2 ^ 32) {st : WalkState}
    (h : Inv file pageSize root st) :
    Inv file pageSize root (followOverflow file pageSize pageCount fuel ovfl st) := by
  induction fuel generalizing ovfl st with
  | zero => exact h
  | succ fuel ih =>
    unfold BTreeWalker.followOverflow
    split
    · exact h
    · rename_i hgo
      obtain ⟨hnew, -⟩ := not_or.mp hgo
      cases hread : readPage file pageSize ovfl with
      | none => exact h
      | some buf =>
        have hrec := h.record hnew (by rw [hread]; rfl) hlt
        show Inv file pageSize root (if _ then _ else _)
        split
        · exact hrec
        · exact ih (beU32At_sub_one_lt buf 0) hrec

theorem Inv.followAll {firsts : List Nat} (hlt : ∀ o ∈ firsts, o - 1 < 2 ^ 32) {st : WalkState}
    (h : Inv file pageSize root st) : Inv file pageSize root (firsts.foldl (fun st o =>
      BTreeWalker.followOverflow file pageSize pageCount pageCount (o - 1) st) st) := by
  induction firsts generalizing st with
  | nil => exact h
  | cons o os ih =>
    exact ih (fun x hx => hlt x (List.mem_cons_of_mem o hx))
      (h.followOverflow (hlt o (List.mem_cons_self ..)))

theorem lt_of_cellOverflow {buf : Bytes} {isTable : Bool} {off o : Nat}
    (h : cellOverflow buf pageSize isTable off = .ok (some o)) : o - 1 < 2 ^ 32 := by
  unfold cellOverflow at h
  split at h
  · cases h
  · simp only at h
    generalize wrapAdd _ (localSize _ _ _) = k at h
    split at h
    · cases h
    · split at h
      · cases h
      · split at h
        · cases h
        · split at h
          · cases h
          · cases h
            exact beU32At_sub_one_lt buf k

theorem lt_of_mem_extractLeafOverflowPages {buf : Bytes} {hdrOff : Nat} {isTable : Bool}
    {firsts : List Nat} (h : extractLeafOverflowPages buf hdrOff pageSize isTable = .ok firsts) :
    ∀ o ∈ firsts, o - 1 < 2 ^ 32 := by
  intro o ho
  unfold extractLeafOverflowPages at h
  split at h
  · cases h
    cases ho
  · obtain ⟨os, hos, h⟩ := bind_eq_ok.mp h
    cases h
    obtain ⟨o', ho', rfl⟩ := List.mem_filterMap.mp ho
    obtain ⟨off, -, hoff⟩ := mapM_inv hos _ ho'
    exact lt_of_cellOverflow hoff

/-- The page at the head of the queue is visited. -/
theorem Inv.visitPage {st st' : WalkState} {page : Nat} {rest : List Nat}
    (h : Inv file pageSize root st) (hq : st.queue = page :: rest)
    (hv : visitPage file pageSize pageCount { st with queue := rest } page = .ok st') :
    Inv file pageSize root st' := by
  have hperm : (st.pages ++ st.queue).Perm (page :: (st.pages ++ rest)) := by
    rw [hq]
    exact List.perm_middle
  have hpopped : Inv file pageSize root { st with queue := rest } := by
    have hsub : ∀ p ∈ st.pages ++ rest, p ∈ st.pages ++ st.queue :=
      fun p hp => hperm.mem_iff.mpr (List.mem_cons_of_mem _ hp)
    exact ⟨(List.nodup_cons.mp (hperm.nodup_iff.mp h.nodup)).2, fun p hp => h.visited p (hsub p hp),
      h.readable, fun p hp => h.small p (hsub p hp)⟩
  unfold BTreeWalker.visitPage at hv
  cases hread : readPage file pageSize page with
  | none =>
    rw [hread] at hv
    cases hv
    exact hpopped
  | some buf =>
    rw [hread] at hv
    have hrec : Inv file pageSize root { st with queue := rest, pages := st.pages ++ [page] } := by
      have hperm' : (st.pages ++ [page] ++ rest).Perm (st.pages ++ st.queue) := by
        rw [hq, List.append_assoc]
        rfl
      constructor
      · exact hperm'.nodup_iff.mpr h.nodup
      · exact fun p hp => h.visited p (hperm'.mem_iff.mp hp)
      · intro p hp
        cases List.mem_append.mp hp with
        | inl hp => exact h.readable p hp
        | inr hp =>
          rw [List.mem_singleton.mp hp, hread]
          rfl
      · exact fun p hp => h.small p (hperm'.mem_iff.mp hp)
    simp only at hv
    split at hv
    · cases hv
      exact hrec
    · split at hv
      · cases hv
        exact hrec.enqueueAll fun c => lt_of_mem_extractInteriorChildren
      · cases hv
        exact hrec.enqueueAll fun c => lt_of_mem_extractInteriorChildren
      · obtain ⟨firsts, hf, hv⟩ := bind_eq_ok.mp hv
        cases hv
        exact hrec.followAll (lt_of_mem_extractLeafOverflowPages hf)
      · obtain ⟨firsts, hf, hv⟩ := bind_eq_ok.mp hv
        cases hv
        exact hrec.followAll (lt_of_mem_extractLeafOverflowPages hf)
      · cases hv
        exact hrec

theorem Inv.walkLoop {fuel : Nat} {st st' : WalkState} (h : Inv file pageSize root st)
    (hl : walkLoop file pageSize pageCount fuel st = .ok st') : Inv file pageSize root st' := by
  induction fuel generalizing st with
  | zero =>
    cases hl
    exact h
  | succ fuel ih =>
    unfold BTreeWalker.walkLoop at hl
    cases hq : st.queue with
    | nil =>
      rw [hq] at hl
      cases hl
      exact h
    | cons page rest =>
      rw [hq] at hl
      obtain ⟨st₁, hv, hl⟩ := bind_eq_ok.mp hl
      exact ih (h.visitPage hq hv) hl

/-- The pages of a tree: each once, each can be read, and all but the root have 32 bits. -/
theorem walkBtree_spec {pages : List Nat}
    (h : walkBtree file pageSize pageCount root = .ok pages) : pages.Nodup ∧
      ∀ p ∈ pages, (readPage file pageSize p).isSome ∧ (p = root ∨ p < 2 ^ 32) := by
  obtain ⟨st, hst, h⟩ := bind_eq_ok.mp h
  cases h
  have hinit : Inv file pageSize root { queue := [root], visited := [root] } := by
    constructor
    · exact List.nodup_singleton root
    · exact fun p hp => hp
    · exact fun p hp => absurd hp List.not_mem_nil
    · exact fun p hp => .inl (List.mem_singleton.mp hp)
  have hinv := hinit.walkLoop hst
  have hperm := List.perm_insertionSort (· ≤ ·) st.pages
  refine ⟨hperm.nodup_iff.mpr (List.nodup_append.mp hinv.nodup).1, ?_⟩
  intro p hp
  have hmem := hperm.mem_iff.mp hp
  exact ⟨hinv.readable p hmem, hinv.small p (List.mem_append_left _ hmem)⟩

end

/-! ### The walk ends -/

section

variable {file : Bytes} {pageSize pageCount root : Nat}

/-- How many 32-bit page numbers there are besides those that were reached. -/
def unreached (visited : List Nat) : Nat := 2 ^ 32 - (visited.toFinset.filter (· < 2 ^ 32)).card

theorem unreached_anti {visited visited' : List Nat} (h : visited ⊆ visited') :
    unreached visited' ≤ unreached visited := by
  apply Nat.sub_le_sub_left
  apply Finset.card_le_card
  intro p hp
  obtain ⟨hmem, hlt⟩ := Finset.mem_filter.mp hp
  exact Finset.mem_filter.mpr ⟨List.mem_toFinset.mpr (h (List.mem_toFinset.mp hmem)), hlt⟩

/-- A page that is reached now was one of them. -/
theorem unreached_cons {visited : List Nat} {p : Nat} (hlt : p < 2 ^ 32) (hnew : p ∉ visited) :
    unreached (p :: visited) + 1 = unreached visited := by
  have hmem : p ∉ visited.toFinset.filter (· < 2 ^ 32) :=
    fun h => hnew (List.mem_toFinset.mp (Finset.mem_filter.mp h).1)
  have hcard : ((p :: visited).toFinset.filter (· < 2 ^ 32)).card =
      (visited.toFinset.filter (· < 2 ^ 32)).card + 1 := by
    rw [List.toFinset_cons, Finset.filter_insert, if_pos hlt, Finset.card_insert_of_notMem hmem]
  have hle : ((p :: visited).toFinset.filter (· < 2 ^ 32)).card ≤ 2 ^ 32 := by
    calc ((p :: visited).toFinset.filter (· < 2 ^ 32)).card ≤ (Finset.range (2 ^ 32)).card := by
          apply Finset.card_le_card
          intro q hq
          exact Finset.mem_range.mpr (Finset.mem_filter.mp hq).2
      _ = 2 ^ 32 := Finset.card_range _
  unfold unreached
  omega

/-- How many pages can still come out of the queue. -/
def WalkState.budget (st : WalkState) : Nat := st.queue.length + unreached st.visited

/-- A page that is queued was not reached before. -/
theorem WalkState.budget_enqueue (st : WalkState) {child : Nat} (hlt : child - 1 < 2 ^ 32) :
    (st.enqueue child).budget ≤ st.budget := by
  unfold WalkState.enqueue
  split
  · exact Nat.le_refl _
  · rename_i hnew
    have hcons := unreached_cons hlt (not_or.mp hnew).2
    simp only [WalkState.budget, List.length_append, List.length_singleton]
    omega

theorem WalkState.budget_le_of_visited {st st' : WalkState} (hq : st'.queue = st.queue)
    (hv : st.visited ⊆ st'.visited) : st'.budget ≤ st.budget := by
  have hanti := unreached_anti hv
  unfold WalkState.budget
  rw [hq]
  omega

theorem budget_followOverflow (fuel ovfl : Nat) (st : WalkState) :
    (followOverflow file pageSize pageCount fuel ovfl st).budget ≤ st.budget := by
  induction fuel generalizing ovfl st with
  | zero => exact Nat.le_refl _
  | succ fuel ih =>
    unfold followOverflow
    split
    · exact Nat.le_refl _
    · cases readPage file pageSize ovfl with
      | none => exact Nat.le_refl _
      | some buf =>
        have hrec : WalkState.budget
            { st with visited := ovfl :: st.visited, pages := st.pages ++ [ovfl] } ≤ st.budget :=
          WalkState.budget_le_of_visited rfl (List.subset_cons_self _ _)
        show WalkState.budget (if _ then _ else _) ≤ _
        split
        · exact hrec
        · exact (ih _ _).trans hrec

theorem budget_foldl {f : WalkState → Nat → WalkState} {xs : List Nat}
    (hf : ∀ st, ∀ x ∈ xs, (f st x).budget ≤ st.budget) (st : WalkState) :
    (xs.foldl f st).budget ≤ st.budget := by
  induction xs generalizing st with
  | nil => exact Nat.le_refl _
  | cons x xs ih =>
    exact (ih (fun st y hy => hf st y (List.mem_cons_of_mem x hy)) _).trans
      (hf st x (List.mem_cons_self ..))

theorem budget_visitPage {st st' : WalkState} {page : Nat}
    (h : visitPage file pageSize pageCount st page = .ok st') : st'.budget ≤ st.budget := by
  unfold visitPage at h
  cases hread : readPage file pageSize page with
  | none =>
    rw [hread] at h
    cases h
    exact Nat.le_refl _
  | some buf =>
    rw [hread] at h
    have hrec : WalkState.budget { st with pages := st.pages ++ [page] } = st.budget := rfl
    have hchildren : ∀ hdrOff, ((extractInteriorChildren buf hdrOff).foldl WalkState.enqueue
        { st with pages := st.pages ++ [page] }).budget ≤ st.budget := by
      intro hdrOff
      exact budget_foldl (fun st c hc => st.budget_enqueue (lt_of_mem_extractInteriorChildren hc)) _
    simp only at h
    split at h
    · cases h
      exact Nat.le_of_eq hrec
    · split at h
      · cases h
        exact hchildren _
      · cases h
        exact hchildren _
      · obtain ⟨firsts, -, h⟩ := bind_eq_ok.mp h
        cases h
        exact budget_foldl (fun st o _ => budget_followOverflow pageCount (o - 1) st) _
      · obtain ⟨firsts, -, h⟩ := bind_eq_ok.mp h
        cases h
        exact budget_foldl (fun st o _ => budget_followOverflow pageCount (o - 1) st) _
      · cases h
        exact Nat.le_of_eq hrec

theorem walkLoop_ends {fuel : Nat} {st st' : WalkState} (hb : st.budget ≤ fuel)
    (h : walkLoop file pageSize pageCount fuel st = .ok st') : st'.queue = [] := by
  induction fuel generalizing st with
  | zero =>
    obtain rfl : st = st' := Except.ok.inj h
    have hlen : st.queue.length ≤ 0 := (Nat.le_add_right _ _).trans hb
    exact List.length_eq_zero_iff.mp (Nat.le_zero.mp hlen)
  | succ fuel ih =>
    unfold walkLoop at h
    cases hq : st.queue with
    | nil =>
      rw [hq] at h
      cases h
      exact hq
    | cons page rest =>
      rw [hq] at h
      obtain ⟨st₁, hv, h⟩ := bind_eq_ok.mp h
      refine ih ?_ h
      have hle := budget_visitPage hv
      have hpop : WalkState.budget { st with queue := rest } + 1 = st.budget := by
        simp only [WalkState.budget, hq, List.length_cons]
        omega
      omega

/-- The walk of a tree stops because its queue is empty. -/
theorem walkBtree_ends {pages : List Nat}
    (h : walkBtree file pageSize pageCount root = .ok pages) : ∃ st : WalkState,
      walkLoop file pageSize pageCount pageNumbers { queue := [root], visited := [root] } = .ok st ∧
        st.queue = [] ∧ pages = st.pages.insertionSort (· ≤ ·) := by
  obtain ⟨st, hst, h⟩ := bind_eq_ok.mp h
  refine ⟨st, hst, walkLoop_ends ?_ hst, (Except.ok.inj h).symm⟩
  unfold WalkState.budget pageNumbers unreached
  simp only [List.length_singleton]
  omega

theorem subset_collectLeafPagesInner (fuel page : Nat) (acc : List Nat × List Nat) :
    acc.2 ⊆ (collectLeafPagesInner file pageSize fuel page acc).2 := by
  induction fuel generalizing page acc with
  | zero => exact List.Subset.refl _
  | succ fuel ih =>
    unfold collectLeafPagesInner
    have hfold : ∀ (cs : List Nat) (acc' : List Nat × List Nat), acc.2 ⊆ acc'.2 →
        acc.2 ⊆ (cs.foldl (fun acc c => if c = 0 then acc else
          collectLeafPagesInner file pageSize fuel (c - 1) acc) acc').2 := by
      intro cs
      induction cs with
      | nil => exact fun acc' h => h
      | cons c cs ihc =>
        intro acc' h
        apply ihc
        show acc.2 ⊆ (if c = 0 then acc' else _).2
        split
        · exact h
        · exact List.Subset.trans h (ih (c - 1) acc')
    split
    · exact List.Subset.refl _
    · split
      · exact List.subset_cons_self _ _
      · split
        · exact hfold _ _ (List.subset_cons_self _ _)
        · exact List.subset_cons_self _ _
        · exact List.subset_cons_self _ _

/-- The recursion over `sqlite_master` does not run out of fuel: more of it finds the same leaves. -/
theorem collectLeafPagesInner_stable {fuel fuel' page : Nat} {acc : List Nat × List Nat}
    (hlt : page < 2 ^ 32) (hfuel : unreached acc.2 < fuel) (hle : fuel ≤ fuel') :
    collectLeafPagesInner file pageSize fuel' page acc =
      collectLeafPagesInner file pageSize fuel page acc := by
  induction fuel generalizing fuel' page acc with
  | zero => exact absurd hfuel (Nat.not_lt_zero _)
  | succ fuel ih =>
    obtain ⟨k, rfl⟩ : ∃ k, fuel' = k + 1 := ⟨fuel' - 1, by omega⟩
    have hle' : fuel ≤ k := Nat.le_of_succ_le_succ hle
    -- the children of an interior page, one after the other
    have hfold : ∀ (cs : List Nat), (∀ c ∈ cs, c - 1 < 2 ^ 32) → ∀ acc' : List Nat × List Nat,
        unreached acc'.2 < fuel →
        cs.foldl (fun acc c => if c = 0 then acc else
          collectLeafPagesInner file pageSize k (c - 1) acc) acc' =
        cs.foldl (fun acc c => if c = 0 then acc else
          collectLeafPagesInner file pageSize fuel (c - 1) acc) acc' := by
      intro cs
      induction cs with
      | nil => exact fun _ _ _ => rfl
      | cons c cs ihc =>
        intro hcs acc' hacc
        rw [List.foldl_cons, List.foldl_cons]
        have hrest := fun x hx => hcs x (List.mem_cons_of_mem c hx)
        split
        · exact ihc hrest acc' hacc
        · rw [ih (hcs c (List.mem_cons_self ..)) hacc hle']
          refine ihc hrest _ (lt_of_le_of_lt ?_ hacc)
          exact unreached_anti (subset_collectLeafPagesInner fuel (c - 1) acc')
    unfold collectLeafPagesInner
    split
    · rfl
    · rename_i hnew
      have hcons := unreached_cons hlt hnew
      split
      · rfl
      · split
        · exact hfold _ (fun c => lt_of_mem_extractInteriorChildren) _ (by simp only; omega)
        · rfl
        · rfl

/-- The leaves of `sqlite_master`, whatever the fuel beyond the page numbers. -/
theorem collectLeafPages_stable {fuel : Nat} (h : pageNumbers ≤ fuel) (hroot : root < 2 ^ 32) :
    (collectLeafPagesInner file pageSize fuel root ([], [])).1 =
      collectLeafPages file pageSize root := by
  unfold collectLeafPages
  rw [collectLeafPagesInner_stable hroot ?_ h]
  unfold unreached pageNumbers
  omega

end

/-! ### All trees -/

section

variable {file : Bytes} {pageSize pageCount : Nat} {fromUtf8Lossy : Bytes → String}

/-- The roots the schema names, with its own. -/
def rootsOf (entries : List MasterEntry) : List Nat :=
  0 :: (entries.filter fun e => e.rootPage ≠ 0).map fun e => e.rootPage - 1

/-- The trees of the map and what they own, after the schema rows with these roots. `walks` is what the
walk from a root finds. -/
structure Trees (walks : Nat → List Nat → Prop) (roots : List Nat)
    (acc : List (Nat × BTreeEntry) × List Nat) : Prop where
  nodup : (acc.1.map (·.1)).Nodup
  roots : ∀ r, r ∈ acc.1.map (·.1) ↔ r ∈ roots
  walked : ∀ t ∈ acc.1, walks t.1 t.2.pages
  owned : ∀ p, p ∈ acc.2 ↔ ∃ t ∈ acc.1, p ∈ t.2.pages

theorem map_fst_insertTree (trees : List (Nat × BTreeEntry)) (root : Nat) (e : BTreeEntry) :
    (insertTree trees root e).map (·.1) =
      if root ∈ trees.map (·.1) then trees.map (·.1) else trees.map (·.1) ++ [root] := by
  unfold insertTree
  split
  · rw [List.map_map]
    apply List.map_congr_left
    intro t _
    simp only [Function.comp_apply]
    split
    · rename_i he
      exact he.symm
    · rfl
  · rw [List.map_append]
    rfl

/-- Walking a root again finds the same pages, so an entry that is replaced owned the same. -/
theorem mem_insertTree {trees : List (Nat × BTreeEntry)} {root : Nat} {e : BTreeEntry}
    {t : Nat × BTreeEntry} (h : t ∈ insertTree trees root e) : t = (root, e) ∨ t ∈ trees := by
  unfold insertTree at h
  split at h
  · obtain ⟨t', ht', rfl⟩ := List.mem_map.mp h
    split
    · exact .inl rfl
    · exact .inr ht'
  · cases List.mem_append.mp h with
    | inl h => exact .inr h
    | inr h => exact .inl (List.mem_singleton.mp h)

theorem mem_insertTree_self (trees : List (Nat × BTreeEntry)) (root : Nat) (e : BTreeEntry) :
    (root, e) ∈ insertTree trees root e := by
  unfold insertTree
  split
  · rename_i hmem
    obtain ⟨t, ht, hroot⟩ := List.mem_map.mp hmem
    exact List.mem_map.mpr ⟨t, ht, if_pos hroot⟩
  · exact List.mem_append_right _ (List.mem_singleton_self _)

theorem mem_insertTree_of_ne {trees : List (Nat × BTreeEntry)} {root : Nat} {e : BTreeEntry}
    {t : Nat × BTreeEntry} (h : t ∈ trees) (hne : t.1 ≠ root) : t ∈ insertTree trees root e := by
  unfold insertTree
  split
  · exact List.mem_map.mpr ⟨t, h, if_neg hne⟩
  · exact List.mem_append_left _ h

/-- The tree of `sqlite_master` alone. -/
theorem Trees.single {walks : Nat → List Nat → Prop} {pages : List Nat} (h : walks 0 pages)
    (name objType : String) : Trees walks [0] ([(0, ⟨name, objType, pages⟩)], pages) where
  nodup := List.nodup_singleton 0
  roots r := Iff.rfl
  walked t ht := by
    rw [List.mem_singleton.mp ht]
    exact h
  owned p := by simp

theorem Trees.insert {walks : Nat → List Nat → Prop} {roots : List Nat}
    {acc : List (Nat × BTreeEntry) × List Nat} (h : Trees walks roots acc)
    (hfun : ∀ r ps ps', walks r ps → walks r ps' → ps = ps') {root : Nat} {pages : List Nat}
    (hw : walks root pages) (name objType : String) : Trees walks (roots ++ [root])
      (insertTree acc.1 root ⟨name, objType, pages⟩, acc.2 ++ pages) where
  nodup := by
    rw [map_fst_insertTree]
    split
    · exact h.nodup
    · rename_i hnew
      refine h.nodup.append (List.nodup_singleton root) ?_
      intro r hr hr'
      rw [List.mem_singleton.mp hr'] at hr
      exact hnew hr
  roots r := by
    rw [map_fst_insertTree, List.mem_append, List.mem_singleton, ← h.roots r]
    split
    · rename_i hmem
      constructor
      · exact .inl
      · intro hr
        cases hr with
        | inl hr => exact hr
        | inr hr => exact hr ▸ hmem
    · rw [List.mem_append, List.mem_singleton]
  walked t ht := by
    cases mem_insertTree ht with
    | inl heq =>
      rw [heq]
      exact hw
    | inr ht => exact h.walked t ht
  owned p := by
    rw [List.mem_append, h.owned p]
    constructor
    · intro hp
      cases hp with
      | inl hp =>
        obtain ⟨t, ht, hp⟩ := hp
        by_cases hroot : t.1 = root
        · have hsame := h.walked t ht
          rw [hroot] at hsame
          obtain rfl : pages = t.2.pages := hfun root pages t.2.pages hw hsame
          exact ⟨_, mem_insertTree_self .., hp⟩
        · exact ⟨t, mem_insertTree_of_ne ht hroot, hp⟩
      | inr hp => exact ⟨_, mem_insertTree_self .., hp⟩
    · intro hp
      obtain ⟨t, ht, hp⟩ := hp
      cases mem_insertTree ht with
      | inl heq =>
        rw [heq] at hp
        exact .inr hp
      | inr ht => exact .inl ⟨t, ht, hp⟩

theorem rootsOf_append (entries : List MasterEntry) (e : MasterEntry) :
    rootsOf (entries ++ [e]) =
      if e.rootPage = 0 then rootsOf entries else rootsOf entries ++ [e.rootPage - 1] := by
  unfold rootsOf
  rw [List.filter_append, List.map_append]
  split
  · rename_i h
    simp [h]
  · rename_i h
    simp [h]

/-- The trees and the unowned pages are the pages below `n` once each when the trees share no page and
have none from `n` on. -/
theorem Trees.covers_iff {walks : Nat → List Nat → Prop} {roots owned : List Nat} {w : Walk} {n : Nat}
    (h : Trees walks roots (w.btrees, owned)) (hfun : ∀ r ps ps', walks r ps → walks r ps' → ps = ps')
    (hunowned : w.unowned = (List.range n).filter (· ∉ owned))
    (hnodup : ∀ r ps, walks r ps → ps.Nodup) :
    Covers w n ↔
      (∀ r ∈ roots, ∀ r' ∈ roots, r ≠ r' → ∀ ps ps', walks r ps → walks r' ps' → ∀ p ∈ ps, p ∉ ps') ∧
        ∀ r ∈ roots, ∀ ps, walks r ps → ∀ p ∈ ps, p < n := by
  have hmemOwned : ∀ p, p ∈ w.btrees.flatMap (·.2.pages) ↔ p ∈ owned := by
    intro p
    rw [h.owned p, List.mem_flatMap]
  unfold Covers
  constructor
  · intro hperm
    have hnd : (w.btrees.flatMap (·.2.pages)).Nodup :=
      (List.nodup_append.mp (hperm.nodup_iff.mpr List.nodup_range)).1
    constructor
    · -- two trees that share a page list it twice
      intro r hr r' hr' hne ps ps' hps hps' p hp hp'
      obtain ⟨t, ht, rfl⟩ := List.mem_map.mp ((h.roots r).mpr hr)
      obtain ⟨t', ht', rfl⟩ := List.mem_map.mp ((h.roots r').mpr hr')
      obtain rfl : t.2.pages = ps := hfun t.1 _ _ (h.walked t ht) hps
      obtain rfl : t'.2.pages = ps' := hfun t'.1 _ _ (h.walked t' ht') hps'
      have hsymm : Std.Symm (Function.onFun List.Disjoint fun t : Nat × BTreeEntry => t.2.pages) :=
        ⟨fun _ _ h => h.symm⟩
      have hdisj := (List.nodup_flatMap.mp hnd).2.forall ht ht' fun he => hne (congrArg Prod.fst he)
      exact hdisj hp hp'
    · -- every page listed is one of the database
      intro r hr ps hps p hp
      obtain ⟨t, ht, rfl⟩ := List.mem_map.mp ((h.roots r).mpr hr)
      obtain rfl : t.2.pages = ps := hfun t.1 _ _ (h.walked t ht) hps
      have hmem : p ∈ w.btrees.flatMap (·.2.pages) := List.mem_flatMap.mpr ⟨t, ht, hp⟩
      exact List.mem_range.mp (hperm.mem_iff.mp (List.mem_append_left _ hmem))
  · intro hboth
    obtain ⟨hdisjoint, hlt⟩ := hboth
    have hroots : ∀ t ∈ w.btrees, t.1 ∈ roots := by
      intro t ht
      exact (h.roots t.1).mp (List.mem_map_of_mem ht)
    -- no page is listed twice: not within one tree, and not in two of them
    have hnd : (w.btrees.flatMap (·.2.pages)).Nodup := by
      refine List.nodup_flatMap.mpr ⟨fun t ht => hnodup t.1 t.2.pages (h.walked t ht), ?_⟩
      refine (List.pairwise_map.mp h.nodup).imp_of_mem ?_
      intro t t' ht ht' hne p hp hp'
      exact hdisjoint t.1 (hroots t ht) t'.1 (hroots t' ht') hne _ _ (h.walked t ht)
        (h.walked t' ht') p hp hp'
    -- nor is an owned page among the unowned
    have hall : (w.btrees.flatMap (·.2.pages) ++ w.unowned).Nodup := by
      rw [hunowned]
      refine hnd.append (List.nodup_range.filter _) ?_
      intro p hp hp'
      have hnot := (List.mem_filter.mp hp').2
      simp only [decide_eq_true_eq] at hnot
      exact hnot ((hmemOwned p).mp hp)
    refine (List.perm_ext_iff_of_nodup hall List.nodup_range).mpr ?_
    intro p
    rw [List.mem_append, hunowned, List.mem_filter, hmemOwned p, List.mem_range]
    simp only [decide_eq_true_eq]
    constructor
    · intro hp
      cases hp with
      | inl hp =>
        obtain ⟨t, ht, hp⟩ := (h.owned p).mp hp
        exact hlt t.1 (hroots t ht) t.2.pages (h.walked t ht) p hp
      | inr hp => exact hp.1
    · intro hp
      by_cases howned : p ∈ owned
      · exact .inl howned
      · exact .inr ⟨hp, howned⟩

theorem walkBtree_fun (r : Nat) (ps ps' : List Nat) (h : walkBtree file pageSize pageCount r = .ok ps)
    (h' : walkBtree file pageSize pageCount r = .ok ps') : ps = ps' :=
  Except.ok.inj (h.symm.trans h')

/-- What a walk of all trees found. -/
theorem walkAllBtrees_spec {w : Walk}
    (h : walkAllBtrees file pageSize fromUtf8Lossy pageCount = .ok w) :
    ∃ entries owned, parseSqliteMaster file pageSize fromUtf8Lossy = .ok entries ∧
      Trees (fun r ps => walkBtree file pageSize pageCount r = .ok ps) (rootsOf entries)
        (w.btrees, owned) ∧
      w.unowned = (List.range pageCount).filter (· ∉ owned) := by
  obtain ⟨entries, hentries, h⟩ := bind_eq_ok.mp h
  obtain ⟨master, hmaster, h⟩ := bind_eq_ok.mp h
  obtain ⟨⟨trees, owned⟩, hfold, h⟩ := bind_eq_ok.mp h
  cases h
  refine ⟨entries, owned, hentries, ?_, rfl⟩
  refine foldlM_inv (P := fun ys acc => Trees (fun r ps => walkBtree file pageSize pageCount r = .ok ps)
    (rootsOf ys) acc) (.single hmaster _ _) ?_ hfold
  intro ys e acc acc' _ hacc hstep
  unfold BTreeWalker.walkEntry at hstep
  split at hstep
  · rename_i hzero
    cases hstep
    rw [rootsOf_append, if_pos hzero]
    exact hacc
  · rename_i hne
    obtain ⟨pages, hpages, hstep⟩ := bind_eq_ok.mp hstep
    cases hstep
    rw [rootsOf_append, if_neg hne]
    exact hacc.insert walkBtree_fun hpages e.name e.objType

/-! ### Every page once -/

/-- No page is reached from two roots, and no root past the end of the file can be read: the offset
of one from 2 ^ 64 / page_size on may wrap into the file. -/
structure Apart (file : Bytes) (pageSize pageCount : Nat) (roots : List Nat) : Prop where
  disjoint : ∀ r ∈ roots, ∀ r' ∈ roots, r ≠ r' → ∀ ps ps', walkBtree file pageSize pageCount r = .ok ps →
    walkBtree file pageSize pageCount r' = .ok ps' → ∀ p ∈ ps, p ∉ ps'
  inFile : ∀ r ∈ roots, ∀ ps, walkBtree file pageSize pageCount r = .ok ps → r ∈ ps → r < pageCount

/-- A page number of 32 bits is read where it is in the file. -/
theorem readPage_of_small {p : Nat} (hpos : 0 < pageSize) (hle : pageSize ≤ 65536) (hp : p < 2 ^ 32) :
    readPage file pageSize p =
      if p < file.length / pageSize then some (block pageSize p file) else none := by
  have hwrap : p * pageSize % 2 ^ 64 = p * pageSize := by
    apply Nat.mod_eq_of_lt
    calc p * pageSize ≤ p * 65536 := Nat.mul_le_mul_left p hle
      _ < 2 ^ 64 := by omega
  have hiff : p * pageSize + pageSize ≤ file.length ↔ p < file.length / pageSize := by
    rw [Nat.lt_iff_add_one_le, Nat.le_div_iff_mul_le hpos, Nat.add_mul, Nat.one_mul]
  unfold readPage
  rw [hwrap]
  by_cases hlt : p < file.length / pageSize
  · rw [if_pos (hiff.mpr hlt), if_pos hlt]
    rfl
  · rw [if_neg (fun h => hlt (hiff.mp h)), if_neg hlt]

/-- The trees and the unowned pages are every page of the file once exactly when the trees are apart. -/
theorem covers_iff (hpos : 0 < pageSize) (hle : pageSize ≤ 65536) {w : Walk}
    {entries : List MasterEntry} (hentries : parseSqliteMaster file pageSize fromUtf8Lossy = .ok entries)
    (h : walkAllBtrees file pageSize fromUtf8Lossy (file.length / pageSize) = .ok w) :
    Covers w (file.length / pageSize) ↔
      Apart file pageSize (file.length / pageSize) (rootsOf entries) := by
  obtain ⟨entries', owned, hentries', htrees, hunowned⟩ := walkAllBtrees_spec h
  obtain rfl : entries' = entries := Except.ok.inj (hentries'.symm.trans hentries)
  rw [htrees.covers_iff walkBtree_fun hunowned fun r ps hps => (walkBtree_spec hps).1]
  constructor
  · intro hboth
    obtain ⟨hdisjoint, hlt⟩ := hboth
    exact ⟨hdisjoint, fun r hr ps hps hmem => hlt r hr ps hps r hmem⟩
  · intro hapart
    refine ⟨hapart.disjoint, ?_⟩
    intro r hr ps hps p hp
    obtain ⟨hread, hsmall⟩ := (walkBtree_spec hps).2 p hp
    cases hsmall with
    | inl hroot =>
      rw [hroot] at hp ⊢
      exact hapart.inFile r hr ps hps hp
    | inr hsmall =>
      rw [readPage_of_small hpos hle hsmall] at hread
      split at hread
      · assumption
      · cases hread

end

end BTreeWalker

end Turbolite
