import Turbolite.WalkPartition

/-!
# Turbolite.WalkAgreement

The two builds of `btree_walker.rs`: what a walk with checked arithmetic returns, the walk with wrapping
arithmetic returns too.

Each function of the one is compared with the same function of the other (`Agrees`), where the checked one
succeeds. The loops of the two have different fuel: `collectLeafPagesInner_agrees` and
`followOverflow_agrees` count the pages that are not visited yet.
-/

namespace Turbolite

open Blocks Results

namespace PageWalk

open BTreeWalker (cellOffsets cellCount beU16At readVarint serialTypeSize signExtend MasterEntry WalkState
  wrapAdd wrapSub)
open Search (State)

/-! ### Arithmetic and reads -/

section

variable {buf bytes : Bytes} {a b n i : Nat}

theorem add_inv (h : add a b = .ok n) : a + b < 2 ^ 64 ∧ n = a + b := by
  by_cases hfit : a + b < 2 ^ 64
  · rw [add_of_lt hfit] at h
    exact ⟨hfit, (Except.ok.inj h).symm⟩
  · rw [add_of_le (Nat.not_lt.mp hfit)] at h
    cases h

theorem sub_inv (h : sub a b = .ok n) : b ≤ a ∧ n = a - b := by
  by_cases hle : b ≤ a
  · rw [sub_of_le hle] at h
    exact ⟨hle, (Except.ok.inj h).symm⟩
  · rw [sub_of_lt (Nat.not_le.mp hle)] at h
    cases h

theorem mul_inv (h : mul a b = .ok n) : n = a * b := by
  unfold mul Checked.mul? at h
  split at h
  · exact (Except.ok.inj h).symm
  · cases h

theorem slice_inv (h : slice buf i n = .ok bytes) : n ≤ buf.length ∧ bytes = (buf.drop i).take (n - i) := by
  unfold slice Checked.slice? at h
  split at h
  · rename_i hin
    exact ⟨hin.2, (Except.ok.inj h).symm⟩
  · cases h

theorem byteAt_inv {b : UInt8} (h : byteAt buf i = .ok b) : buf[i]? = some b := by
  unfold byteAt at h
  cases hget : buf[i]? with
  | none =>
    rw [hget] at h
    cases h
  | some c =>
    rw [hget] at h
    rw [Except.ok.inj h]

theorem u16At_inv (h : u16At buf i = .ok n) : n = beU16At buf i := by
  obtain ⟨bytes, hbytes, h⟩ := bind_eq_ok.mp h
  rw [← Except.ok.inj h, (slice_inv hbytes).2, Nat.add_sub_cancel_left]
  rfl

theorem u32At_inv (h : u32At buf i = .ok n) : i + 4 ≤ buf.length ∧ n = beU32At buf i := by
  obtain ⟨bytes, hbytes, h⟩ := bind_eq_ok.mp h
  obtain ⟨hle, rfl⟩ := slice_inv hbytes
  rw [Nat.add_sub_cancel_left] at h
  exact ⟨hle, (Except.ok.inj h).symm⟩

theorem varintAt_inv {r : Nat × Nat} (h : varintAt buf i = .ok r) : r = readVarint (buf.drop i) := by
  obtain ⟨bytes, hbytes, h⟩ := bind_eq_ok.mp h
  rw [← Except.ok.inj h, (slice_inv hbytes).2, ← List.length_drop, List.take_length]

theorem wrapAdd_of_lt (h : a + b < 2 ^ 64) : wrapAdd a b = a + b := Nat.mod_eq_of_lt h

theorem wrapSub_of_le (h : b ≤ a) (ha : a < 2 ^ 64) : wrapSub a b = a - b := by
  unfold wrapSub
  omega

/-- A varint has 64 bits: eight times seven, and the whole of the ninth byte. -/
theorem readVarint_fst_lt (buf : Bytes) : (readVarint buf).1 < 2 ^ 64 := by
  -- `k` bytes are read, and `n` more bytes of seven bits may follow
  have hgo : ∀ (n k val i : Nat) (bs : Bytes), n + k = 8 → val < 128 ^ k →
      (readVarint.go n val i bs).1 < 2 ^ 64 := by
    intro n k val i bs
    induction bs generalizing n k val i with
    | nil =>
      intro hk hval
      have hle : 128 ^ k ≤ 128 ^ 8 := Nat.pow_le_pow_right (by decide) (by omega)
      cases n with
      | zero =>
        rw [readVarint.go]
        omega
      | succ n =>
        rw [readVarint.go]
        omega
    | cons b bs ih =>
      intro hk hval
      have hb := b.toNat_lt
      cases n with
      | zero =>
        obtain rfl : k = 8 := by omega
        rw [readVarint.go]
        omega
      | succ n =>
        have hnext : val * 128 + b.toNat % 128 < 128 ^ (k + 1) := by
          rw [Nat.pow_succ]
          omega
        have hle : 128 ^ (k + 1) ≤ 128 ^ 8 := Nat.pow_le_pow_right (by decide) (by omega)
        rw [readVarint.go]
        split
        · omega
        · exact ih n (k + 1) _ _ (by omega) hnext
  exact hgo 8 0 0 0 buf rfl Nat.one_pos

end

/-! ### Cells -/

section

variable {buf : Bytes} {pageSize payload max n hdrOff off : Nat} {isTable : Bool}

theorem maxLocal_agrees (hsize : pageSize < 2 ^ 32) (h : maxLocal pageSize isTable = .ok n) :
    BTreeWalker.maxLocal pageSize isTable = n := by
  unfold maxLocal at h
  unfold BTreeWalker.maxLocal
  cases isTable with
  | true =>
    rw [if_pos rfl] at h ⊢
    obtain ⟨hle, rfl⟩ := sub_inv h
    exact wrapSub_of_le hle (by omega)
  | false =>
    rw [if_neg Bool.false_ne_true] at h ⊢
    obtain ⟨n₁, hn₁, h⟩ := bind_eq_ok.mp h
    obtain ⟨n₂, hn₂, h⟩ := bind_eq_ok.mp h
    obtain ⟨h12, rfl⟩ := sub_inv hn₁
    obtain rfl := mul_inv hn₂
    obtain ⟨h23, rfl⟩ := sub_inv h
    rw [wrapSub_of_le h12 (by omega), wrapSub_of_le h23 (by omega)]

theorem localSize_agrees (hsize : pageSize < 2 ^ 32) (hpayload : payload < 2 ^ 64)
    (h : localSize pageSize payload max = .ok n) : BTreeWalker.localSize pageSize payload max = n := by
  obtain ⟨n₁, hn₁, h⟩ := bind_eq_ok.mp h
  obtain ⟨n₂, hn₂, h⟩ := bind_eq_ok.mp h
  obtain ⟨minLocal, hmin, h⟩ := bind_eq_ok.mp h
  obtain ⟨rest, hrest, h⟩ := bind_eq_ok.mp h
  obtain ⟨divisor, hdivisor, h⟩ := bind_eq_ok.mp h
  obtain ⟨surplus, hsurplus, h⟩ := bind_eq_ok.mp h
  obtain ⟨h12, rfl⟩ := sub_inv hn₁
  obtain rfl := mul_inv hn₂
  obtain ⟨h23, rfl⟩ := sub_inv hmin
  obtain ⟨hle, rfl⟩ := sub_inv hrest
  obtain ⟨h4, rfl⟩ := sub_inv hdivisor
  obtain ⟨hfit, rfl⟩ := add_inv hsurplus
  have hmin : BTreeWalker.minLocal pageSize = (pageSize - 12) * 32 / 255 - 23 := by
    unfold BTreeWalker.minLocal
    rw [wrapSub_of_le h12 (by omega), wrapSub_of_le h23 (by omega)]
  unfold BTreeWalker.localSize
  rw [hmin, wrapSub_of_le hle hpayload, wrapSub_of_le h4 (by omega), wrapAdd_of_lt hfit]
  exact Except.ok.inj h

/-- The pointer behind what a cell keeps on its page. -/
theorem overflowPtr_agrees {pos : Nat} (hsize : pageSize < 2 ^ 32) (hpayload : payload < 2 ^ 64) :
    Agrees (overflowPtr buf pageSize max payload pos)
      (if payload ≤ max then .ok none
      else
        let off := wrapAdd pos (BTreeWalker.localSize pageSize payload max)
        if buf.length < wrapAdd off 4 then .ok none
        else if buf.length < off + 4 then .error IoError.panic
        else if beU32At buf off = 0 then .ok none
        else .ok (some (beU32At buf off))) := by
  unfold overflowPtr
  split
  · exact .ok none
  · refine .check fun size hlocal => ?_
    refine .check fun ptr hptr => ?_
    refine .check fun stop hstop => ?_
    obtain ⟨hfit, rfl⟩ := add_inv hptr
    obtain ⟨hfit', rfl⟩ := add_inv hstop
    rw [localSize_agrees hsize hpayload hlocal, wrapAdd_of_lt hfit]
    dsimp only
    rw [wrapAdd_of_lt hfit']
    split
    · exact .ok none
    · refine .check fun ovfl hovfl => ?_
      obtain ⟨-, rfl⟩ := u32At_inv hovfl
      split
      · exact .ok none
      · exact .ok _

theorem cellOverflow_agrees (hsize : pageSize < 2 ^ 32) :
    Agrees (cellOverflow buf pageSize isTable (BTreeWalker.maxLocal pageSize isTable) off)
      (BTreeWalker.cellOverflow buf pageSize isTable off) := by
  unfold cellOverflow BTreeWalker.cellOverflow
  split
  · exact .ok none
  · have hpayload := readVarint_fst_lt (buf.drop off)
    generalize hv : readVarint (buf.drop off) = r at hpayload ⊢
    obtain ⟨payload, k⟩ := r
    refine .check fun r hr => ?_
    obtain rfl := (varintAt_inv hr).trans hv
    refine .check fun pos hpos => ?_
    obtain ⟨-, rfl⟩ := add_inv hpos
    cases isTable with
    | true =>
      dsimp only
      rw [if_pos rfl, if_pos rfl]
      refine .check fun l hl => ?_
      cases hr : varintAt buf (off + k) with
      | error e =>
        rw [hr] at hl
        cases hl
      | ok r =>
        obtain rfl := varintAt_inv hr
        rw [hr] at hl
        obtain rfl := Except.ok.inj hl
        refine .check fun pos hpos => ?_
        obtain ⟨-, rfl⟩ := add_inv hpos
        exact overflowPtr_agrees hsize hpayload
    | false =>
      dsimp only
      rw [if_neg Bool.false_ne_true, if_neg Bool.false_ne_true, ok_bind]
      refine .check fun pos hpos => ?_
      obtain ⟨-, rfl⟩ := add_inv hpos
      exact overflowPtr_agrees hsize hpayload

theorem extractLeafOverflowPages_agrees (hsize : pageSize < 2 ^ 32) (hhdr : hdrOff ≤ 100) :
    Agrees (extractLeafOverflowPages buf hdrOff pageSize isTable)
      (BTreeWalker.extractLeafOverflowPages buf hdrOff pageSize isTable) := by
  unfold extractLeafOverflowPages BTreeWalker.extractLeafOverflowPages
  split
  · exact .ok []
  · refine .check fun count hcount => ?_
    refine .check fun max hmax => ?_
    obtain rfl := u16At_inv hcount
    obtain rfl := maxLocal_agrees hsize hmax
    rw [cellLoop_range (by omega) (Nat.le_of_lt (PageWalk.beU16At_lt ..))]
    exact .bind (.mapM fun off _ => cellOverflow_agrees hsize) fun rs _ => .ok _

end

/-! ### The schema -/

section

variable {fromUtf8Lossy : Bytes → String} {buf : Bytes} {pos off serialType : Nat}

theorem readColumnText_agrees :
    Agrees (readColumnText fromUtf8Lossy buf pos serialType)
      (BTreeWalker.readColumnText fromUtf8Lossy buf pos serialType) := by
  unfold readColumnText BTreeWalker.readColumnText
  split
  · exact .ok _
  · refine .check fun stop hstop => ?_
    obtain ⟨hfit, rfl⟩ := add_inv hstop
    dsimp only
    rw [wrapAdd_of_lt hfit]
    split
    · exact .ok none
    · refine .check fun text htext => ?_
      obtain ⟨-, rfl⟩ := slice_inv htext
      rw [Nat.add_sub_cancel_left]
      exact .ok _

theorem readColumnInt_agrees :
    Agrees (readColumnInt buf pos serialType) (BTreeWalker.readColumnInt buf pos serialType) := by
  have hread : ∀ n, Agrees (add pos n >>= fun stop =>
      if buf.length < stop then .ok none
      else slice buf pos stop >>= fun field => .ok (some (signExtend field)))
      (if buf.length < wrapAdd pos n then .ok none
      else if buf.length < pos + n then .error IoError.panic
      else .ok (some (signExtend ((buf.drop pos).take n)))) := by
    intro n
    refine .check fun stop hstop => ?_
    obtain ⟨hfit, rfl⟩ := add_inv hstop
    rw [wrapAdd_of_lt hfit]
    split
    · exact .ok none
    · refine .check fun field hfield => ?_
      obtain ⟨-, rfl⟩ := slice_inv hfield
      rw [Nat.add_sub_cancel_left]
      exact .ok _
  rcases serialType with _ | _ | _ | _ | _ | _ | _ | _ | _ | _ | n
  · exact .ok _
  · exact hread 1
  · exact hread 2
  · exact hread 3
  · exact hread 4
  · exact hread 6
  · exact hread 8
  · exact .ok _
  · exact .ok _
  · exact .ok _
  · exact .ok _

/-- A text column, and where the next one starts. -/
theorem textColumn_inv {r : Option (String × Nat)}
    (h : textColumn fromUtf8Lossy buf pos serialType = .ok r) :
    r = none ∧ BTreeWalker.readColumnText fromUtf8Lossy buf pos serialType = .ok none ∨
      ∃ text size, r = some (text, pos + size) ∧ pos + size < 2 ^ 64 ∧
        BTreeWalker.readColumnText fromUtf8Lossy buf pos serialType = .ok (some (text, size)) := by
  obtain ⟨col, hcol, h⟩ := bind_eq_ok.mp h
  have hwrap := readColumnText_agrees col hcol
  cases col with
  | none => exact .inl ⟨(Except.ok.inj h).symm, hwrap⟩
  | some col =>
    obtain ⟨text, size⟩ := col
    obtain ⟨next, hnext, h⟩ := bind_eq_ok.mp h
    obtain ⟨hfit, rfl⟩ := add_inv hnext
    exact .inr ⟨text, size, (Except.ok.inj h).symm, hfit, hwrap⟩

theorem serialTypes_inv {headerEnd n : Nat} {types : List Nat}
    (h : serialTypes buf headerEnd n pos = .ok types) :
    BTreeWalker.serialTypes buf headerEnd n pos = types := by
  induction n generalizing pos types with
  | zero => exact Except.ok.inj h
  | succ n ih =>
    unfold serialTypes at h
    unfold BTreeWalker.serialTypes
    split at h
    · rename_i hend
      rw [if_pos hend]
      exact Except.ok.inj h
    · rename_i hin
      rw [if_neg hin]
      obtain ⟨v, hv, h⟩ := bind_eq_ok.mp h
      rw [← varintAt_inv hv]
      obtain ⟨st, k⟩ := v
      obtain ⟨next, hnext, h⟩ := bind_eq_ok.mp h
      obtain ⟨-, rfl⟩ := add_inv hnext
      obtain ⟨rest, hrest, h⟩ := bind_eq_ok.mp h
      rw [← Except.ok.inj h, ← ih hrest]

theorem parseMasterCell_agrees :
    Agrees (parseMasterCell fromUtf8Lossy buf off) (BTreeWalker.parseMasterCell fromUtf8Lossy buf off) := by
  unfold parseMasterCell BTreeWalker.parseMasterCell
  split
  · exact .ok none
  refine .check fun r hr => ?_
  rw [← varintAt_inv hr]
  obtain ⟨len, n⟩ := r
  refine .check fun pos hpos => ?_
  obtain ⟨-, rfl⟩ := add_inv hpos
  refine .check fun r hr => ?_
  dsimp only
  rw [← varintAt_inv hr]
  obtain ⟨rowid, k⟩ := r
  refine .check fun start hstart => ?_
  obtain ⟨-, rfl⟩ := add_inv hstart
  dsimp only
  by_cases hcut : buf.length ≤ off + n + k
  · rw [if_pos hcut, if_pos hcut]
    exact .ok none
  rw [if_neg hcut, if_neg hcut]
  refine .check fun r hr => ?_
  rw [← varintAt_inv hr]
  obtain ⟨headerLen, l⟩ := r
  refine .check fun stop hstop => ?_
  obtain ⟨hfit, rfl⟩ := add_inv hstop
  refine .check fun next hnext => ?_
  obtain ⟨-, rfl⟩ := add_inv hnext
  refine .check fun types htypes => ?_
  dsimp only
  rw [wrapAdd_of_lt hfit, serialTypes_inv htypes]
  rcases types with _ | ⟨typeT, _ | ⟨nameT, _ | ⟨tblT, _ | ⟨rootT, _ | ⟨sqlT, _ | ⟨_, _⟩⟩⟩⟩⟩⟩
  · exact .ok none
  · exact .ok none
  · exact .ok none
  · exact .ok none
  · exact .ok none
  · -- a row of five columns, the first three of which are skipped or read in turn
    dsimp only
    split
    · exact .ok none
    unfold readColumns
    refine .check fun r hr => ?_
    obtain ⟨rfl, hcol⟩ | ⟨objType, size, rfl, hfit₁, hcol⟩ := textColumn_inv hr
    · rw [hcol, ok_bind]
      exact .ok none
    rw [hcol, ok_bind]
    dsimp only
    rw [wrapAdd_of_lt hfit₁]
    refine .check fun r hr => ?_
    obtain ⟨rfl, hcol⟩ | ⟨name, size', rfl, hfit₂, hcol⟩ := textColumn_inv hr
    · rw [hcol, ok_bind]
      exact .ok none
    rw [hcol, ok_bind]
    dsimp only
    rw [wrapAdd_of_lt hfit₂]
    refine .check fun next hnext => ?_
    obtain ⟨hfit₃, rfl⟩ := add_inv hnext
    rw [wrapAdd_of_lt hfit₃]
    exact .bind readColumnInt_agrees fun root _ => .ok _
  · exact .ok none

end

/-! ### The walks -/

section

variable {file : Bytes} {pageSize pageCount : Nat} {fromUtf8Lossy : Bytes → String}

/-- A fold agrees if its steps do, as long as what they keep holds. -/
theorem foldl_agrees {α β : Type} {f : β → α → WalkResult β} {g : β → α → β} {I : β → Prop}
    {xs : List α} (h : ∀ a ∈ xs, ∀ s t, I s → f s a = .ok t → g s a = t ∧ I t) {s t : β} (hs : I s)
    (hfold : xs.foldlM f s = .ok t) : xs.foldl g s = t ∧ I t := by
  induction xs generalizing s with
  | nil =>
    obtain rfl := Except.ok.inj hfold
    exact ⟨rfl, hs⟩
  | cons a xs ih =>
    obtain ⟨u, hu, hrest⟩ := bind_eq_ok.mp hfold
    obtain ⟨hstep, hI⟩ := h a List.mem_cons_self s u hs hu
    rw [List.foldl_cons, hstep]
    exact ih (fun b hb => h b (List.mem_cons_of_mem a hb)) hI hrest

/-- The recursion over the pages below `page`. `m` is the fuel of the one walk, which lasts for the pages
that are not seen yet; `n` is that of the other, which has lasted. -/
theorem collectLeafPagesInner_agrees {n m page : Nat} (acc : List Nat × List Nat)
    {acc' : List Nat × List Nat}
    (hlt : page < 2 ^ 32) (hm : Search.fresh (Finset.range (2 ^ 32)) acc.2 < m)
    (h : collectLeafPagesInner (BTreeWalker.readPage file pageSize) n page acc = .ok acc') :
    BTreeWalker.collectLeafPagesInner file pageSize m page acc = acc' ∧ acc.2 ⊆ acc'.2 := by
  induction n generalizing m page acc acc' with
  | zero => cases h
  | succ n ih =>
    obtain ⟨leaves, visited⟩ := acc
    obtain ⟨m, rfl⟩ : ∃ k, m = k + 1 := ⟨m - 1, by omega⟩
    have hself : visited ⊆ page :: visited := List.subset_cons_self _ _
    unfold collectLeafPagesInner at h
    unfold BTreeWalker.collectLeafPagesInner
    by_cases hseen : page ∈ visited
    · rw [if_pos hseen] at h ⊢
      obtain rfl := Except.ok.inj h
      exact ⟨rfl, List.Subset.refl _⟩
    rw [if_neg hseen] at h ⊢
    have hless : Search.fresh (Finset.range (2 ^ 32)) (page :: visited) < m := by
      have hcons := Search.fresh_cons (Finset.mem_range.mpr hlt) hseen
      have hm : Search.fresh (Finset.range (2 ^ 32)) visited < m + 1 := hm
      omega
    cases hread : BTreeWalker.readPage file pageSize page with
    | none =>
      rw [hread] at h
      obtain rfl := Except.ok.inj h
      exact ⟨rfl, hself⟩
    | some buf =>
      rw [hread] at h
      dsimp only at h ⊢
      split at h
      · rename_i hshort
        rw [List.getElem?_eq_none (by omega)]
        obtain rfl := Except.ok.inj h
        exact ⟨rfl, hself⟩
      obtain ⟨typeByte, htype, h⟩ := bind_eq_ok.mp h
      rw [byteAt_inv htype]
      by_cases hinterior : typeByte = 0x05
      · rw [if_pos hinterior, extractInteriorChildren_eq (btreeHeaderOffset_le page), ok_bind] at h
        rw [hinterior]
        -- every child finds fuel for the pages not seen yet
        have hstep : ∀ child ∈ BTreeWalker.extractInteriorChildren buf (btreeHeaderOffset page),
            ∀ s t : List Nat × List Nat, page :: visited ⊆ s.2 →
              (if child = 0 then .ok s else collectLeafPagesInner (BTreeWalker.readPage file pageSize) n
                (child - 1) s) = .ok t →
              (if child = 0 then s else BTreeWalker.collectLeafPagesInner file pageSize m (child - 1) s) = t ∧
                page :: visited ⊆ t.2 := by
          intro child hchild s t hs ht
          by_cases hzero : child = 0
          · rw [if_pos hzero] at ht ⊢
            obtain rfl := Except.ok.inj ht
            exact ⟨rfl, hs⟩
          · rw [if_neg hzero] at ht ⊢
            have hfresh : Search.fresh (Finset.range (2 ^ 32)) s.2 < m :=
              lt_of_le_of_lt (Search.fresh_anti hs) hless
            obtain ⟨heq, hsub⟩ := ih s (BTreeWalker.lt_of_mem_extractInteriorChildren hchild) hfresh ht
            exact ⟨heq, List.Subset.trans hs hsub⟩
        obtain ⟨heq, hsub⟩ := foldl_agrees hstep (List.Subset.refl _) h
        exact ⟨heq, List.Subset.trans hself hsub⟩
      rw [if_neg hinterior] at h
      by_cases hleaf : typeByte = 0x0D
      · rw [if_pos hleaf] at h
        rw [hleaf]
        obtain rfl := Except.ok.inj h
        exact ⟨rfl, hself⟩
      · rw [if_neg hleaf] at h
        obtain rfl := Except.ok.inj h
        refine ⟨?_, hself⟩
        split
        · rename_i heq
          exact absurd (Option.some.inj heq) hinterior
        · rename_i heq
          exact absurd (Option.some.inj heq) hleaf
        · rfl

theorem fresh_lt_pageNumbers (visited : List Nat) :
    Search.fresh (Finset.range (2 ^ 32)) visited < BTreeWalker.pageNumbers := by
  have hle : Search.fresh (Finset.range (2 ^ 32)) visited ≤ (Finset.range (2 ^ 32)).card :=
    Finset.card_le_card Finset.sdiff_subset
  rw [Finset.card_range] at hle
  unfold BTreeWalker.pageNumbers
  omega

theorem collectLeafPages_inv {leaves : List Nat}
    (h : collectLeafPages (BTreeWalker.readPage file pageSize) 0 = .ok leaves) :
    BTreeWalker.collectLeafPages file pageSize 0 = leaves := by
  obtain ⟨acc, hacc, h⟩ := bind_eq_ok.mp h
  unfold BTreeWalker.collectLeafPages
  rw [(collectLeafPagesInner_agrees ([], []) (Nat.two_pow_pos 32) (fresh_lt_pageNumbers []) hacc).1]
  exact Except.ok.inj h

theorem leafEntries_agrees {page : Nat} :
    Agrees (leafEntries (BTreeWalker.readPage file pageSize) fromUtf8Lossy page)
      (BTreeWalker.leafEntries file pageSize fromUtf8Lossy page) := by
  have hhdr := btreeHeaderOffset_le page
  unfold leafEntries BTreeWalker.leafEntries
  cases BTreeWalker.readPage file pageSize page with
  | none => exact .ok []
  | some buf =>
    dsimp only
    split
    · exact .ok []
    refine .check fun typeByte htype => ?_
    rw [byteAt_inv htype]
    by_cases hleaf : typeByte = 0x0D
    · rw [if_neg (not_not_intro hleaf), if_neg (not_not_intro (congrArg some hleaf))]
      refine .check fun count hcount => ?_
      obtain rfl := u16At_inv hcount
      rw [cellLoop_range (by omega) (Nat.le_of_lt (PageWalk.beU16At_lt ..))]
      exact .bind (.mapM fun off _ => parseMasterCell_agrees) fun rs _ => .ok _
    · rw [if_pos hleaf, if_pos fun h => hleaf (Option.some.inj h)]
      exact .ok []

theorem parseSqliteMaster_agrees :
    Agrees (parseSqliteMaster (BTreeWalker.readPage file pageSize) fromUtf8Lossy)
      (BTreeWalker.parseSqliteMaster file pageSize fromUtf8Lossy) := by
  unfold parseSqliteMaster BTreeWalker.parseSqliteMaster
  refine .check fun leaves hleaves => ?_
  rw [collectLeafPages_inv hleaves]
  exact .bind (.mapM fun page _ => leafEntries_agrees) fun entries _ => .ok _

/-- The state of a walk, under the names of the other model. -/
def ofSearch (st : State Nat) : WalkState := ⟨st.queue, st.visited, st.found⟩

theorem enqueue_ofSearch (st : State Nat) (child : Nat) :
    (ofSearch st).enqueue child = ofSearch (enqueueChild st child) := by
  unfold WalkState.enqueue enqueueChild State.enqueue ofSearch
  by_cases hzero : child = 0
  · rw [if_pos (.inl hzero), if_pos hzero]
  · rw [if_neg hzero]
    by_cases hseen : child - 1 ∈ st.visited
    · rw [if_pos (.inr hseen), if_pos hseen]
    · rw [if_neg (not_or.mpr ⟨hzero, hseen⟩), if_neg hseen]

theorem foldl_enqueue_ofSearch (children : List Nat) (st : State Nat) :
    children.foldl WalkState.enqueue (ofSearch st) = ofSearch (children.foldl enqueueChild st) := by
  induction children generalizing st with
  | nil => rfl
  | cons child children ih => rw [List.foldl_cons, enqueue_ofSearch, ih, List.foldl_cons]

/-- The chain from `ovfl` on. A page of it is below the page count and was not visited before, so fuel
for the pages not visited yet lasts. -/
theorem followOverflow_agrees {n m ovfl : Nat} {st st' : State Nat}
    (hm : Search.fresh (Finset.range pageCount) st.visited ≤ m)
    (h : followOverflow (BTreeWalker.readPage file pageSize) pageCount n ovfl st = .ok st') :
    BTreeWalker.followOverflow file pageSize pageCount m ovfl (ofSearch st) = ofSearch st' := by
  induction n generalizing m ovfl st with
  | zero => cases h
  | succ n ih =>
    unfold followOverflow at h
    by_cases hstop : ovfl ∈ st.visited ∨ pageCount ≤ ovfl
    · rw [if_pos hstop] at h
      obtain rfl := Except.ok.inj h
      cases m with
      | zero => rfl
      | succ m => exact if_pos hstop
    obtain ⟨hnew, hlt⟩ := not_or.mp hstop
    have hcons := Search.fresh_cons (Finset.mem_range.mpr (Nat.not_le.mp hlt)) hnew
    obtain ⟨m, rfl⟩ : ∃ k, m = k + 1 := ⟨m - 1, by omega⟩
    have hstop' : ¬ (ovfl ∈ (ofSearch st).visited ∨ pageCount ≤ ovfl) := hstop
    rw [if_neg hstop] at h
    unfold BTreeWalker.followOverflow
    rw [if_neg hstop']
    cases hread : BTreeWalker.readPage file pageSize ovfl with
    | none =>
      rw [hread] at h
      obtain rfl := Except.ok.inj h
      rfl
    | some buf =>
      rw [hread] at h
      dsimp only at h ⊢
      split at h
      · rename_i hshort
        obtain rfl := Except.ok.inj h
        exact if_pos (.inl hshort)
      rename_i hlen
      obtain ⟨next, hnext, h⟩ := bind_eq_ok.mp h
      obtain ⟨-, rfl⟩ := u32At_inv hnext
      by_cases hzero : beU32At buf 0 = 0
      · rw [if_pos hzero] at h
        obtain rfl := Except.ok.inj h
        exact if_pos (.inr hzero)
      · rw [if_neg hzero] at h
        rw [if_neg (not_or.mpr ⟨hlen, hzero⟩)]
        exact ih (by dsimp only; omega) h

/-- A cell that overflows names a page. -/
theorem ne_zero_of_cellOverflow {buf : Bytes} {isTable : Bool} {off o : Nat}
    (h : BTreeWalker.cellOverflow buf pageSize isTable off = .ok (some o)) : o ≠ 0 := by
  unfold BTreeWalker.cellOverflow at h
  split at h
  · cases h
  · simp only at h
    generalize wrapAdd _ (BTreeWalker.localSize _ _ _) = ptr at h
    split at h
    · cases h
    · split at h
      · cases h
      · split at h
        · cases h
        · split at h
          · cases h
          · rename_i hne
            cases h
            exact hne

theorem ne_zero_of_mem_extractLeafOverflowPages {buf : Bytes} {hdrOff : Nat} {isTable : Bool}
    {firsts : List Nat} (h : BTreeWalker.extractLeafOverflowPages buf hdrOff pageSize isTable = .ok firsts) :
    ∀ o ∈ firsts, o ≠ 0 := by
  intro o ho
  unfold BTreeWalker.extractLeafOverflowPages at h
  split at h
  · cases h
    cases ho
  · obtain ⟨os, hos, h⟩ := bind_eq_ok.mp h
    cases h
    obtain ⟨o', ho', rfl⟩ := List.mem_filterMap.mp ho
    obtain ⟨off, -, hoff⟩ := mapM_inv hos _ ho'
    exact ne_zero_of_cellOverflow hoff

theorem followAll_agrees {firsts : List Nat} (hne : ∀ o ∈ firsts, o ≠ 0) {st st' : State Nat}
    (h : firsts.foldlM (fun st ovfl => if ovfl = 0 then .ok st
      else followOverflow (BTreeWalker.readPage file pageSize) pageCount steps (ovfl - 1) st) st = .ok st') :
    firsts.foldl (fun st o => BTreeWalker.followOverflow file pageSize pageCount pageCount (o - 1) st)
      (ofSearch st) = ofSearch st' := by
  induction firsts generalizing st with
  | nil =>
    obtain rfl := Except.ok.inj h
    rfl
  | cons o os ih =>
    obtain ⟨st₁, hst₁, hrest⟩ := bind_eq_ok.mp h
    dsimp only at hst₁
    rw [if_neg (hne o List.mem_cons_self)] at hst₁
    have hfresh : Search.fresh (Finset.range pageCount) st.visited ≤ pageCount := by
      have hle : Search.fresh (Finset.range pageCount) st.visited ≤ (Finset.range pageCount).card :=
        Finset.card_le_card Finset.sdiff_subset
      rwa [Finset.card_range] at hle
    rw [List.foldl_cons, followOverflow_agrees hfresh hst₁]
    exact ih (fun p hp => hne p (List.mem_cons_of_mem o hp)) hrest

theorem visitPage_agrees (hsize : pageSize < 2 ^ 32) {page : Nat} {st st' : State Nat}
    (h : visitPage (BTreeWalker.readPage file pageSize) pageSize pageCount page st = .ok st') :
    BTreeWalker.visitPage file pageSize pageCount (ofSearch st) page = .ok (ofSearch st') := by
  have hhdr := btreeHeaderOffset_le page
  unfold visitPage at h
  unfold BTreeWalker.visitPage
  cases hread : BTreeWalker.readPage file pageSize page with
  | none =>
    rw [hread] at h
    obtain rfl := Except.ok.inj h
    rfl
  | some buf =>
    rw [hread] at h
    dsimp only at h ⊢
    split at h
    · rename_i hshort
      obtain rfl := Except.ok.inj h
      exact if_pos hshort
    rename_i hlen
    rw [if_neg hlen]
    obtain ⟨typeByte, htype, h⟩ := bind_eq_ok.mp h
    rw [byteAt_inv htype]
    by_cases hinterior : typeByte = 0x02 ∨ typeByte = 0x05
    · rw [if_pos hinterior, extractInteriorChildren_eq hhdr, ok_bind] at h
      rw [← Except.ok.inj h, ← foldl_enqueue_ofSearch]
      cases hinterior with
      | inl h02 => rw [h02]; rfl
      | inr h05 => rw [h05]; rfl
    rw [if_neg hinterior] at h
    by_cases hleaf : typeByte = 0x0A ∨ typeByte = 0x0D
    · rw [if_pos hleaf] at h
      obtain ⟨firsts, hfirsts, h⟩ := bind_eq_ok.mp h
      have hwrap := extractLeafOverflowPages_agrees hsize hhdr firsts hfirsts
      have hall := followAll_agrees (ne_zero_of_mem_extractLeafOverflowPages hwrap) h
      have hgo : (BTreeWalker.extractLeafOverflowPages buf (btreeHeaderOffset page) pageSize
          (typeByte = 0x0D) >>= fun firsts => .ok (firsts.foldl (fun st o =>
            BTreeWalker.followOverflow file pageSize pageCount pageCount (o - 1) st)
            (ofSearch { st with found := st.found ++ [page] }))) = Except.ok (ofSearch st') := by
        rw [hwrap, ok_bind, hall]
      cases hleaf with
      | inl h0A =>
        rw [h0A] at hgo ⊢
        exact hgo
      | inr h0D =>
        rw [h0D] at hgo ⊢
        exact hgo
    · rw [if_neg hleaf] at h
      obtain rfl := Except.ok.inj h
      split
      · rename_i heq
        exact absurd (.inl (Option.some.inj heq)) hinterior
      · rename_i heq
        exact absurd (.inr (Option.some.inj heq)) hinterior
      · rename_i heq
        exact absurd (.inl (Option.some.inj heq)) hleaf
      · rename_i heq
        exact absurd (.inr (Option.some.inj heq)) hleaf
      · rfl

theorem walkLoop_agrees (hsize : pageSize < 2 ^ 32) {n : Nat} {st st' : State Nat}
    (h : walkLoop (BTreeWalker.readPage file pageSize) pageSize pageCount (n + 1) st = .ok st') :
    BTreeWalker.walkLoop file pageSize pageCount n (ofSearch st) = .ok (ofSearch st') := by
  induction n generalizing st with
  | zero =>
    unfold walkLoop at h
    unfold BTreeWalker.walkLoop
    cases hq : st.queue with
    | nil =>
      rw [hq] at h
      obtain rfl := Except.ok.inj h
      rfl
    | cons page rest =>
      rw [hq] at h
      obtain ⟨st₁, -, h⟩ := bind_eq_ok.mp h
      cases h
  | succ n ih =>
    unfold walkLoop at h
    unfold BTreeWalker.walkLoop
    have hqueue : (ofSearch st).queue = st.queue := rfl
    rw [hqueue]
    cases hq : st.queue with
    | nil =>
      rw [hq] at h
      obtain rfl := Except.ok.inj h
      rfl
    | cons page rest =>
      rw [hq] at h
      obtain ⟨st₁, hst₁, h⟩ := bind_eq_ok.mp h
      have hvisit := visitPage_agrees hsize hst₁
      exact bind_eq_ok.mpr ⟨ofSearch st₁, hvisit, ih h⟩

theorem walkBtree_agrees (hsize : pageSize < 2 ^ 32) {root : Nat} :
    Agrees (walkBtree (BTreeWalker.readPage file pageSize) pageSize pageCount root)
      (BTreeWalker.walkBtree file pageSize pageCount root) := by
  intro pages hpages
  obtain ⟨st, hst, h⟩ := bind_eq_ok.mp hpages
  have hfuel : steps = BTreeWalker.pageNumbers + 1 := by
    unfold steps BTreeWalker.pageNumbers
    rfl
  rw [hfuel] at hst
  exact bind_eq_ok.mpr ⟨ofSearch st, walkLoop_agrees hsize hst, congrArg Except.ok (Except.ok.inj h)⟩

theorem walkEntry_agrees (hsize : pageSize < 2 ^ 32) (acc : List (Nat × BTreeEntry) × List Nat)
    (e : MasterEntry) :
    Agrees (walkEntry (BTreeWalker.readPage file pageSize) pageSize pageCount acc e)
      (BTreeWalker.walkEntry file pageSize pageCount acc e) := by
  unfold walkEntry BTreeWalker.walkEntry
  split
  · exact .ok acc
  · exact .bind (walkBtree_agrees hsize) fun pages _ => .ok _

/-- **The two builds.** What `walk_all_btrees` with checked arithmetic returns for a file, it returns with
wrapping arithmetic too. -/
theorem walkAllBtrees_agrees (hsize : pageSize < 2 ^ 32) :
    Agrees (walkAllBtrees (BTreeWalker.readPage file pageSize) pageSize pageCount fromUtf8Lossy)
      (BTreeWalker.walkAllBtrees file pageSize fromUtf8Lossy pageCount) := by
  unfold walkAllBtrees BTreeWalker.walkAllBtrees
  refine .bind parseSqliteMaster_agrees fun entries _ => ?_
  refine .bind (walkBtree_agrees hsize) fun master _ => ?_
  exact .bind (.foldlM fun acc e _ => walkEntry_agrees hsize acc e) fun acc _ => .ok _

end

end PageWalk

end Turbolite
