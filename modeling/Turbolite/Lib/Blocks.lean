import Mathlib.Data.List.Basic
import Mathlib.Data.List.TakeDrop
import Mathlib.Tactic.Ring

/-!
# Turbolite.Lib.Blocks

Fixed-size blocks of a list. A flat buffer built from equally long records is read back record by
record with `block`; a list of records is cut into frames with the same operation one level up.
Nothing here knows what the records are.
-/

namespace Blocks

variable {α : Type*}

/-- The `i`-th block of `n` elements; the last one may be short, later ones are empty. -/
def block (n i : Nat) (xs : List α) : List α := (xs.drop (i * n)).take n

/-- Every record of `xss` has length `n`. -/
def Uniform (n : Nat) (xss : List (List α)) : Prop := ∀ xs ∈ xss, xs.length = n

instance (n : Nat) (xss : List (List α)) : Decidable (Uniform n xss) :=
  inferInstanceAs (Decidable (∀ xs ∈ xss, xs.length = n))

/-! ### Uniform lists -/

theorem Uniform.tail {n : Nat} {x : List α} {xss : List (List α)} (h : Uniform n (x :: xss)) :
    Uniform n xss :=
  fun xs hxs => h xs (List.mem_cons_of_mem x hxs)

theorem Uniform.take {n : Nat} {xss : List (List α)} (h : Uniform n xss) (i : Nat) :
    Uniform n (xss.take i) :=
  fun xs hxs => h xs (List.mem_of_mem_take hxs)

theorem Uniform.drop {n : Nat} {xss : List (List α)} (h : Uniform n xss) (i : Nat) :
    Uniform n (xss.drop i) :=
  fun xs hxs => h xs (List.mem_of_mem_drop hxs)

theorem Uniform.block {n : Nat} {xss : List (List α)} (h : Uniform n xss) (k i : Nat) :
    Uniform n (block k i xss) :=
  (h.drop _).take _

theorem Uniform.append {n : Nat} {xss yss : List (List α)} (hx : Uniform n xss)
    (hy : Uniform n yss) : Uniform n (xss ++ yss) := by
  intro zs hzs
  rcases List.mem_append.mp hzs with h | h
  · exact hx zs h
  · exact hy zs h

theorem length_flatten_of_uniform {n : Nat} {xss : List (List α)} (h : Uniform n xss) :
    xss.flatten.length = xss.length * n := by
  induction xss with
  | nil => simp
  | cons x xss ih =>
    have hx : x.length = n := h x (List.mem_cons_self ..)
    rw [List.flatten_cons, List.length_append, ih h.tail, hx, List.length_cons]
    ring

theorem drop_flatten_of_uniform {n : Nat} {xss : List (List α)} (h : Uniform n xss) (i : Nat) :
    xss.flatten.drop (i * n) = (xss.drop i).flatten := by
  induction xss generalizing i with
  | nil => simp
  | cons x xss ih =>
    have hx : x.length = n := h x (List.mem_cons_self ..)
    cases i with
    | zero => simp
    | succ i =>
      have hle : (i + 1) * n = x.length + i * n := by rw [hx]; ring
      rw [List.flatten_cons, hle, List.drop_append, List.drop_succ_cons, ← ih h.tail i]
      simp

theorem take_flatten_of_uniform {n : Nat} {xss : List (List α)} (h : Uniform n xss) (i : Nat) :
    xss.flatten.take (i * n) = (xss.take i).flatten := by
  induction xss generalizing i with
  | nil => simp
  | cons x xss ih =>
    have hx : x.length = n := h x (List.mem_cons_self ..)
    cases i with
    | zero => simp
    | succ i =>
      have hle : (i + 1) * n = x.length + i * n := by rw [hx]; ring
      rw [List.flatten_cons, hle, List.take_append, List.take_succ_cons, List.flatten_cons,
        ← ih h.tail i]
      simp

/-- Record `i` of a flat buffer of equally long records. -/
theorem block_flatten {n : Nat} {xss : List (List α)} (h : Uniform n xss) {i : Nat}
    (hi : i < xss.length) : block n i xss.flatten = xss[i] := by
  have hx : xss[i].length = n := h _ (List.getElem_mem hi)
  unfold block
  rw [drop_flatten_of_uniform h, List.drop_eq_getElem_cons hi, List.flatten_cons,
    List.take_append]
  simp [hx]

/-- A flat buffer of equally long records, cut apart again. -/
theorem map_block_flatten {n : Nat} {xss : List (List α)} (h : Uniform n xss) :
    ((List.range xss.length).map fun i => block n i xss.flatten) = xss := by
  refine List.ext_getElem (by simp) fun i _ hi => ?_
  rw [List.getElem_map, List.getElem_range, block_flatten h hi]

/-! ### Reading a block -/

theorem getElem?_block (k f j : Nat) (xs : List α) :
    (block k f xs)[j]? = if j < k then xs[f * k + j]? else none := by
  unfold block
  rw [List.getElem?_take]
  split
  · rw [List.getElem?_drop]
  · rfl

theorem length_block (k f : Nat) (xs : List α) :
    (block k f xs).length = min k (xs.length - f * k) := by
  simp [block]

theorem block_map {β : Type*} (g : α → β) (k i : Nat) (xs : List α) :
    block k i (xs.map g) = (block k i xs).map g := by
  simp [block, List.map_take, List.map_drop]

/-- The record at position `i` sits at offset `i % k` of its block. -/
theorem getElem?_block_div {k : Nat} (hk : 0 < k) (i : Nat) (xs : List α) :
    (block k (i / k) xs)[i % k]? = xs[i]? := by
  rw [getElem?_block, if_pos (Nat.mod_lt i hk), Nat.div_add_mod']

theorem take_mul_succ (k f : Nat) (xs : List α) :
    xs.take ((f + 1) * k) = xs.take (f * k) ++ block k f xs := by
  rw [show (f + 1) * k = f * k + k by ring, List.take_add, block]

/-! ### Overwriting a range -/

/-- `xs` with the elements from `s` on replaced by `ys`. -/
def splice (xs : List α) (s : Nat) (ys : List α) : List α :=
  xs.take s ++ ys ++ xs.drop (s + ys.length)

theorem length_splice {xs ys : List α} {s : Nat} (h : s + ys.length ≤ xs.length) :
    (splice xs s ys).length = xs.length := by
  simp [splice]; omega

theorem getElem?_splice {xs ys : List α} {s : Nat} (h : s + ys.length ≤ xs.length) (i : Nat) :
    (splice xs s ys)[i]? = if s ≤ i ∧ i < s + ys.length then ys[i - s]? else xs[i]? := by
  have hs : (xs.take s).length = s := by rw [List.length_take]; omega
  unfold splice
  rcases Nat.lt_or_ge i s with h1 | h1
  · rw [if_neg (by omega), List.append_assoc, List.getElem?_append_left (by omega),
      List.getElem?_take_of_lt h1]
  · rcases Nat.lt_or_ge i (s + ys.length) with h2 | h2
    · rw [if_pos ⟨h1, h2⟩, List.getElem?_append_left (by rw [List.length_append]; omega),
        List.getElem?_append_right (by omega), hs]
    · rw [if_neg (by omega), List.getElem?_append_right (by rw [List.length_append]; omega),
        List.getElem?_drop, List.length_append, hs]
      congr 1
      omega

/-- Splicing whole records into a flat buffer splices the list of records. -/
theorem splice_flatten {n : Nat} {xss yss : List (List α)} (hx : Uniform n xss)
    (hy : Uniform n yss) (s : Nat) :
    splice xss.flatten (s * n) yss.flatten = (splice xss s yss).flatten := by
  unfold splice
  rw [length_flatten_of_uniform hy, ← Nat.add_mul, take_flatten_of_uniform hx,
    drop_flatten_of_uniform hx, List.flatten_append, List.flatten_append]

theorem Uniform.splice {n : Nat} {xss yss : List (List α)} (hx : Uniform n xss)
    (hy : Uniform n yss) (s : Nat) : Uniform n (splice xss s yss) :=
  ((hx.take _).append hy).append (hx.drop _)

/-! ### Cutting a list into blocks -/

/-- `n` divided by `k`, rounded up. -/
def divCeil (n k : Nat) : Nat := (n + k - 1) / k

theorem le_divCeil_mul {n k : Nat} (hk : 0 < k) : n ≤ divCeil n k * k := by
  unfold divCeil
  have h := Nat.div_add_mod (n + k - 1) k
  have hlt := Nat.mod_lt (n + k - 1) hk
  have hc : k * ((n + k - 1) / k) = (n + k - 1) / k * k := Nat.mul_comm _ _
  omega

theorem lt_divCeil_iff {n k i : Nat} (hk : 0 < k) : i < divCeil n k ↔ i * k < n := by
  unfold divCeil
  rw [Nat.lt_iff_add_one_le, Nat.le_div_iff_mul_le hk]
  have : (i + 1) * k = i * k + k := by ring
  omega

/-- The blocks of `xs` in order, `k` elements each. -/
def blocks (k : Nat) (xs : List α) : List (List α) :=
  (List.range (divCeil xs.length k)).map (fun i => block k i xs)

@[simp] theorem length_blocks (k : Nat) (xs : List α) :
    (blocks k xs).length = divCeil xs.length k := by
  simp [blocks]

theorem divCeil_zero (k : Nat) : divCeil 0 k = 0 := by
  unfold divCeil
  rcases Nat.eq_zero_or_pos k with rfl | hk
  · rfl
  · exact Nat.div_eq_of_lt (by omega)

@[simp] theorem blocks_nil (k : Nat) : blocks k ([] : List α) = [] := by
  simp [blocks, divCeil_zero]

theorem getElem?_blocks (k i : Nat) (xs : List α) :
    (blocks k xs)[i]? = if i < divCeil xs.length k then some (block k i xs) else none := by
  unfold blocks
  rw [List.getElem?_map]
  split
  · rename_i h
    rw [List.getElem?_range h]; rfl
  · rename_i h
    rw [List.getElem?_eq_none (by simpa using h)]; rfl

theorem ne_nil_of_mem_blocks {k : Nat} {xs b : List α} (h : b ∈ blocks k xs) : b ≠ [] := by
  obtain ⟨i, hi, rfl⟩ := List.mem_map.mp h
  have hk : 0 < k := by
    rcases Nat.eq_zero_or_pos k with rfl | hk
    · simp [divCeil] at hi
    · exact hk
  have hlt := (lt_divCeil_iff hk).mp (List.mem_range.mp hi)
  refine List.ne_nil_of_length_pos ?_
  rw [length_block]
  omega

theorem flatten_map_block_range (k n : Nat) (xs : List α) :
    ((List.range n).map (fun i => block k i xs)).flatten = xs.take (n * k) := by
  induction n with
  | zero => simp
  | succ n ih =>
    rw [List.range_succ, List.map_append, List.flatten_append, ih, take_mul_succ]
    simp

theorem flatten_blocks {k : Nat} (hk : 0 < k) (xs : List α) : (blocks k xs).flatten = xs := by
  unfold blocks
  rw [flatten_map_block_range, List.take_of_length_le (le_divCeil_mul hk)]

/-- Every block is full exactly when the list is a whole number of blocks long. -/
theorem uniform_blocks_iff {k : Nat} (hk : 0 < k) {xs : List α} :
    Uniform k (blocks k xs) ↔ k ∣ xs.length := by
  constructor
  · intro h
    have hlen := length_flatten_of_uniform h
    rw [flatten_blocks hk] at hlen
    exact hlen ▸ Nat.dvd_mul_left k _
  · rintro ⟨n, hn⟩ b hb
    obtain ⟨i, hi, rfl⟩ := List.mem_map.mp hb
    have hin : i * k < n * k := by
      rw [Nat.mul_comm n, ← hn]
      exact (lt_divCeil_iff hk).mp (List.mem_range.mp hi)
    have hsucc : (i + 1) * k ≤ n * k := Nat.mul_le_mul_right k (Nat.lt_of_mul_lt_mul_right hin)
    rw [length_block, hn, Nat.mul_comm k n]
    rw [Nat.succ_mul] at hsucc
    omega

/-! ### Vectors grown on demand -/

/-- `while xs.len() <= i { xs.push(d) }; xs[i] = v`. -/
def growSet (d : α) (xs : List α) (i : Nat) (v : α) : List α :=
  (xs ++ List.replicate (i + 1 - xs.length) d).set i v

theorem length_growSet (d : α) (xs : List α) (i : Nat) (v : α) :
    (growSet d xs i v).length = max xs.length (i + 1) := by
  simp [growSet]; omega

theorem getD_growSet (d : α) (xs : List α) (i j : Nat) (v : α) :
    (growSet d xs i v).getD j d = if i = j then v else xs.getD j d := by
  unfold growSet
  simp only [List.getD_eq_getElem?_getD, List.getElem?_set, List.length_append,
    List.length_replicate]
  split
  · rename_i h; subst h
    rw [if_pos (by omega)]; rfl
  · rw [List.getElem?_append]
    split
    · rfl
    · rename_i h
      rw [List.getElem?_eq_none (Nat.le_of_not_lt h), List.getElem?_replicate]
      split <;> rfl

/-- Several entries set one after the other. -/
def growSets (d : α) (xs : List α) (ws : List (Nat × α)) : List α :=
  ws.foldl (fun xs w => growSet d xs w.1 w.2) xs

theorem getD_growSets_of_notMem (d : α) {xs : List α} {ws : List (Nat × α)} {i : Nat}
    (h : i ∉ ws.map (·.1)) : (growSets d xs ws).getD i d = xs.getD i d := by
  induction ws generalizing xs with
  | nil => rfl
  | cons w ws ih =>
    simp only [List.map_cons, List.mem_cons, not_or] at h
    rw [growSets, List.foldl_cons]
    refine (ih h.2).trans ?_
    rw [getD_growSet, if_neg (Ne.symm h.1)]

theorem getD_growSets_of_mem (d : α) {xs : List α} {ws : List (Nat × α)}
    (hnd : (ws.map (·.1)).Nodup) {i : Nat} {v : α} (h : (i, v) ∈ ws) :
    (growSets d xs ws).getD i d = v := by
  induction ws generalizing xs with
  | nil => cases h
  | cons w ws ih =>
    obtain ⟨hw, hnd'⟩ := List.nodup_cons.mp hnd
    rw [growSets, List.foldl_cons]
    rcases List.mem_cons.mp h with rfl | h
    · refine (getD_growSets_of_notMem d hw).trans ?_
      rw [getD_growSet, if_pos rfl]
    · exact ih hnd' h

/-- An entry that is set holds one of the values it is set to. -/
theorem getD_growSets_mem (d : α) {xs : List α} {ws : List (Nat × α)} {i : Nat}
    (h : i ∈ ws.map (·.1)) : (i, (growSets d xs ws).getD i d) ∈ ws := by
  induction ws generalizing xs with
  | nil => cases h
  | cons w ws ih =>
    rw [growSets, List.foldl_cons]
    by_cases hi : i ∈ ws.map (·.1)
    · exact List.mem_cons_of_mem _ (ih hi)
    · obtain rfl : i = w.1 := (List.mem_cons.mp h).resolve_right hi
      have hw : (growSets d (growSet d xs w.1 w.2) ws).getD w.1 d = w.2 := by
        rw [getD_growSets_of_notMem d hi, getD_growSet, if_pos rfl]
      exact List.mem_cons.mpr (.inl (by rw [← growSets, hw]))

/-- Entries set to a value that depends on the index alone. -/
theorem getD_growSets_map (d : α) (xs : List α) (is : List Nat) (f : Nat → α) (j : Nat) :
    (growSets d xs (is.map fun i => (i, f i))).getD j d = if j ∈ is then f j else xs.getD j d := by
  have hfst : (is.map fun i => (i, f i)).map (·.1) = is := by simp [Function.comp_def]
  split
  · rename_i hj
    have hmem : (j, (growSets d xs (is.map fun i => (i, f i))).getD j d) ∈
        is.map fun i => (i, f i) := getD_growSets_mem d (hfst.symm ▸ hj)
    obtain ⟨i, -, he⟩ := List.mem_map.mp hmem
    obtain ⟨rfl, he⟩ := Prod.mk.inj he
    exact he.symm
  · rename_i hj
    exact getD_growSets_of_notMem d (hfst.symm ▸ hj)

theorem getD_set (d : α) (xs : List α) (i j : Nat) (v : α) :
    (xs.set i v).getD j d = if i = j then (if i < xs.length then v else d) else xs.getD j d := by
  simp only [List.getD_eq_getElem?_getD, List.getElem?_set]
  split
  · split <;> rfl
  · rfl

/-- A bound on the grown list is a bound on the list and on every index written. -/
theorem length_growSets_le (d : α) {xs : List α} {ws : List (Nat × α)} {n : Nat} :
    (growSets d xs ws).length ≤ n ↔ xs.length ≤ n ∧ ∀ w ∈ ws, w.1 < n := by
  induction ws generalizing xs with
  | nil => simp [growSets]
  | cons w ws ih =>
    rw [growSets, List.foldl_cons]
    refine ih.trans ?_
    rw [length_growSet, List.forall_mem_cons, max_le_iff, and_assoc]
    exact Iff.rfl

end Blocks
