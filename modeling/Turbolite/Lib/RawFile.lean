import Mathlib.Data.List.Basic
import Mathlib.Data.List.Range

/-!
# Turbolite.Lib.RawFile

A file as the system calls see it: a length, and bytes that are zero from there on. `readAt` and
`writeAt` are the positional read and write, `punch` takes a hole out of the file without changing its
length. The lemmas say what a read returns after each of them.
-/

namespace RawFile

/-- A file: its length and its bytes, zero past the end. -/
structure File where
  len : Nat
  byte : Nat → UInt8
  past : ∀ i, len ≤ i → byte i = 0

/-- An empty file. -/
def empty : File := ⟨0, fun _ => 0, fun _ _ => rfl⟩

/-- `read_exact_at`; `none` when the range ends past the file. An empty range is read anywhere. -/
def File.readAt (f : File) (off n : Nat) : Option (List UInt8) :=
  if n = 0 ∨ off + n ≤ f.len then some ((List.range n).map fun i => f.byte (off + i)) else none

/-- `write_all_at`; a gap before the range is zeros, and no bytes are no write. -/
def File.writeAt (f : File) (off : Nat) (data : List UInt8) : File where
  len := if data = [] then f.len else max f.len (off + data.length)
  byte i := if off ≤ i ∧ i < off + data.length then data.getD (i - off) 0 else f.byte i
  past i hi := by
    split at hi
    · rename_i hnil
      subst hnil
      rw [if_neg (by simp)]
      exact f.past i hi
    · rw [if_neg (by omega)]
      exact f.past i (by omega)

/-- `set_len`. -/
def File.setLen (f : File) (n : Nat) : File where
  len := n
  byte i := if i < n then f.byte i else 0
  past i hi := if_neg (by omega)

/-- `fallocate` with `PUNCH_HOLE | KEEP_SIZE`. -/
def File.punch (f : File) (off n : Nat) : File where
  len := f.len
  byte i := if off ≤ i ∧ i < off + n then 0 else f.byte i
  past i hi := by
    rw [f.past i hi, ite_self]

variable {f g : File} {off n : Nat}

theorem eq_of_byte (hlen : f.len = g.len) (hbyte : f.byte = g.byte) : f = g := by
  cases f
  cases g
  subst hlen hbyte
  rfl

theorem le_len_writeAt (f : File) (off : Nat) (data : List UInt8) :
    f.len ≤ (f.writeAt off data).len := by
  show f.len ≤ if data = [] then f.len else max f.len (off + data.length)
  split
  · exact Nat.le_refl _
  · exact Nat.le_max_left ..

theorem len_writeAt {data : List UInt8} (f : File) (off : Nat) (h : data ≠ []) :
    (f.writeAt off data).len = max f.len (off + data.length) := if_neg h

theorem writeAt_nil (f : File) (off : Nat) : f.writeAt off [] = f := by
  refine eq_of_byte rfl (funext fun i => ?_)
  show (if off ≤ i ∧ i < off + 0 then _ else f.byte i) = f.byte i
  exact if_neg (by omega)

theorem readAt_eq_some {data : List UInt8} : f.readAt off n = some data ↔
    (n = 0 ∨ off + n ≤ f.len) ∧ data = (List.range n).map fun i => f.byte (off + i) := by
  unfold File.readAt
  split
  · rename_i hle
    simp [hle, eq_comm]
  · rename_i hle
    simp [hle]

/-- A range that ends inside the file can be read. -/
theorem readAt_of_le (h : off + n ≤ f.len) :
    f.readAt off n = some ((List.range n).map fun i => f.byte (off + i)) :=
  if_pos (.inr h)

/-- What was read ends inside the file. -/
theorem le_len_of_readAt {data : List UInt8} (h : f.readAt off n = some data) (hn : 0 < n) :
    off + n ≤ f.len :=
  (readAt_eq_some.mp h).1.resolve_left hn.ne'

theorem length_of_readAt {data : List UInt8} (h : f.readAt off n = some data) : data.length = n := by
  rw [(readAt_eq_some.mp h).2, List.length_map, List.length_range]

/-- A read sees the bytes of its range only. -/
theorem readAt_congr (hlen : f.len ≤ g.len ∨ off + n ≤ g.len) (hbyte : ∀ i, off ≤ i → i < off + n → g.byte i = f.byte i)
    {data : List UInt8} (h : f.readAt off n = some data) : g.readAt off n = some data := by
  rw [readAt_eq_some] at h ⊢
  refine ⟨by omega, h.2.trans (List.map_congr_left fun i hi => ?_)⟩
  rw [List.mem_range] at hi
  exact (hbyte _ (by omega) (by omega)).symm

theorem readAt_writeAt_same (f : File) (off : Nat) (data : List UInt8) :
    (f.writeAt off data).readAt off data.length = some data := by
  have hlen : data.length = 0 ∨ off + data.length ≤ (f.writeAt off data).len := by
    by_cases hnil : data = []
    · exact .inl (List.length_eq_zero_iff.mpr hnil)
    · rw [len_writeAt f off hnil]
      exact .inr (Nat.le_max_right ..)
  refine readAt_eq_some.mpr ⟨hlen, ?_⟩
  refine List.ext_getElem (by simp) fun i h1 h2 => ?_
  simp only [List.getElem_map, List.getElem_range, File.writeAt]
  rw [if_pos ⟨Nat.le_add_right .., by omega⟩, Nat.add_sub_cancel_left]
  simp [List.getD_eq_getElem?_getD, List.getElem?_eq_getElem h1]

/-- A write elsewhere. -/
theorem readAt_writeAt_disjoint {off' : Nat} {data data' : List UInt8}
    (hd : off + n ≤ off' ∨ off' + data'.length ≤ off) (h : f.readAt off n = some data) :
    (f.writeAt off' data').readAt off n = some data := by
  refine readAt_congr (.inl (le_len_writeAt ..)) (fun i h1 h2 => ?_) h
  exact if_neg (by omega)

/-- A write of the bytes that are there. -/
theorem readAt_writeAt_unchanged {off' : Nat} {data data' : List UInt8}
    (hsame : f.readAt off' data'.length = some data') (h : f.readAt off n = some data) :
    (f.writeAt off' data').readAt off n = some data := by
  refine readAt_congr (.inl (le_len_writeAt ..)) (fun i h1 h2 => ?_) h
  · show (if off' ≤ i ∧ i < off' + data'.length then data'.getD (i - off') 0 else f.byte i) = f.byte i
    split
    · rename_i hi
      have hbytes := (readAt_eq_some.mp hsame).2
      have hlt : i - off' < data'.length := by omega
      have hget : data'[i - off']? = some (f.byte i) := by
        rw [hbytes, List.getElem?_map, List.getElem?_range hlt]
        exact congrArg (fun j => some (f.byte j)) (by omega)
      rw [List.getD_eq_getElem?_getD, hget]
      rfl
    · rfl

/-- A hole elsewhere. -/
theorem readAt_punch_disjoint {off' n' : Nat} {data : List UInt8}
    (hd : off + n ≤ off' ∨ off' + n' ≤ off) (h : f.readAt off n = some data) :
    (f.punch off' n').readAt off n = some data := by
  refine readAt_congr (g := f.punch off' n') (.inl (Nat.le_refl f.len)) (fun i h1 h2 => ?_) h
  exact if_neg (by omega)

/-- A range below the new length. -/
theorem readAt_setLen {data : List UInt8} {len : Nat} (hle : off + n ≤ len)
    (h : f.readAt off n = some data) : (f.setLen len).readAt off n = some data := by
  refine readAt_congr (.inr hle) (fun i h1 h2 => ?_) h
  exact if_pos (by omega)

/-- A longer file. -/
theorem readAt_grow {data : List UInt8} {len : Nat} (hle : f.len ≤ len)
    (h : f.readAt off n = some data) : (f.setLen len).readAt off n = some data := by
  refine readAt_congr (.inl hle) (fun i _ _ => ?_) h
  show (if i < len then f.byte i else 0) = f.byte i
  split
  · rfl
  · exact (f.past i (by omega)).symm

/-- A write in two parts. -/
theorem writeAt_append (f : File) (off : Nat) (xs ys : List UInt8) :
    f.writeAt off (xs ++ ys) = (f.writeAt off xs).writeAt (off + xs.length) ys := by
  have hlen : (f.writeAt off (xs ++ ys)).len =
      ((f.writeAt off xs).writeAt (off + xs.length) ys).len := by
    cases xs with
    | nil =>
      cases ys with
      | nil => rfl
      | cons y ys => simp [File.writeAt]
    | cons x xs =>
      cases ys with
      | nil => simp [File.writeAt]
      | cons y ys =>
        simp only [File.writeAt, List.length_append, List.length_cons, List.cons_append, reduceCtorEq,
          if_false]
        omega
  have hbyte : (f.writeAt off (xs ++ ys)).byte =
      ((f.writeAt off xs).writeAt (off + xs.length) ys).byte := by
    funext i
    simp only [File.writeAt, List.length_append, List.getD_eq_getElem?_getD]
    by_cases hy : off + xs.length ≤ i ∧ i < off + xs.length + ys.length
    · rw [if_pos (by omega), if_pos hy, List.getElem?_append_right (by omega), Nat.sub_sub]
    · rw [if_neg hy]
      by_cases hx : off ≤ i ∧ i < off + xs.length
      · rw [if_pos (by omega), if_pos hx, List.getElem?_append_left (by omega)]
      · rw [if_neg (by omega), if_neg hx]
  exact eq_of_byte hlen hbyte

/-! ### The bytes of a range -/

/-- The bytes of a range, whether or not the file reaches it. -/
def File.range (f : File) (off n : Nat) : List UInt8 := (List.range n).map fun i => f.byte (off + i)

theorem readAt_eq_range (f : File) (off n : Nat) :
    f.readAt off n = if n = 0 ∨ off + n ≤ f.len then some (f.range off n) else none := rfl

theorem length_range (f : File) (off n : Nat) : (f.range off n).length = n := by
  rw [File.range, List.length_map, List.length_range]

theorem range_writeAt_disjoint {off' : Nat} {data : List UInt8}
    (hd : off + n ≤ off' ∨ off' + data.length ≤ off) :
    (f.writeAt off' data).range off n = f.range off n := by
  refine List.map_congr_left fun i hi => ?_
  rw [List.mem_range] at hi
  exact if_neg (by omega)

/-- A write that stopped after `m` bytes. -/
theorem range_writeAt_take (f : File) (off : Nat) (data : List UInt8) (m : Nat) :
    (f.writeAt off (data.take m)).range off data.length =
      data.take m ++ (f.range off data.length).drop m := by
  refine List.ext_getElem ?_ fun i h1 h2 => ?_
  · rw [length_range, List.length_append, List.length_take, List.length_drop, length_range]
    omega
  · rw [length_range] at h1
    simp only [File.range, List.getElem_map, List.getElem_range, File.writeAt]
    rw [List.getElem_append]
    by_cases hi : i < (data.take m).length
    · rw [dif_pos hi, if_pos ⟨Nat.le_add_right .., by omega⟩, Nat.add_sub_cancel_left,
        List.getD_eq_getElem?_getD, List.getElem?_eq_getElem hi, Option.getD_some]
    · have hm : m ≤ i ∧ (data.take m).length = m := by
        rw [List.length_take] at hi ⊢
        omega
      rw [dif_neg hi, if_neg (by omega)]
      simp only [List.getElem_drop, List.getElem_map, List.getElem_range]
      congr 1
      omega

theorem range_writeAt (f : File) (off : Nat) (data : List UInt8) :
    (f.writeAt off data).range off data.length = data := by
  have h := range_writeAt_take f off data data.length
  rw [List.take_length] at h
  rw [h, List.drop_of_length_le (length_range ..).le, List.append_nil]

/-- A longer file has the same bytes. -/
theorem range_setLen {m : Nat} (h : f.len ≤ m) (off n : Nat) :
    (f.setLen m).range off n = f.range off n := by
  refine List.map_congr_left fun i _ => ?_
  show (if off + i < m then f.byte (off + i) else 0) = f.byte (off + i)
  split
  · rfl
  · exact (f.past _ (by omega)).symm

/-- The first bytes of a range. -/
theorem take_range (f : File) (off : Nat) {m : Nat} (h : m ≤ n) :
    (f.range off n).take m = f.range off m := by
  rw [File.range, ← List.map_take, List.take_range, Nat.min_eq_left h, File.range]

theorem range_congr (h : ∀ i, off ≤ i → i < off + n → g.byte i = f.byte i) :
    g.range off n = f.range off n := by
  refine List.map_congr_left fun i hi => ?_
  rw [List.mem_range] at hi
  exact h _ (Nat.le_add_right ..) (by omega)

theorem range_eq_zeros (h : ∀ i, off ≤ i → i < off + n → f.byte i = 0) :
    f.range off n = List.replicate n 0 := by
  refine List.eq_replicate_iff.mpr ⟨length_range .., fun b hb => ?_⟩
  obtain ⟨i, hi, rfl⟩ := List.mem_map.mp hb
  rw [List.mem_range] at hi
  exact h _ (Nat.le_add_right ..) (by omega)

/-! ### Files made of pages -/

/-- A page after the write of one page. -/
theorem range_writeAt_page {pageSize : Nat} {data : List UInt8} (h : data.length = pageSize)
    (p q : Nat) : (f.writeAt (p * pageSize) data).range (q * pageSize) pageSize =
      if q = p then data else f.range (q * pageSize) pageSize := by
  split
  · rename_i hqp
    have hself := range_writeAt f (p * pageSize) data
    rw [hqp]
    rwa [h] at hself
  · rename_i hqp
    refine range_writeAt_disjoint ?_
    rw [h, ← Nat.succ_mul, ← Nat.succ_mul]
    rcases Nat.lt_or_gt_of_ne hqp with hlt | hgt
    · exact .inl (Nat.mul_le_mul_right _ hlt)
    · exact .inr (Nat.mul_le_mul_right _ hgt)

/-- A page after the file was cut inside page `n - 1`, whose rest was zero. -/
theorem range_setLen_page {pageSize size : Nat} (hle : size ≤ n * pageSize)
    (hzero : ∀ i, size ≤ i → i < n * pageSize → f.byte i = 0) (p : Nat) :
    (f.setLen size).range (p * pageSize) pageSize =
      if p < n then f.range (p * pageSize) pageSize else List.replicate pageSize 0 := by
  split
  · rename_i hp
    have hend : p * pageSize + pageSize ≤ n * pageSize := by
      rw [← Nat.succ_mul]
      exact Nat.mul_le_mul_right _ hp
    refine range_congr fun i _ hi => ?_
    show (if i < size then f.byte i else 0) = f.byte i
    split
    · rfl
    · exact (hzero i (by omega) (by omega)).symm
  · rename_i hp
    have hstart : n * pageSize ≤ p * pageSize := Nat.mul_le_mul_right _ (by omega)
    exact range_eq_zeros fun i hi _ => if_neg (by omega)

/-- The file of `n` pages. -/
def ofPages (pageSize n : Nat) (page : Nat → List UInt8) : File where
  len := n * pageSize
  byte i := if i < n * pageSize then (page (i / pageSize)).getD (i % pageSize) 0 else 0
  past i hi := if_neg (by omega)

theorem range_ofPages {pageSize p : Nat} {page : Nat → List UInt8} (hp : p < n)
    (hlen : (page p).length = pageSize) :
    (ofPages pageSize n page).range (p * pageSize) pageSize = page p := by
  refine List.ext_getElem (by rw [length_range, hlen]) fun i h1 h2 => ?_
  have hi : i < pageSize := by rwa [length_range] at h1
  have hend : p * pageSize + pageSize ≤ n * pageSize := by
    rw [← Nat.succ_mul]
    exact Nat.mul_le_mul_right _ hp
  have hdiv : (p * pageSize + i) / pageSize = p := by
    rw [Nat.mul_comm, Nat.mul_add_div (by omega), Nat.div_eq_of_lt hi, Nat.add_zero]
  have hmod : (p * pageSize + i) % pageSize = i := by
    rw [Nat.mul_comm, Nat.mul_add_mod, Nat.mod_eq_of_lt hi]
  simp only [File.range, List.getElem_map, List.getElem_range, ofPages]
  rw [if_pos (by omega), hdiv, hmod, List.getD_eq_getElem?_getD, List.getElem?_eq_getElem h2]
  rfl

/-- Past the last page. -/
theorem range_ofPages_past {pageSize p : Nat} {page : Nat → List UInt8} (hp : n ≤ p) (m : Nat) :
    (ofPages pageSize n page).range (p * pageSize) m = List.replicate m 0 := by
  have hle : n * pageSize ≤ p * pageSize := Nat.mul_le_mul_right _ hp
  exact range_eq_zeros fun i h1 _ => if_neg (by omega)

end RawFile
