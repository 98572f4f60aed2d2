import Mathlib.Data.List.Basic

/-!
# Turbolite.Lib.Extents

Blobs laid end to end in a buffer, and the table of their extents. Cutting the buffer along the table
gives the blobs back, whatever stands before and behind them.
-/

namespace Extents

variable {α : Type*}

/-- Offset and length of every blob, the first of them at `off`. -/
def extents : Nat → List (List α) → List (Nat × Nat)
  | _, [] => []
  | off, b :: bs => (off, b.length) :: extents (off + b.length) bs

/-- The part of a buffer an extent names. -/
def cut (buf : List α) (e : Nat × Nat) : List α := (buf.drop e.1).take e.2

@[simp] theorem length_extents (off : Nat) (bs : List (List α)) :
    (extents off bs).length = bs.length := by
  induction bs generalizing off with
  | nil => rfl
  | cons b bs ih => simp [extents, ih]

/-- Every extent lies between the start of the first blob and the end of the last one. -/
theorem bounds_of_mem {off : Nat} {bs : List (List α)} {e : Nat × Nat} (h : e ∈ extents off bs) :
    off ≤ e.1 ∧ e.1 + e.2 ≤ off + bs.flatten.length := by
  induction bs generalizing off with
  | nil => simp [extents] at h
  | cons b bs ih =>
    simp only [extents, List.mem_cons] at h
    rw [List.flatten_cons, List.length_append]
    cases h with
    | inl h =>
      subst h
      exact ⟨Nat.le_refl _, by omega⟩
    | inr h =>
      have := ih h
      omega

/-- An extent is as long as one of the blobs. -/
theorem length_of_mem {off : Nat} {bs : List (List α)} {e : Nat × Nat} (h : e ∈ extents off bs) :
    ∃ b ∈ bs, e.2 = b.length := by
  induction bs generalizing off with
  | nil => simp [extents] at h
  | cons b bs ih =>
    simp only [extents, List.mem_cons] at h
    cases h with
    | inl h => exact ⟨b, List.mem_cons_self, by rw [h]⟩
    | inr h =>
      obtain ⟨c, hc, he⟩ := ih h
      exact ⟨c, List.mem_cons_of_mem _ hc, he⟩

/-- Blobs that are not empty are at most as many as their bytes. -/
theorem length_le_flatten {bs : List (List α)} (h : ∀ b ∈ bs, b ≠ []) :
    bs.length ≤ bs.flatten.length := by
  induction bs with
  | nil => simp
  | cons b bs ih =>
    have hb := List.length_pos_iff.mpr (h b List.mem_cons_self)
    have hbs := ih fun c hc => h c (List.mem_cons_of_mem _ hc)
    rw [List.flatten_cons, List.length_append, List.length_cons]
    omega

/-- The table cuts the blobs out of the buffer they were laid into. -/
theorem map_cut_extents (pre : List α) (bs : List (List α)) (post : List α) :
    (extents pre.length bs).map (cut (pre ++ bs.flatten ++ post)) = bs := by
  induction bs generalizing pre with
  | nil => rfl
  | cons b bs ih =>
    have hcut : cut (pre ++ (b :: bs).flatten ++ post) (pre.length, b.length) = b := by
      simp [cut, List.append_assoc]
    have hrest := ih (pre ++ b)
    rw [List.length_append, List.append_assoc, List.append_assoc] at hrest
    rw [extents, List.map_cons, hcut]
    simpa [List.append_assoc] using hrest

/-! ### Tilings -/

/-- The extents lie end to end, from `off` to `stop`. -/
def Tiles : Nat → List (Nat × Nat) → Nat → Prop
  | off, [], stop => off = stop
  | off, e :: es, stop => e.1 = off ∧ Tiles (off + e.2) es stop

section Tiles

variable {off stop : Nat} {es : List (Nat × Nat)} {buf : List α}

theorem Tiles.le (h : Tiles off es stop) : off ≤ stop := by
  induction es generalizing off with
  | nil => exact Nat.le_of_eq h
  | cons e es ih =>
    have hrest := ih h.2
    omega

/-- Every extent of a tiling lies in the range it tiles. -/
theorem Tiles.bounds (h : Tiles off es stop) : ∀ e ∈ es, off ≤ e.1 ∧ e.1 + e.2 ≤ stop := by
  induction es generalizing off with
  | nil => simp
  | cons e es ih =>
    obtain ⟨hstart, hrest⟩ := h
    have hle := hrest.le
    rintro x (_ | ⟨_, hx⟩)
    · omega
    · have hx' := ih hrest x hx
      omega

/-- The last extent of a tiling ends where the tiling does. -/
theorem Tiles.last (h : Tiles off es stop) : ∀ e ∈ es.getLast?, e.1 + e.2 = stop := by
  induction es generalizing off with
  | nil => simp
  | cons e es ih =>
    obtain ⟨hstart, hrest⟩ := h
    cases es with
    | nil =>
      intro x hx
      obtain rfl : e = x := by simpa using hx
      rw [hstart]
      exact hrest
    | cons e' es =>
      intro x hx
      exact ih hrest x (by simpa using hx)

/-- The range is in the buffer; an empty one may be anywhere. -/
def Whole (buf : List α) (e : Nat × Nat) : Prop := (cut buf e).length = e.2

instance (buf : List α) (e : Nat × Nat) : Decidable (Whole buf e) :=
  inferInstanceAs (Decidable (_ = _))

theorem whole_iff {e : Nat × Nat} : Whole buf e ↔ e.2 ≤ buf.length - e.1 := by
  rw [Whole, cut, List.length_take, List.length_drop]
  omega

/-- A tiled range is in the buffer when its extents are. -/
theorem Tiles.whole_iff (h : Tiles off es stop) :
    Whole buf (off, stop - off) ↔ ∀ e ∈ es, Whole buf e := by
  induction es generalizing off with
  | nil =>
    obtain rfl : off = stop := h
    simp [Extents.whole_iff]
  | cons e es ih =>
    obtain ⟨rfl, hrest⟩ := h
    have hle := hrest.le
    rw [List.forall_mem_cons, ← ih hrest, Extents.whole_iff, Extents.whole_iff, Extents.whole_iff]
    dsimp only
    omega

/-- A range cut out of a range that holds it. -/
theorem cut_cut {s n a l : Nat} (hs : s ≤ a) (hn : a + l ≤ s + n) :
    cut (cut buf (s, n)) (a - s, l) = cut buf (a, l) := by
  unfold cut
  rw [List.drop_take, List.take_take, List.drop_drop]
  congr 1
  · omega
  · congr 1
    omega

end Tiles

end Extents
