import Mathlib.Data.List.Pairwise
import Mathlib.Order.Basic
import Turbolite.Keys
import Turbolite.Lib.Checked

/-!
# Turbolite.LookaheadWindow

Which rows and frames a lookahead asks for (`handle.rs`): a window around the anchors that is cut off at
both ends, or at the rows of one key. A `usize` has 64 bits; a sum or a difference that does not fit
panics, and a `saturating_sub` is the truncated difference.

`windows_fit` says where the windows lie. It needs of the row count only that the count and a window end
in a `usize`, as they do for the length of a vector.
-/

namespace Turbolite

open Checked Results

namespace LookaheadWindow

/-- `Range<usize>`. -/
structure Window where
  start : Nat
  stop : Nat
  deriving DecidableEq, Repr

/-- The row is in the window. -/
def Window.Contains (w : Window) (i : Nat) : Prop := w.start ≤ i ∧ i < w.stop

/-- `a + b`. -/
def plus (a b : Nat) : IoResult Nat := orFail .panic (add? 64 a b)

/-- `a - b`. -/
def minus (a b : Nat) : IoResult Nat := orFail .panic (sub? a b)

/-! ### The windows -/

/-- The last anchor, moved into the range. -/
def clipLast (rowCount last : Nat) : IoResult Nat :=
  if rowCount ≤ last then minus rowCount 1 else .ok last

/-- The last anchor that is aimed at: it is no further from the first than the cap. -/
def lastAnchor (rowCount first last cap : Nat) : IoResult Nat := do
  let last ← clipLast rowCount last
  let stop ← plus last 1
  let span ← minus stop first
  .ok (if cap < span then first else last)

/-- The start, moved to the right until the window ends at `stop` at least. -/
def reachStop (start stop cap : Nat) : IoResult Nat := do
  let reach ← plus start cap
  if reach < stop then minus stop cap else .ok start

/-- A window of `cap` rows around the anchors, moved into the range. -/
def placeWindow (rowCount first last cap : Nat) : IoResult Window := do
  let gap ← minus last first
  let anchorLen ← plus gap 1
  let start := first - (cap - anchorLen) / 2
  let stop ← plus last 1
  let start ← reachStop start stop cap
  let reach ← plus start cap
  let stop := min reach rowCount
  .ok ⟨stop - cap, stop⟩

/-- The window of the rows around those that match the anchor. -/
def anchoredLookaheadWindow (rowCount : Nat) (anchorMatches : List Nat) (cap : Nat) :
    IoResult (Option Window) :=
  match anchorMatches with
  | [] => .ok none
  | first :: rest =>
    if rowCount = 0 ∨ cap = 0 ∨ rowCount ≤ first then .ok none
    else do
      let cap := min rowCount cap
      let last ← lastAnchor rowCount first ((first :: rest).getLast (List.cons_ne_nil _ _)) cap
      let w ← placeWindow rowCount first last cap
      .ok (some w)

/-- The rows whose key is the hint. -/
def keyMatches (rowCount : Nat) (firstIntKeys : List (Option Int)) (keyHint : Option Int) : List Nat :=
  match keyHint with
  | none => []
  | some hint => (List.range rowCount).filter fun idx => firstIntKeys[idx]? = some (some hint)

/-- The rows from `first` to `last`, or as many of them as lie in a window around an anchor. -/
def keyWindow (rowCount first last : Nat) (anchorMatches : List Nat) (cap : Nat) :
    IoResult (Option Window) := do
  let stop ← plus last 1
  let span ← minus stop first
  if span ≤ cap then .ok (some ⟨first, stop⟩)
  else do
    let keyAnchorMatches := anchorMatches.filter fun idx => first ≤ idx ∧ idx ≤ last
    let anchorForKey := if keyAnchorMatches = [] then [first] else keyAnchorMatches
    let range ← anchoredLookaheadWindow rowCount anchorForKey cap
    .ok ((range.map fun w => ⟨max w.start first, min w.stop stop⟩).filter fun w => w.start < w.stop)

/-- The window around the rows with the key, or else around the anchor. -/
def keyOrAnchorLookaheadWindow (rowCount : Nat) (firstIntKeys : List (Option Int)) (keyHint : Option Int)
    (anchorMatches : List Nat) (cap : Nat) : IoResult (Option Window) :=
  if rowCount = 0 ∨ cap = 0 then .ok none
  else
    match keyMatches rowCount firstIntKeys keyHint with
    | [] => if anchorMatches = [] then .ok none else anchoredLookaheadWindow rowCount anchorMatches cap
    | first :: rest =>
      keyWindow rowCount first ((first :: rest).getLast (List.cons_ne_nil _ _)) anchorMatches cap

/-- The start, moved to the left until the window ends in the range. -/
def keepInside (frameCount start cap : Nat) : IoResult Nat := do
  let reach ← plus start cap
  if frameCount < reach then minus frameCount cap else .ok start

/-- The window of frames around the anchor's. -/
def anchoredFrameWindow (frameCount anchorFrame cap : Nat) : IoResult Window :=
  if frameCount = 0 ∨ cap = 0 then .ok ⟨0, 0⟩
  else do
    let cap := min frameCount cap
    let start ← keepInside frameCount (anchorFrame - cap / 2) cap
    let stop ← plus start cap
    .ok ⟨start, stop⟩

/-! ### Rows around anchors -/

theorem plus_of_lt {a b : Nat} (h : a + b < 2 ^ 64) : plus a b = .ok (a + b) := by
  rw [plus, add?_of_lt h]
  rfl

theorem minus_of_le {a b : Nat} (h : b ≤ a) : minus a b = .ok (a - b) := by
  rw [minus, sub?, if_pos h]
  rfl

section Rows

variable {rowCount first last cap : Nat}

theorem lastAnchor_spec (hrows : rowCount < 2 ^ 64) (hfirst : first < rowCount) (hle : first ≤ last)
    (hcap : 0 < cap) :
    ∃ l, lastAnchor rowCount first last cap = .ok l ∧ first ≤ l ∧ l < rowCount ∧ l + 1 ≤ first + cap := by
  obtain ⟨l, hl, hge, hlt⟩ : ∃ l, clipLast rowCount last = .ok l ∧ first ≤ l ∧ l < rowCount := by
    unfold clipLast
    split_ifs with hout
    · exact ⟨rowCount - 1, minus_of_le (by omega), by omega, by omega⟩
    · exact ⟨last, rfl, hle, by omega⟩
  unfold lastAnchor
  rw [hl, ok_bind, plus_of_lt (by omega), ok_bind, minus_of_le (by omega), ok_bind]
  split_ifs with hspan
  · exact ⟨first, rfl, le_refl first, hfirst, by omega⟩
  · exact ⟨l, rfl, hge, hlt, by omega⟩

theorem placeWindow_spec (hsum : rowCount + cap ≤ 2 ^ 64) (hcap : cap ≤ rowCount) (hge : first ≤ last)
    (hlt : last < rowCount) (hspan : last + 1 ≤ first + cap) :
    ∃ w, placeWindow rowCount first last cap = .ok w ∧ w.start ≤ first ∧ last < w.stop ∧
      w.stop ≤ rowCount ∧ w.stop = w.start + cap := by
  unfold placeWindow
  rw [minus_of_le hge, ok_bind, plus_of_lt (by omega), ok_bind]
  dsimp only
  generalize hstart : first - (cap - (last - first + 1)) / 2 = start
  obtain ⟨s, hs, hle, hreach⟩ : ∃ s, reachStop start (last + 1) cap = .ok s ∧ s ≤ first ∧
      last + 1 ≤ s + cap := by
    unfold reachStop
    rw [plus_of_lt (by omega), ok_bind]
    split_ifs with hshort
    · exact ⟨last + 1 - cap, minus_of_le (by omega), by omega, by omega⟩
    · exact ⟨start, rfl, by omega, by omega⟩
  rw [plus_of_lt (by omega), ok_bind, hs, ok_bind, plus_of_lt (by omega), ok_bind]
  refine ⟨_, rfl, ?_, ?_, Nat.min_le_right _ _, ?_⟩
  · show min (s + cap) rowCount - cap ≤ first
    omega
  · show last < min (s + cap) rowCount
    omega
  · show min (s + cap) rowCount = min (s + cap) rowCount - cap + cap
    omega

end Rows

/-- A window of one row at least and `cap` at most, in range. -/
structure Fits (rowCount cap : Nat) (w : Window) : Prop where
  nonempty : w.start < w.stop
  inside : w.stop ≤ rowCount
  short : w.stop - w.start ≤ cap

section Anchors

variable {rowCount cap : Nat} {anchors : List Nat}

/-- The first anchor that is in range is the first of all. -/
theorem find?_ascending {first : Nat} {rest : List Nat} (hasc : (first :: rest).Pairwise (· ≤ ·)) :
    (first :: rest).find? (fun i => decide (i < rowCount)) =
      if first < rowCount then some first else none := by
  split_ifs with hlt
  · exact List.find?_cons_of_pos (decide_eq_true hlt)
  · refine List.find?_eq_none.mpr fun i hi => ?_
    have hle : first ≤ i := by
      rcases List.mem_cons.mp hi with rfl | hi
      · exact le_refl _
      · exact (List.pairwise_cons.mp hasc).1 i hi
    simp only [decide_eq_true_eq]
    omega

/-- Without a window there is nothing to aim at; with one, the first anchor in range is in it. -/
theorem anchoredLookaheadWindow_spec (hsum : rowCount + min rowCount cap ≤ 2 ^ 64)
    (hasc : anchors.Pairwise (· ≤ ·)) :
    ∃ r, anchoredLookaheadWindow rowCount anchors cap = .ok r ∧
      (r = none ↔ rowCount = 0 ∨ cap = 0 ∨ anchors.find? (fun i => decide (i < rowCount)) = none) ∧
      ∀ w ∈ r, Fits rowCount cap w ∧
        ∀ first ∈ anchors.find? (fun i => decide (i < rowCount)), w.Contains first := by
  unfold anchoredLookaheadWindow
  cases anchors with
  | nil => exact ⟨none, rfl, by simp, fun w hw => by cases hw⟩
  | cons first rest =>
    rw [find?_ascending hasc]
    dsimp only
    split_ifs with hnone hlt hlt
    · exact ⟨none, rfl, by simpa using by omega, fun w hw => by cases hw⟩
    · exact ⟨none, rfl, by simp, fun w hw => by cases hw⟩
    · have hle : first ≤ (first :: rest).getLast (List.cons_ne_nil _ _) := hasc.rel_getLast List.mem_cons_self
      have hcap : 0 < min rowCount cap := by omega
      obtain ⟨last, hlast, hge, hin, hspan⟩ := lastAnchor_spec (by omega) hlt hle hcap
      obtain ⟨w, hw, hstart, hstop, hinside, hwidth⟩ := placeWindow_spec hsum (Nat.min_le_left _ _) hge hin
        hspan
      rw [hlast, ok_bind, hw, ok_bind]
      refine ⟨some w, rfl, by simpa using by omega, fun w' hw' => ?_⟩
      cases hw'
      refine ⟨⟨by omega, hinside, by omega⟩, fun i hi => ?_⟩
      cases hi
      exact ⟨hstart, by omega⟩
    · exact absurd hlt (by omega)

end Anchors

/-! ### Rows of a key -/

/-- The row lies between two rows of the list. -/
def Between (rows : List Nat) (i : Nat) : Prop := ∃ m ∈ rows, ∃ m' ∈ rows, m ≤ i ∧ i ≤ m'

/-- No row is missing between two of them. -/
def Consecutive (rows : List Nat) : Prop := ∀ i, Between rows i → i ∈ rows

section Matches

variable {rowCount cap : Nat} {keys : List (Option Int)} {hint : Option Int} {anchors : List Nat}

theorem keyMatches_ascending : (keyMatches rowCount keys hint).Pairwise (· < ·) := by
  unfold keyMatches
  cases hint with
  | none => exact List.Pairwise.nil
  | some hint => exact List.pairwise_lt_range.filter _

theorem lt_of_mem_keyMatches {i : Nat} (h : i ∈ keyMatches rowCount keys hint) : i < rowCount := by
  unfold keyMatches at h
  cases hint with
  | none => cases h
  | some hint => exact List.mem_range.mp (List.mem_filter.mp h).1

/-- The first and the last row of a key are its bounds. -/
theorem bounds_of_ascending {first : Nat} {rest : List Nat} (hasc : (first :: rest).Pairwise (· < ·)) :
    first ≤ (first :: rest).getLast (List.cons_ne_nil _ _) ∧
      ∀ i, Between (first :: rest) i ↔
        first ≤ i ∧ i ≤ (first :: rest).getLast (List.cons_ne_nil _ _) := by
  have hhead : ∀ m ∈ first :: rest, first ≤ m := fun m hm => by
    rcases List.mem_cons.mp hm with rfl | hm
    · exact le_refl _
    · exact le_of_lt ((List.pairwise_cons.mp hasc).1 m hm)
  have hlast : ∀ m ∈ first :: rest, m ≤ (first :: rest).getLast (List.cons_ne_nil _ _) := fun m hm =>
    (hasc.imp le_of_lt).rel_getLast hm
  refine ⟨hhead _ (List.getLast_mem _), fun i => ⟨?_, fun h => ?_⟩⟩
  · rintro ⟨m, hm, m', hm', hle, hle'⟩
    exact ⟨(hhead m hm).trans hle, hle'.trans (hlast m' hm')⟩
  · exact ⟨first, List.mem_cons_self, _, List.getLast_mem _, h.1, h.2⟩

/-- What a window around the rows of a key does: it stays between them, and has one of them or the first
anchor that lies between them. -/
structure Aimed (rows anchors : List Nat) (w : Window) : Prop where
  between : ∀ i, w.Contains i → Between rows i
  aimed : (∃ m ∈ rows, w.Contains m) ∨
    ∃ i ∈ anchors, Between rows i ∧ w.Contains i ∧ ∀ j ∈ anchors, Between rows j → i ≤ j

/-- Consecutive rows of a key: one of them is in the window. -/
theorem Aimed.exists_match {rows : List Nat} {w : Window} (h : Aimed rows anchors w)
    (hrows : Consecutive rows) : ∃ m ∈ rows, w.Contains m := by
  rcases h.aimed with hm | ⟨i, -, hi, hw, -⟩
  · exact hm
  · exact ⟨i, hrows i hi, hw⟩

/-- The anchors between the rows of a key, or its first row. -/
theorem anchorForKey_cons {first last : Nat} (hle : first ≤ last) (hasc : anchors.Pairwise (· ≤ ·)) :
    ∃ a rest, (if anchors.filter (fun i => first ≤ i ∧ i ≤ last) = [] then [first]
        else anchors.filter fun i => first ≤ i ∧ i ≤ last) = a :: rest ∧
      (a :: rest).Pairwise (· ≤ ·) ∧ first ≤ a ∧ a ≤ last ∧
      (a = first ∨ a ∈ anchors ∧ ∀ j ∈ anchors, first ≤ j → j ≤ last → a ≤ j) := by
  have hsorted := hasc.filter fun i => decide (first ≤ i ∧ i ≤ last)
  cases hfilter : anchors.filter fun i => decide (first ≤ i ∧ i ≤ last) with
  | nil => exact ⟨first, [], rfl, List.pairwise_singleton _ _, le_refl _, hle, .inl rfl⟩
  | cons a rest =>
    rw [hfilter] at hsorted
    have hmem : ∀ j, j ∈ a :: rest ↔ j ∈ anchors ∧ first ≤ j ∧ j ≤ last := fun j => by
      rw [← hfilter, List.mem_filter, decide_eq_true_eq]
    obtain ⟨ha, hge, hle⟩ := (hmem a).mp List.mem_cons_self
    refine ⟨a, rest, if_neg (List.cons_ne_nil _ _), hsorted, hge, hle, .inr ⟨ha, fun j hj hjge hjle => ?_⟩⟩
    rcases List.mem_cons.mp ((hmem j).mpr ⟨hj, hjge, hjle⟩) with rfl | hj
    · exact le_refl _
    · exact (List.pairwise_cons.mp hsorted).1 j hj

theorem keyWindow_spec {first last : Nat} (hsum : rowCount + min rowCount cap ≤ 2 ^ 64)
    (hasc : anchors.Pairwise (· ≤ ·)) (hcap : 0 < cap) (hle : first ≤ last) (hlt : last < rowCount) :
    ∃ w, keyWindow rowCount first last anchors cap = .ok (some w) ∧ Fits rowCount cap w ∧
      (∀ i, w.Contains i → first ≤ i ∧ i ≤ last) ∧
      (w.Contains first ∨ ∃ a ∈ anchors, first ≤ a ∧ a ≤ last ∧ w.Contains a ∧
        ∀ j ∈ anchors, first ≤ j → j ≤ last → a ≤ j) := by
  unfold keyWindow
  rw [plus_of_lt (by omega), ok_bind, minus_of_le (by omega), ok_bind]
  by_cases hspan : last + 1 - first ≤ cap
  · rw [if_pos hspan]
    exact ⟨⟨first, last + 1⟩, rfl, ⟨Nat.lt_succ_of_le hle, hlt, hspan⟩,
      fun i hi => ⟨hi.1, Nat.le_of_lt_succ hi.2⟩, .inl ⟨le_refl first, Nat.lt_succ_of_le hle⟩⟩
  · rw [if_neg hspan]
    obtain ⟨a, rest, hanchors, hasc', hge, hle', haim⟩ := anchorForKey_cons hle hasc
    obtain ⟨r, hr, hnone, hspec⟩ := anchoredLookaheadWindow_spec hsum hasc'
    have hfind : (a :: rest).find? (fun i => decide (i < rowCount)) = some a := by
      rw [find?_ascending hasc', if_pos (by omega)]
    dsimp only
    rw [hanchors, hr, ok_bind]
    cases r with
    | none =>
      rcases hnone.mp rfl with hzero | hzero | hout
      · omega
      · omega
      · cases hfind.symm.trans hout
    | some w =>
      obtain ⟨⟨-, hinside, hshort⟩, hcontains⟩ := hspec w rfl
      obtain ⟨hstart, hstop⟩ := hcontains a hfind
      have hne : max w.start first < min w.stop (last + 1) := by omega
      have ha : Window.Contains ⟨max w.start first, min w.stop (last + 1)⟩ a :=
        ⟨Nat.max_le.mpr ⟨hstart, hge⟩, Nat.lt_min.mpr ⟨hstop, Nat.lt_succ_of_le hle'⟩⟩
      refine ⟨⟨max w.start first, min w.stop (last + 1)⟩, ?_, ⟨hne, ?_, ?_⟩, fun i hi => ?_, ?_⟩
      · rw [Option.map_some, Option.filter_some, if_pos (decide_eq_true hne)]
      · exact (Nat.min_le_left _ _).trans hinside
      · show min w.stop (last + 1) - max w.start first ≤ cap
        omega
      · exact ⟨(Nat.le_max_right _ _).trans hi.1,
          Nat.le_of_lt_succ (hi.2.trans_le (Nat.min_le_right _ _))⟩
      · rcases haim with rfl | ⟨hmem, hfirst⟩
        · exact .inl ha
        · exact .inr ⟨a, hmem, hge, hle', ha, hfirst⟩

theorem keyOrAnchorLookaheadWindow_spec (keys : List (Option Int)) (hint : Option Int)
    (hsum : rowCount + min rowCount cap ≤ 2 ^ 64) (hasc : anchors.Pairwise (· ≤ ·)) :
    ∃ r, keyOrAnchorLookaheadWindow rowCount keys hint anchors cap = .ok r ∧ ∀ w ∈ r,
      Fits rowCount cap w ∧
      (keyMatches rowCount keys hint = [] →
        ∀ first ∈ anchors.find? (fun i => decide (i < rowCount)), w.Contains first) ∧
      (keyMatches rowCount keys hint ≠ [] → Aimed (keyMatches rowCount keys hint) anchors w) := by
  unfold keyOrAnchorLookaheadWindow
  by_cases hzero : rowCount = 0 ∨ cap = 0
  · rw [if_pos hzero]
    exact ⟨none, rfl, fun w hw => by cases hw⟩
  · rw [if_neg hzero]
    have hrows : (keyMatches rowCount keys hint).Pairwise (· < ·) := keyMatches_ascending
    have hlt : ∀ i ∈ keyMatches rowCount keys hint, i < rowCount := fun i => lt_of_mem_keyMatches
    generalize keyMatches rowCount keys hint = rows at hrows hlt
    cases rows with
    | nil =>
      obtain ⟨r, hr, -, hspec⟩ := anchoredLookaheadWindow_spec hsum hasc
      dsimp only
      split_ifs
      · exact ⟨none, rfl, fun w hw => by cases hw⟩
      · exact ⟨r, hr, fun w hw => ⟨(hspec w hw).1, fun _ => (hspec w hw).2, fun hne => absurd rfl hne⟩⟩
    | cons first rest =>
      obtain ⟨hle, hbetween⟩ := bounds_of_ascending hrows
      have hlast := hlt _ (List.getLast_mem (List.cons_ne_nil first rest))
      obtain ⟨w, hw, hfits, hspan, haim⟩ := keyWindow_spec hsum hasc (by omega) hle hlast
      refine ⟨some w, hw, fun w' hw' => ?_⟩
      cases hw'
      refine ⟨hfits, fun hnil => absurd hnil (List.cons_ne_nil _ _), fun _ =>
        ⟨fun i hi => (hbetween i).mpr (hspan i hi), ?_⟩⟩
      rcases haim with hfirst | ⟨a, ha, hge, hle', hin, hmin⟩
      · exact .inl ⟨first, List.mem_cons_self, hfirst⟩
      · refine .inr ⟨a, ha, (hbetween a).mpr ⟨hge, hle'⟩, hin, fun j hj hj' => ?_⟩
        obtain ⟨hjge, hjle⟩ := (hbetween j).mp hj'
        exact hmin j hj hjge hjle

end Matches

/-! ### Frames -/

theorem anchoredFrameWindow_spec {frameCount anchorFrame cap : Nat}
    (hsum : max frameCount anchorFrame + min frameCount cap < 2 ^ 64) :
    ∃ w, anchoredFrameWindow frameCount anchorFrame cap = .ok w ∧ w.stop ≤ frameCount ∧
      w.stop = w.start + min cap frameCount ∧
      (0 < cap → anchorFrame < frameCount → w.Contains anchorFrame) := by
  unfold anchoredFrameWindow
  by_cases hzero : frameCount = 0 ∨ cap = 0
  · rw [if_pos hzero]
    refine ⟨⟨0, 0⟩, rfl, Nat.zero_le _, ?_, fun hcap hanchor => by omega⟩
    show 0 = 0 + min cap frameCount
    omega
  · rw [if_neg hzero]
    obtain ⟨s, hs, hreach, hin⟩ : ∃ s, keepInside frameCount (anchorFrame - min frameCount cap / 2)
        (min frameCount cap) = .ok s ∧ s + min frameCount cap ≤ frameCount ∧
          (anchorFrame < frameCount → s ≤ anchorFrame ∧ anchorFrame < s + min frameCount cap) := by
      unfold keepInside
      rw [plus_of_lt (by omega), ok_bind]
      split_ifs with hout
      · exact ⟨frameCount - min frameCount cap, minus_of_le (Nat.min_le_left _ _), by omega, by omega⟩
      · exact ⟨_, rfl, by omega, by omega⟩
    dsimp only
    rw [hs, ok_bind, plus_of_lt (by omega), ok_bind]
    exact ⟨_, rfl, hreach, by rw [Nat.min_comm], fun _ => hin⟩

/-! ### The windows -/

/-- **Windows.** For ascending anchors, any keys, hint and caps, where the sums fit in a `usize`: a window
around anchors has the first anchor in range; a window of a key stays between the rows of the key, and
has one of them where they are consecutive; a window of frames is as long as it can be and has the
anchor. -/
theorem windows_fit {rowCount cap : Nat} {anchors : List Nat}
    (hsum : rowCount + min rowCount cap ≤ 2 ^ 64) (hasc : anchors.Pairwise (· ≤ ·))
    (keys : List (Option Int)) (hint : Option Int) {frameCount anchorFrame frameCap : Nat}
    (hframes : max frameCount anchorFrame + min frameCount frameCap < 2 ^ 64) :
    (∃ r, anchoredLookaheadWindow rowCount anchors cap = .ok r ∧ ∀ w ∈ r, Fits rowCount cap w ∧
      ∀ first ∈ anchors.find? (fun i => decide (i < rowCount)), w.Contains first) ∧
    (∃ r, keyOrAnchorLookaheadWindow rowCount keys hint anchors cap = .ok r ∧ ∀ w ∈ r,
      Fits rowCount cap w ∧
      (keyMatches rowCount keys hint = [] →
        ∀ first ∈ anchors.find? (fun i => decide (i < rowCount)), w.Contains first) ∧
      (keyMatches rowCount keys hint ≠ [] → Aimed (keyMatches rowCount keys hint) anchors w ∧
        (Consecutive (keyMatches rowCount keys hint) →
          ∃ m ∈ keyMatches rowCount keys hint, w.Contains m))) ∧
    ∃ w, anchoredFrameWindow frameCount anchorFrame frameCap = .ok w ∧ w.stop ≤ frameCount ∧
      w.stop = w.start + min frameCap frameCount ∧
      (0 < frameCap → anchorFrame < frameCount → w.Contains anchorFrame) := by
  obtain ⟨r, hr, -, hspec⟩ := anchoredLookaheadWindow_spec hsum hasc
  obtain ⟨r', hr', hspec'⟩ := keyOrAnchorLookaheadWindow_spec keys hint hsum hasc
  refine ⟨⟨r, hr, hspec⟩, ⟨r', hr', fun w hw => ?_⟩, anchoredFrameWindow_spec hframes⟩
  obtain ⟨hfits, hanchors, haimed⟩ := hspec' w hw
  exact ⟨hfits, hanchors, fun hne => ⟨haimed hne, (haimed hne).exists_match⟩⟩

theorem windows_fit_around_row_2 :
    ∃ w, anchoredLookaheadWindow 5 [2, 3] 3 = .ok (some w) ∧ w.Contains 2 := by
  obtain ⟨⟨r, hr, hspec⟩, -⟩ := windows_fit (show 5 + min 5 3 ≤ 2 ^ 64 by decide)
    (show [2, 3].Pairwise (· ≤ ·) by decide) [] none (show max 4 1 + min 4 2 < 2 ^ 64 by decide)
  cases r with
  | none => cases hr
  | some w => exact ⟨w, hr, (hspec w rfl).2 2 rfl⟩

/-- Rows of a key that are not consecutive may all lie outside; no frame is asked for with a cap of 0, and
one outside the frames is not had; and a sum overflows when all numbers are rows. -/
theorem windows_miss :
    (keyMatches 5 [some 7, none, none, none, some 7] (some 7) = [0, 4] ∧
      keyOrAnchorLookaheadWindow 5 [some 7, none, none, none, some 7] (some 7) [2] 1 =
        .ok (some ⟨2, 3⟩)) ∧
    anchoredFrameWindow 4 0 0 = .ok ⟨0, 0⟩ ∧ anchoredFrameWindow 4 9 2 = .ok ⟨2, 4⟩ ∧
    anchoredLookaheadWindow (2 ^ 64 - 1) [2 ^ 64 - 2] (2 ^ 64 - 1) = .error .panic := by
  refine ⟨⟨by decide, by decide⟩, by decide, by decide, by decide⟩

end LookaheadWindow

end Turbolite
