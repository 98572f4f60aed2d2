import Mathlib.Algebra.BigOperators.Group.Finset.Basic
import Mathlib.Algebra.Order.BigOperators.Group.Finset
import Mathlib.Algebra.Ring.Nat
import Turbolite.Lib.Runs

/-!
# Turbolite.ScanPrefetch

The fetches ahead of a planned scan (`refill_active_scan_prefetch`). A refill forgets the groups whose fetch
is over and goes on through the group list of the tree, from the cursor, until the window is full. What the
cache and the pool answer at each place of the list is an argument: workers and other handles run in between.
Bytes are counted in a `u64`: what is under way at the start of a refill wraps around, what a refill adds
saturates.

The cursor is past a group before the group is compared with the window, so a group that does not fit is not
offered again. `scan_window_kept` says what is offered, and that the fetches of the scan that are not over
stay within the window.
-/

namespace Turbolite.ScanPrefetch

open Runs

/-- `scan_window_groups` and `scan_window_bytes`. -/
structure Window where
  groups : Nat
  bytes : UInt64

/-- `scan_window_groups.max(1)`. -/
def Window.size (w : Window) : Nat := max w.groups 1

/-- What a place of the list meets. -/
structure Look where
  /-- the group is claimed, present or pending -/
  busy : Bool
  /-- `try_submit_optional_prefetch` accepts it -/
  accepted : Bool

/-- `saturating_add` of two `u64`. -/
def saturatingAdd (a b : Nat) : Nat := min (a + b) (2 ^ 64 - 1)

/-- A window of `u64::MAX` bytes, which no saturated count exceeds. -/
def Window.Unlimited (w : Window) : Prop := w.bytes.toNat = 2 ^ 64 - 1

theorem Window.bytes_lt {w : Window} (h : ¬ w.Unlimited) : w.bytes.toNat < 2 ^ 64 - 1 := by
  have hlt := w.bytes.toNat_lt
  unfold Window.Unlimited at h
  omega

section Refill

variable (w : Window) (bytesOf : Nat → UInt64) (current : Option Nat) (look : Nat → Look)

/-- The loop of a refill over the rest of the list: how many places it passes and which groups it submits. -/
def refillLoop : (rest : List Nat) → (place activeGroups activeBytes : Nat) → Nat × List Nat
  | [], _, _, _ => (0, [])
  | gid :: rest, place, activeGroups, activeBytes =>
    if activeGroups < w.size then
      if some gid = current ∨ (look place).busy = true then
        let r := refillLoop rest (place + 1) activeGroups activeBytes
        (r.1 + 1, r.2)
      else if 0 < activeGroups ∧ w.bytes.toNat < saturatingAdd activeBytes (bytesOf gid).toNat then
        -- the cursor has passed the group
        (1, [])
      else if (look place).accepted = true then
        let r := refillLoop rest (place + 1) (activeGroups + 1)
          (saturatingAdd activeBytes (bytesOf gid).toNat)
        (r.1 + 1, gid :: r.2)
      else
        let r := refillLoop rest (place + 1) activeGroups activeBytes
        (r.1 + 1, r.2)
    else (0, [])

variable {w bytesOf current look} {rest : List Nat} {place activeGroups activeBytes : Nat}

/-- The submitted groups stand among the places that were passed, in their order. -/
theorem refillLoop_sublist :
    (refillLoop w bytesOf current look rest place activeGroups activeBytes).2.Sublist
      (rest.take (refillLoop w bytesOf current look rest place activeGroups activeBytes).1) := by
  induction rest generalizing place activeGroups activeBytes with
  | nil => simp [refillLoop]
  | cons gid rest ih =>
    unfold refillLoop
    split
    · split
      · exact ih.cons gid
      · split
        · simp
        · split
          · exact ih.cons_cons gid
          · exact ih.cons gid
    · simp

theorem refillLoop_le_length :
    (refillLoop w bytesOf current look rest place activeGroups activeBytes).1 ≤ rest.length := by
  induction rest generalizing place activeGroups activeBytes with
  | nil => simp [refillLoop]
  | cons gid rest ih =>
    unfold refillLoop
    split
    · split
      · simpa using ih
      · split
        · simp
        · split <;> simpa using ih
    · simp

theorem refillLoop_groups (h : activeGroups ≤ w.size) :
    activeGroups + (refillLoop w bytesOf current look rest place activeGroups activeBytes).2.length ≤
      w.size := by
  induction rest generalizing place activeGroups activeBytes with
  | nil => simpa [refillLoop] using h
  | cons gid rest ih =>
    unfold refillLoop
    split
    case isTrue hlt =>
      split
      · exact ih h
      · split
        · simpa using h
        · split
          · have hnext : activeGroups + 1 ≤ w.size := hlt
            have hrest := @ih (place + 1) (activeGroups + 1)
              (saturatingAdd activeBytes (bytesOf gid).toNat) hnext
            simp only [List.length_cons]
            omega
          · exact ih h
    case isFalse => simpa using h

/-- A single group may be of any size; more than one fit into the window of bytes. -/
theorem refillLoop_bytes (hw : ¬ w.Unlimited) (h : activeGroups ≤ 1 ∨ activeBytes ≤ w.bytes.toNat) :
    activeGroups + (refillLoop w bytesOf current look rest place activeGroups activeBytes).2.length ≤ 1 ∨
      activeBytes + ((refillLoop w bytesOf current look rest place activeGroups activeBytes).2.map
        fun gid => (bytesOf gid).toNat).sum ≤ w.bytes.toNat := by
  have hlt := Window.bytes_lt hw
  induction rest generalizing place activeGroups activeBytes with
  | nil => simpa [refillLoop] using h
  | cons gid rest ih =>
    unfold refillLoop
    split
    · split
      · exact ih h
      · split
        · simpa using h
        case isFalse hfits =>
          split
          · -- a count that fits the window has not saturated
            unfold saturatingAdd at hfits ih ⊢
            have hnext : activeGroups + 1 ≤ 1 ∨
                min (activeBytes + (bytesOf gid).toNat) (2 ^ 64 - 1) ≤ w.bytes.toNat := by omega
            have hrest := @ih (place + 1) (activeGroups + 1) _ hnext
            simp only [List.length_cons, List.map_cons, List.sum_cons]
            omega
          · exact ih h
    · simpa using h

end Refill

/-! ### Runs -/

/-- The scan: its list and cursor, and what it has submitted. -/
structure State where
  groupIds : List Nat
  cursor : Nat := 0
  submitted : Finset Nat := ∅
  /-- the fetches of the scan that no worker has finished; they are pending in the pool -/
  live : Finset Nat := ∅
  /-- the groups that were submitted, in order -/
  offered : List Nat := []

/-- A refill of the scan, or the end of a fetch. -/
inductive Event where
  /-- a refill by a read of the current group; `keep` is what it finds fetching or pending -/
  | refill (current : Option Nat) (keep : Nat → Bool) (look : Nat → Look)
  /-- a worker is done with the group -/
  | finish (gid : Nat)

/-- `scan.submitted.retain`. -/
def State.retained (s : State) (keep : Nat → Bool) : Finset Nat := s.submitted.filter fun gid => keep gid = true

variable (w : Window) (bytesOf : Nat → UInt64)

/-- The bytes of some groups. -/
def totalBytes (gids : Finset Nat) : Nat := ∑ gid ∈ gids, (bytesOf gid).toNat

/-- The loop of `refill_active_scan_prefetch` on the list of one tree. -/
def State.loop (s : State) (current : Option Nat) (keep : Nat → Bool) (look : Nat → Look) : Nat × List Nat :=
  refillLoop w bytesOf current look (s.groupIds.drop s.cursor) s.cursor (s.retained keep).card
    (totalBytes bytesOf (s.retained keep) % 2 ^ 64)

/-- `refill_active_scan_prefetch` for one tree. -/
def State.refill (s : State) (current : Option Nat) (keep : Nat → Bool) (look : Nat → Look) : State :=
  let r := s.loop w bytesOf current keep look
  { s with
    cursor := s.cursor + r.1
    submitted := s.retained keep ∪ r.2.toFinset
    live := s.live ∪ r.2.toFinset
    offered := s.offered ++ r.2 }

/-- The next state; none where the step does not apply. -/
def step (s : State) : Event → Option State
  | .refill current keep look =>
    if ∀ gid ∈ s.live, keep gid = true then some (s.refill w bytesOf current keep look) else none
  | .finish gid => if gid ∈ s.live then some { s with live := s.live.erase gid } else none

/-- The scan keeps to its window, and goes through its groups once. -/
structure Kept (s : State) : Prop where
  live : s.live ⊆ s.submitted
  groups : s.submitted.card ≤ w.size
  bytes : ¬ w.Unlimited → s.submitted.card ≤ 1 ∨ totalBytes bytesOf s.submitted ≤ w.bytes.toNat
  cursor : s.cursor ≤ s.groupIds.length
  offered : s.offered.Sublist (s.groupIds.take s.cursor)
  submitted : ∀ gid ∈ s.submitted, gid ∈ s.offered

variable {w bytesOf} {s s' : State} {current : Option Nat} {keep : Nat → Bool} {look : Nat → Look}

theorem kept_init (groupIds : List Nat) : Kept w bytesOf { groupIds := groupIds } where
  live := Finset.empty_subset _
  groups := by simp
  bytes := by simp
  cursor := Nat.zero_le _
  offered := by simp
  submitted := by simp

theorem sum_union_toFinset_le (f : Nat → Nat) (t : Finset Nat) (xs : List Nat) :
    ∑ x ∈ t ∪ xs.toFinset, f x ≤ ∑ x ∈ t, f x + (xs.map f).sum := by
  induction xs generalizing t with
  | nil => simp
  | cons x xs ih =>
    have hle := ih t
    have hunion : t ∪ (x :: xs).toFinset = insert x (t ∪ xs.toFinset) := by simp
    rw [hunion, List.map_cons, List.sum_cons]
    by_cases hx : x ∈ t ∪ xs.toFinset
    · rw [Finset.insert_eq_of_mem hx]
      omega
    · rw [Finset.sum_insert hx]
      omega

theorem totalBytes_mono {gids gids' : Finset Nat} (h : gids ⊆ gids') :
    totalBytes bytesOf gids ≤ totalBytes bytesOf gids' := Finset.sum_le_sum_of_subset h

/-- The bytes of a single group fit a `u64`. -/
theorem totalBytes_lt {gids : Finset Nat} (h : gids.card ≤ 1) : totalBytes bytesOf gids < 2 ^ 64 := by
  rcases Nat.le_one_iff_eq_zero_or_eq_one.mp h with hnone | hone
  · rw [totalBytes, Finset.card_eq_zero.mp hnone, Finset.sum_empty]
    exact Nat.two_pow_pos 64
  · obtain ⟨gid, rfl⟩ := Finset.card_eq_one.mp hone
    rw [totalBytes, Finset.sum_singleton]
    exact (bytesOf gid).toNat_lt

theorem card_union_toFinset_le (t : Finset Nat) (xs : List Nat) :
    (t ∪ xs.toFinset).card ≤ t.card + xs.length :=
  (Finset.card_union_le _ _).trans (Nat.add_le_add_left (List.toFinset_card_le xs) _)

theorem retained_subset : s.retained keep ⊆ s.submitted := Finset.filter_subset _ _

/-- The places a refill passes are places of the list. -/
theorem cursor_loop_le (h : s.cursor ≤ s.groupIds.length) :
    s.cursor + (s.loop w bytesOf current keep look).1 ≤ s.groupIds.length := by
  have hle : (s.loop w bytesOf current keep look).1 ≤ (s.groupIds.drop s.cursor).length :=
    refillLoop_le_length
  rw [List.length_drop] at hle
  omega

theorem loop_sublist :
    (s.loop w bytesOf current keep look).2.Sublist
      ((s.groupIds.drop s.cursor).take (s.loop w bytesOf current keep look).1) := refillLoop_sublist

theorem Kept.refill (h : Kept w bytesOf s) (hkeep : ∀ gid ∈ s.live, keep gid = true) :
    Kept w bytesOf (s.refill w bytesOf current keep look) := by
  have hgroups : (s.retained keep).card ≤ w.size := (Finset.card_le_card retained_subset).trans h.groups
  have hbytes : ¬ w.Unlimited → (s.retained keep).card ≤ 1 ∨
      totalBytes bytesOf (s.retained keep) ≤ w.bytes.toNat := by
    intro hw
    rcases h.bytes hw with hone | hfit
    · exact .inl ((Finset.card_le_card retained_subset).trans hone)
    · exact .inr ((totalBytes_mono retained_subset).trans hfit)
  constructor
  case live =>
    refine Finset.union_subset_union ?_ (Finset.Subset.refl _)
    intro gid hgid
    exact Finset.mem_filter.mpr ⟨h.live hgid, hkeep gid hgid⟩
  case groups => exact (card_union_toFinset_le _ _).trans (refillLoop_groups hgroups)
  case bytes =>
    intro hw
    have hkept := hbytes hw
    have hlt := Window.bytes_lt hw
    -- so far nothing has wrapped around
    have hexact : totalBytes bytesOf (s.retained keep) % 2 ^ 64 = totalBytes bytesOf (s.retained keep) := by
      refine Nat.mod_eq_of_lt ?_
      rcases hkept with hone | hfit
      · exact totalBytes_lt hone
      · omega
    rw [← hexact] at hkept
    have hloop : (s.retained keep).card + (s.loop w bytesOf current keep look).2.length ≤ 1 ∨
        totalBytes bytesOf (s.retained keep) % 2 ^ 64 + ((s.loop w bytesOf current keep look).2.map
          fun gid => (bytesOf gid).toNat).sum ≤ w.bytes.toNat := refillLoop_bytes hw hkept
    rcases hloop with hone | hfit
    · exact .inl ((card_union_toFinset_le _ _).trans hone)
    · rw [hexact] at hfit
      exact .inr ((sum_union_toFinset_le (fun gid => (bytesOf gid).toNat) _ _).trans hfit)
  case cursor => exact cursor_loop_le h.cursor
  case offered =>
    -- the new groups stand between the old cursor and the new one
    show (s.offered ++ (s.loop w bytesOf current keep look).2).Sublist
      (s.groupIds.take (s.cursor + (s.loop w bytesOf current keep look).1))
    rw [List.take_add]
    exact h.offered.append loop_sublist
  case submitted =>
    intro gid hgid
    rcases Finset.mem_union.mp hgid with hold | hnew
    · exact List.mem_append_left _ (h.submitted gid (retained_subset hold))
    · exact List.mem_append_right _ (List.mem_toFinset.mp hnew)

theorem Kept.finish (h : Kept w bytesOf s) (gid : Nat) :
    Kept w bytesOf { s with live := s.live.erase gid } where
  live := (Finset.erase_subset _ _).trans h.live
  groups := h.groups
  bytes := h.bytes
  cursor := h.cursor
  offered := h.offered
  submitted := h.submitted

theorem step_cases {e : Event} (hs : step w bytesOf s e = some s') :
    (∃ current keep look, (∀ gid ∈ s.live, keep gid = true) ∧ s' = s.refill w bytesOf current keep look) ∨
      ∃ gid, gid ∈ s.live ∧ s' = { s with live := s.live.erase gid } := by
  cases e with
  | refill current keep look =>
    obtain ⟨hkeep, hs⟩ := Option.ite_none_right_eq_some.mp hs
    exact .inl ⟨current, keep, look, hkeep, (Option.some.inj hs).symm⟩
  | finish gid =>
    obtain ⟨hgid, hs⟩ := Option.ite_none_right_eq_some.mp hs
    exact .inr ⟨gid, hgid, (Option.some.inj hs).symm⟩

theorem Kept.of_step {e : Event} (h : Kept w bytesOf s) (hs : step w bytesOf s e = some s') :
    Kept w bytesOf s' := by
  obtain ⟨current, keep, look, hkeep, rfl⟩ | ⟨gid, -, rfl⟩ := step_cases hs
  · exact h.refill hkeep
  · exact h.finish gid

/-- The cursor only goes on, and what is offered later stands behind it. -/
structure Onward (s s' : State) : Prop where
  groupIds : s'.groupIds = s.groupIds
  cursor : s.cursor ≤ s'.cursor
  offered : ∃ more : List Nat, s'.offered = s.offered ++ more ∧
    more.Sublist ((s.groupIds.drop s.cursor).take (s'.cursor - s.cursor))

theorem Onward.refl (s : State) : Onward s s := ⟨rfl, Nat.le_refl _, [], by simp, by simp⟩

theorem Onward.trans {a b c : State} (hab : Onward a b) (hbc : Onward b c) : Onward a c := by
  obtain ⟨xs, hxs, hxsub⟩ := hab.offered
  obtain ⟨ys, hys, hysub⟩ := hbc.offered
  have h1 := hab.cursor
  have h2 := hbc.cursor
  refine ⟨hbc.groupIds.trans hab.groupIds, h1.trans h2, xs ++ ys, by rw [hys, hxs, List.append_assoc], ?_⟩
  -- the two stretches of the list follow each other
  have hlen : c.cursor - a.cursor = (b.cursor - a.cursor) + (c.cursor - b.cursor) := by omega
  have hdrop : (a.groupIds.drop a.cursor).drop (b.cursor - a.cursor) = b.groupIds.drop b.cursor := by
    rw [List.drop_drop, hab.groupIds, Nat.add_sub_cancel' h1]
  rw [hlen, List.take_add, hdrop]
  exact hxsub.append hysub

theorem Onward.of_step {e : Event} (hs : step w bytesOf s e = some s') : Onward s s' := by
  obtain ⟨current, keep, look, -, rfl⟩ | ⟨gid, -, rfl⟩ := step_cases hs
  · refine ⟨rfl, Nat.le_add_right _ _, _, rfl, ?_⟩
    have hpassed : (s.refill w bytesOf current keep look).cursor - s.cursor =
        (s.loop w bytesOf current keep look).1 := Nat.add_sub_cancel_left _ _
    rw [hpassed]
    exact loop_sublist
  · exact ⟨rfl, Nat.le_refl _, [], by simp, by simp⟩

theorem Onward.of_run {es : List Event} (hr : run (step w bytesOf) s es = some s') : Onward s s' :=
  run_preserves (fun _ _ _ hi hs => hi.trans (Onward.of_step hs)) (Onward.refl s) hr

/-- The fetches of a scan that are not over stay within the window, whatever the workers do between the
refills: at most `scan_window_groups` of them, and at most `scan_window_bytes` unless there is only one or
that is `u64::MAX`.
Each is of a group of the list that was submitted, and the groups are submitted in the order of the list,
each place at most once: a group that the cursor has passed is never offered again. -/
theorem scan_window_kept {groupIds : List Nat} {es fs : List Event}
    (h₁ : run (step w bytesOf) { groupIds := groupIds } es = some s)
    (h₂ : run (step w bytesOf) s fs = some s') :
    (s.live.card ≤ max w.groups 1 ∧
        (s.live.card ≤ 1 ∨ totalBytes bytesOf s.live ≤ w.bytes.toNat ∨ w.Unlimited)) ∧
      (∀ gid ∈ s.live, gid ∈ s.offered) ∧ s.offered.Sublist (groupIds.take s.cursor) ∧
        ∃ more : List Nat, s'.offered = s.offered ++ more ∧ more.Sublist (groupIds.drop s.cursor) := by
  have hkept : Kept w bytesOf s := run_preserves (fun _ _ _ hi hs => hi.of_step hs) (kept_init groupIds) h₁
  have hlist : s.groupIds = groupIds := (Onward.of_run h₁).groupIds
  obtain ⟨more, hmore, hsub⟩ := (Onward.of_run h₂).offered
  refine ⟨⟨(Finset.card_le_card hkept.live).trans hkept.groups, ?_⟩, ?_, hlist ▸ hkept.offered, more, hmore, ?_⟩
  · by_cases hw : w.Unlimited
    · exact .inr (.inr hw)
    · rcases hkept.bytes hw with hone | hfit
      · exact .inl ((Finset.card_le_card hkept.live).trans hone)
      · exact .inr (.inl ((totalBytes_mono hkept.live).trans hfit))
  · exact fun gid hgid => hkept.submitted gid (hkept.live hgid)
  · exact hlist ▸ hsub.trans (List.take_sublist _ _)

/-! A list of four groups of ten bytes, a window of two groups and fifteen bytes. The second refill passes
the group 2, which does not fit beside the group 1. -/

/-- Every group is free and accepted. -/
def exampleLook : Nat → Look := fun _ => { busy := false, accepted := true }

/-- Two refills at the first group. -/
def exampleScan : List Event :=
  [.refill (some 0) (fun _ => true) exampleLook, .refill (some 0) (fun _ => true) exampleLook]

theorem example_window_kept :
    ∃ s s', run (step ⟨2, 15⟩ fun _ => 10) { groupIds := [0, 1, 2, 3] } exampleScan = some s ∧
      run (step ⟨2, 15⟩ fun _ => 10) s [.finish 1] = some s' ∧ s.live.card ≤ max 2 1 := by
  refine ⟨_, _, rfl, rfl, ?_⟩
  exact (scan_window_kept
    (show run (step ⟨2, 15⟩ fun _ => 10) { groupIds := [0, 1, 2, 3] } exampleScan = some _ from rfl)
    (show run _ _ [.finish 1] = some _ from rfl)).1.1

end Turbolite.ScanPrefetch
