import Turbolite.CursorChain
import Turbolite.Lib.Fairness

/-!
# Turbolite.CursorLiveness

A follower that is polled fairly catches up (`specs/cursor_chain_liveness.qnt`). The specification fixes a
chain of three deltas and lets nothing else happen. Here the chain is of any length and further candidates
may be published at any time; the lease stays where it is and nobody equivocates. The rank is the number
of deltas that are left.
-/

namespace Turbolite.CursorChain

open Fairness

variable {W C F : Type}

/-- The event neither moves the lease nor records an equivocation. -/
def Event.Stable : Event W C F → Prop
  | .promote _ => False
  | .recordEquivocation _ _ => False
  | _ => True

/-- The follower applies a delta in this step. -/
def Event.Applies : Event W C F → Prop
  | .applyNext _ => True
  | _ => False

/-- The deltas that are left for the follower are published, and lead to the cursor. -/
structure Published (s : State W C F) (ds : List (Delta W C F)) (final : Cursor C) : Prop where
  fatal : s.fatal = false
  wellFormed : CandidatesWellFormed s.deltas
  mem : ∀ d ∈ ds, d ∈ s.deltas
  chained : Chained s.followerEpoch s.followerWriter s.cursor ds final

variable [DecidableEq W] [DecidableEq C] [DecidableEq F]

section Step

variable {promotedBaseChecksum : C} {s s' : State W C F} {ds : List (Delta W C F)} {final : Cursor C}

/-- The only delta that can be applied is the first that is left. -/
theorem Published.apply (h : Published s ds final) {d : Delta W C F} (hd : s.Accepts d)
    (hno : s.cursor ≠ final) : ∃ rest, ds = d :: rest ∧ Published (s.apply d) rest final := by
  cases ds with
  | nil => exact absurd h.chained hno
  | cons a rest =>
    obtain ⟨-, hmem, hseq, hepoch, hwriter, -⟩ := hd
    obtain ⟨⟨haseq, haepoch, hawriter, -⟩, hrest⟩ := h.chained
    have hslot : a.SameCandidateSlot d :=
      ⟨haseq.trans hseq.symm, haepoch.trans hepoch.symm, hawriter.trans hwriter.symm⟩
    obtain rfl := eq_of_slot h.wellFormed.1 (h.mem a List.mem_cons_self) hmem hslot
    refine ⟨rest, rfl, h.fatal, h.wellFormed, ?_, hrest⟩
    intro e he
    exact h.mem e (List.mem_cons_of_mem a he)

theorem Published.enabled (promotedBaseChecksum : C) (h : Published s ds final)
    (hno : s.cursor ≠ final) : Enabled (step promotedBaseChecksum) Event.Applies s := by
  cases ds with
  | nil => exact absurd h.chained hno
  | cons d rest =>
    obtain ⟨⟨hseq, hepoch, hwriter, hprev⟩, -⟩ := h.chained
    have haccepts : s.Accepts d :=
      ⟨h.fatal, h.mem d List.mem_cons_self, hseq, hepoch, hwriter, hprev⟩
    exact ⟨.applyNext d, s.apply d, trivial, by rw [step, if_pos haccepts]⟩

/-- A stable step takes the follower nowhere else: the rest stays published, and is shorter after a delta
was applied. -/
theorem Published.step {e : Event W C F} (h : Published s ds final) (hno : s.cursor ≠ final)
    (he : e.Stable) (hs : step promotedBaseChecksum s e = some s') :
    ∃ rest, Published s' rest final ∧ rest.length ≤ ds.length ∧
      (e.Applies → rest.length < ds.length) := by
  cases e with
  | appendDelta d =>
    simp only [CursorChain.step, Option.ite_none_right_eq_some, Option.some.injEq] at hs
    obtain ⟨hwf, rfl⟩ := hs
    refine ⟨ds, ⟨h.fatal, hwf, ?_, h.chained⟩, le_refl _, fun ha => ha.elim⟩
    intro e he
    exact Finset.mem_insert_of_mem (h.mem e he)
  | recordEquivocation a b => exact he.elim
  | applyNext d =>
    simp only [CursorChain.step, Option.ite_none_right_eq_some, Option.some.injEq] at hs
    obtain ⟨hd, rfl⟩ := hs
    obtain ⟨rest, rfl, hrest⟩ := h.apply hd hno
    exact ⟨rest, hrest, by simp, by simp⟩
  | promote newWriter => exact he.elim
  | noStateChange =>
    cases hs
    exact ⟨ds, h, le_refl _, fun ha => ha.elim⟩

end Step

/-- In a run without an end whose events are stable, a follower that is treated weakly fairly reaches the
end of every chain that is published for it. -/
theorem follower_catches_up {promotedBaseChecksum : C}
    {b : Behavior (step (W := W) (F := F) promotedBaseChecksum)}
    (hstable : ∀ n, (b.event n).Stable) (hfair : b.WeaklyFair Event.Applies) (final : Cursor C) :
    b.LeadsTo (fun s => ∃ ds, Published s ds final) fun s => s.cursor = final := by
  have hlen : ∀ {s : State W C F} {ds}, Published s ds final → final.seq - s.followerSeq = ds.length := by
    intro s ds h
    have hseq : final.seq = s.followerSeq + ds.length := h.chained.seq_eq
    omega
  refine Behavior.leadsTo_of_rank (fun s => final.seq - s.followerSeq) hfair ?_ ?_ ?_
  · intro s h hno
    obtain ⟨ds, hds⟩ := h
    exact hds.enabled promotedBaseChecksum hno
  · intro n h hno ha
    obtain ⟨ds, hds⟩ := h
    obtain ⟨rest, hrest, -, hlt⟩ := hds.step hno (hstable n) (b.next n)
    refine .inr ⟨⟨rest, hrest⟩, ?_⟩
    simpa only [hlen hrest, hlen hds] using hlt ha
  · intro n h hno
    obtain ⟨ds, hds⟩ := h
    obtain ⟨rest, hrest, hle, -⟩ := hds.step hno (hstable n) (b.next n)
    refine .inr ⟨⟨rest, hrest⟩, ?_⟩
    simpa only [hlen hrest, hlen hds] using hle

namespace Example

/-- The states of a follower that is polled twice before the first delta is there. -/
def polled : Nat → State String String String
  | 0 | 1 | 2 => init base
  | 3 => { init base with deltas := {delta₁} }
  | _ => State.apply { init base with deltas := {delta₁} } delta₁

/-- A follower that polls before and after the one delta. -/
def polls : Nat → Event String String String
  | 2 => .appendDelta delta₁
  | 3 => .applyNext delta₁
  | _ => .noStateChange

/-- The infinite run in which it does so. -/
def polling : Behavior (step (W := String) (F := String) "base1") where
  state := polled
  event := polls
  next n := by
    match n with
    | 0 | 1 => rfl
    | 2 => rfl
    | 3 => rfl
    | n + 4 => rfl

theorem polling_fair : polling.WeaklyFair Event.Applies := by
  intro n henabled
  by_cases hn : n ≤ 3
  · exact ⟨3, hn, trivial⟩
  · obtain ⟨e, s', he, hs⟩ := henabled n (le_refl n)
    obtain ⟨n, rfl⟩ : ∃ k, n = k + 4 := ⟨n - 4, by omega⟩
    cases e with
    | applyNext d =>
      simp only [CursorChain.step, Option.ite_none_right_eq_some] at hs
      obtain ⟨⟨-, hmem, hseq, -⟩, -⟩ := hs
      obtain rfl : d = delta₁ := Finset.mem_singleton.mp hmem
      exact absurd hseq (show ¬ (1 = 1 + 1) by decide)
    | _ => exact he.elim

end Example

open Example in
theorem polling_catches_up :
    polling.LeadsTo (fun s => ∃ ds, Published s ds delta₁.cursor) fun s => s.cursor = delta₁.cursor := by
  refine follower_catches_up ?_ polling_fair delta₁.cursor
  intro n
  match n with
  | 0 | 1 => trivial
  | 2 => trivial
  | 3 => trivial
  | n + 4 => trivial

end Turbolite.CursorChain
