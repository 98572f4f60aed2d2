import Mathlib.Data.List.Induction
import Mathlib.Order.Basic

/-!
# Turbolite.Lib.Runs

Runs of a partial step function. An event that is not enabled in a state makes the run undefined
(`none`), so a theorem about every run is a theorem about every interleaving of the enabled events.
A run may also be asked to *meet* a condition: every event satisfies it in the state in which the
event happens. `run_invariant` is the induction every safety argument of the project goes through.
-/

namespace Runs

variable {σ ε : Type*} {step : σ → ε → Option σ}

/-- The state after the events, when every one of them was enabled. -/
def run (step : σ → ε → Option σ) : σ → List ε → Option σ
  | s, [] => some s
  | s, e :: es => (step s e).bind (fun s' => run step s' es)

/-- Every event of the run meets `cond` in the state it happens in. -/
def Meets (step : σ → ε → Option σ) (cond : σ → ε → Prop) : σ → List ε → Prop
  | _, [] => True
  | s, e :: es => cond s e ∧ ∀ s', step s e = some s' → Meets step cond s' es

theorem Meets.cons {cond : σ → ε → Prop} {s m : σ} {e : ε} {es : List ε} (hc : cond s e)
    (hs : step s e = some m) (h : Meets step cond m es) : Meets step cond s (e :: es) := by
  refine ⟨hc, fun s' hs' => ?_⟩
  obtain rfl : m = s' := Option.some.inj (hs.symm.trans hs')
  exact h

theorem Meets.of_forall {cond : σ → ε → Prop} {es : List ε} (h : ∀ e ∈ es, ∀ s, cond s e) (s : σ) :
    Meets step cond s es := by
  induction es generalizing s with
  | nil => trivial
  | cons e es ih =>
    exact ⟨h e List.mem_cons_self s, fun m _ => ih (fun x hx => h x (List.mem_cons_of_mem e hx)) m⟩

/-- A condition that can be checked can be checked along a run. -/
def decidableMeets (step : σ → ε → Option σ) (cond : σ → ε → Prop)
    [inst : ∀ s e, Decidable (cond s e)] : (s : σ) → (es : List ε) → Decidable (Meets step cond s es)
  | _, [] => .isTrue trivial
  | s, e :: es =>
    match inst s e with
    | .isFalse h => .isFalse fun hm => h hm.1
    | .isTrue h =>
      match hs : step s e with
      | none => .isTrue ⟨h, fun s' hs' => by rw [hs] at hs'; cases hs'⟩
      | some m =>
        match decidableMeets step cond m es with
        | .isTrue hm => .isTrue (Meets.cons h hs hm)
        | .isFalse hm => .isFalse fun hm' => hm (hm'.2 m hs)

instance (cond : σ → ε → Prop) [∀ s e, Decidable (cond s e)] (s : σ) (es : List ε) :
    Decidable (Meets step cond s es) := decidableMeets step cond s es

theorem Meets.imp {cond cond' : σ → ε → Prop} (himp : ∀ s e, cond s e → cond' s e) {s : σ}
    {es : List ε} (h : Meets step cond s es) : Meets step cond' s es := by
  induction es generalizing s with
  | nil => trivial
  | cons e es ih => exact ⟨himp s e h.1, fun s' hs => ih (h.2 s' hs)⟩

@[simp] theorem run_nil (s : σ) : run step s [] = some s := rfl

theorem run_cons {s s' : σ} {e : ε} {es : List ε} :
    run step s (e :: es) = some s' ↔ ∃ m, step s e = some m ∧ run step m es = some s' :=
  Option.bind_eq_some_iff

/-- A condition is met that every prefix of the run leaves to the next event. -/
theorem Meets.of_prefixes {cond : σ → ε → Prop} {s : σ} {es : List ε}
    (h : ∀ es₁ e es₂ m, es = es₁ ++ e :: es₂ → run step s es₁ = some m → cond m e) :
    Meets step cond s es := by
  induction es generalizing s with
  | nil => trivial
  | cons e es ih =>
    refine ⟨h [] e es s rfl rfl, fun m hm => ih fun es₁ e' es₂ m' heq hr => ?_⟩
    exact h (e :: es₁) e' es₂ m' (by rw [heq, List.cons_append]) (run_cons.mpr ⟨m, hm, hr⟩)

/-- Whatever the enabled events that meet the condition keep holds after every such run. -/
theorem run_invariant {cond : σ → ε → Prop} {I : σ → Prop}
    (hstep : ∀ s e s', I s → cond s e → step s e = some s' → I s')
    {s s' : σ} {es : List ε} (hs : I s) (hm : Meets step cond s es)
    (hr : run step s es = some s') : I s' := by
  induction es generalizing s with
  | nil =>
    simp only [run_nil, Option.some.injEq] at hr
    exact hr ▸ hs
  | cons e es ih =>
    obtain ⟨m, hm1, hr'⟩ := run_cons.mp hr
    exact ih (hstep s e m hs hm.1 hm1) (hm.2 m hm1) hr'

/-- Whatever every enabled event keeps holds after every run. -/
theorem run_preserves {I : σ → Prop} (hstep : ∀ s e s', I s → step s e = some s' → I s')
    {s s' : σ} {es : List ε} (hs : I s) (hr : run step s es = some s') : I s' := by
  induction es generalizing s with
  | nil =>
    cases hr
    exact hs
  | cons e es ih =>
    obtain ⟨m, hm, hr'⟩ := run_cons.mp hr
    exact ih (hstep s e m hs hm) hr'

/-- A run is cut anywhere; both parts meet the condition the whole meets. -/
theorem run_append {s s' : σ} {es fs : List ε} :
    run step s (es ++ fs) = some s' ↔ ∃ m, run step s es = some m ∧ run step m fs = some s' := by
  induction es generalizing s with
  | nil => simp
  | cons e es ih =>
    rw [List.cons_append, run_cons]
    constructor
    · rintro ⟨m, hm, hr⟩
      obtain ⟨m', h1, h2⟩ := ih.mp hr
      exact ⟨m', run_cons.mpr ⟨m, hm, h1⟩, h2⟩
    · rintro ⟨m', h1, h2⟩
      obtain ⟨m, hm, hr⟩ := run_cons.mp h1
      exact ⟨m, hm, ih.mpr ⟨m', hr, h2⟩⟩

theorem Meets.of_append {cond : σ → ε → Prop} {s : σ} {es fs : List ε}
    (h : Meets step cond s (es ++ fs)) : Meets step cond s es := by
  induction es generalizing s with
  | nil => trivial
  | cons e es ih => exact ⟨h.1, fun s' hs => ih (h.2 s' hs)⟩

theorem Meets.after_append {cond : σ → ε → Prop} {s m : σ} {es fs : List ε}
    (h : Meets step cond s (es ++ fs)) (hr : run step s es = some m) : Meets step cond m fs := by
  induction es generalizing s with
  | nil =>
    cases hr
    exact h
  | cons e es ih =>
    obtain ⟨s', hs, hr'⟩ := run_cons.mp hr
    exact ih (h.2 s' hs) hr'

/-- A measure that no event lowers while the invariant holds is not lower after any later part of a
run. -/
theorem run_invariant_monotone {α : Type*} [Preorder α] {cond : σ → ε → Prop} {I : σ → Prop}
    {f : σ → α} (hstep : ∀ s e s', I s → cond s e → step s e = some s' → I s' ∧ f s ≤ f s')
    {s s₁ s₂ : σ} {es fs : List ε} (hs : I s) (hm : Meets step cond s (es ++ fs))
    (h₁ : run step s es = some s₁) (h₂ : run step s₁ fs = some s₂) : I s₂ ∧ f s₁ ≤ f s₂ := by
  have hmid : I s₁ :=
    run_invariant (fun s e s' hi hc hs => (hstep s e s' hi hc hs).1) hs hm.of_append h₁
  refine run_invariant (I := fun s => I s ∧ f s₁ ≤ f s) (fun s e s' hi hc hs => ?_) ⟨hmid, le_rfl⟩
    (hm.after_append h₁) h₂
  obtain ⟨hi', hle⟩ := hstep s e s' hi.1 hc hs
  exact ⟨hi', hi.2.trans hle⟩

/-- Whatever holds at the start and is kept by each event, given the events before it, holds of every
run together with its events. -/
theorem run_trace_invariant {cond : σ → ε → Prop} {I : List ε → σ → Prop} {s₀ : σ} (h₀ : I [] s₀)
    (hstep : ∀ es s e s', run step s₀ es = some s → I es s → cond s e → step s e = some s' →
      I (es ++ [e]) s')
    {es : List ε} {s : σ} (hm : Meets step cond s₀ es) (hr : run step s₀ es = some s) : I es s := by
  induction es using List.reverseRecOn generalizing s with
  | nil =>
    cases hr
    exact h₀
  | append_singleton es e ih =>
    obtain ⟨m, hr', he⟩ := run_append.mp hr
    obtain ⟨s', hs', hnil⟩ := run_cons.mp he
    cases hnil
    exact hstep es m e s hr' (ih hm.of_append hr') (hm.after_append hr').1 hs'

end Runs
