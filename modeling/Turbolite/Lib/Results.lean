import Mathlib.Data.List.Basic

/-!
# Turbolite.Lib.Results

Fallible computations in `Except`: how a bind, a `mapM` and a `foldlM` that succeeded came about. `Agrees`
compares two computations of one value whose errors differ.
-/

namespace Results

variable {ε α β : Type}

@[simp] theorem ok_bind (a : α) (f : α → Except ε β) : (Except.ok a >>= f) = f a := rfl

@[simp] theorem error_bind (e : ε) (f : α → Except ε β) :
    ((Except.error e : Except ε α) >>= f) = .error e := rfl

theorem bind_eq_ok {x : Except ε α} {f : α → Except ε β} {r : β} :
    x >>= f = .ok r ↔ ∃ a, x = .ok a ∧ f a = .ok r := by
  cases x with
  | error e => simp
  | ok a => simp

theorem bind_eq_error {x : Except ε α} {f : α → Except ε β} {e : ε} :
    x >>= f = .error e ↔ x = .error e ∨ ∃ a, x = .ok a ∧ f a = .error e := by
  cases x with
  | error e' => simp
  | ok a => simp

theorem exists_ok {r : Except ε α} (h : r.toOption.isSome = true) : ∃ a, r = .ok a := by
  cases r with
  | error e => cases h
  | ok a => exact ⟨a, rfl⟩

/-- The error of a computation that failed. -/
def error? : Except ε α → Option ε
  | .error e => some e
  | .ok _ => none

theorem eq_error {r : Except ε α} {e : ε} (h : error? r = some e) : r = .error e := by
  cases r with
  | error e' => rw [Option.some.inj h]
  | ok a => cases h

theorem exists_ok_some {r : Except ε (Option α)} (h : r.toOption.join.isSome = true) :
    ∃ a, r = .ok (some a) := by
  cases r with
  | error e => cases h
  | ok o =>
    cases o with
    | none => cases h
    | some a => exact ⟨a, rfl⟩

/-- A `mapM` succeeds with the results of its elements. -/
theorem mapM_eq_ok {f : α → Except ε β} {xs : List α} {ys : List β} :
    xs.mapM f = .ok ys ↔ xs.map f = ys.map .ok := by
  induction xs generalizing ys with
  | nil => cases ys <;> simp [pure, Except.pure]
  | cons x xs ih =>
    rw [List.mapM_cons, bind_eq_ok]
    constructor
    · rintro ⟨y, hy, h⟩
      obtain ⟨zs, hzs, h⟩ := bind_eq_ok.mp h
      cases h
      simp [hy, ih.mp hzs]
    · intro h
      cases ys with
      | nil => simp at h
      | cons y ys =>
        simp only [List.map_cons, List.cons.injEq] at h
        exact ⟨y, h.1, bind_eq_ok.mpr ⟨ys, ih.mpr h.2, rfl⟩⟩

theorem map_eq_of_mapM {f : α → Except ε β} {xs : List α} {ys : List β} (h : xs.mapM f = .ok ys) :
    xs.map f = ys.map .ok := mapM_eq_ok.mp h

/-- A `mapM` only depends on the results, element by element. -/
theorem mapM_congr {γ : Type} {f : α → Except ε γ} {g : β → Except ε γ} {xs : List α} {ys : List β}
    (h : xs.map f = ys.map g) : xs.mapM f = ys.mapM g := by
  have hf : (xs.map f).mapM id = xs.mapM f := List.mapM_map
  have hg : (ys.map g).mapM id = ys.mapM g := List.mapM_map
  rw [← hf, h, hg]

theorem mapM_ok {f : α → Except ε β} {xs : List α} (h : ∀ x ∈ xs, ∃ y, f x = .ok y) :
    ∃ ys, xs.mapM f = .ok ys := by
  induction xs with
  | nil => exact ⟨[], rfl⟩
  | cons x xs ih =>
    obtain ⟨y, hy⟩ := h x List.mem_cons_self
    obtain ⟨ys, hys⟩ := ih fun z hz => h z (List.mem_cons_of_mem x hz)
    exact ⟨y :: ys, by rw [List.mapM_cons, hy, ok_bind, hys]; rfl⟩

theorem mapM_inv {f : α → Except ε β} {xs : List α} {ys : List β} (h : xs.mapM f = .ok ys) :
    ∀ y ∈ ys, ∃ x ∈ xs, f x = .ok y := by
  intro y hy
  have hmem : (Except.ok y : Except ε β) ∈ ys.map .ok := List.mem_map_of_mem hy
  rw [← map_eq_of_mapM h] at hmem
  exact List.mem_map.mp hmem

theorem mapM_getElem? {f : α → Except ε β} {xs : List α} {ys : List β} (h : xs.mapM f = .ok ys)
    {k : Nat} {x : α} (hx : xs[k]? = some x) : ∃ y, ys[k]? = some y ∧ f x = .ok y := by
  have hk := congrArg (·[k]?) (map_eq_of_mapM h)
  simp only [List.getElem?_map, hx, Option.map_some] at hk
  obtain ⟨y, hy, he⟩ := Option.map_eq_some_iff.mp hk.symm
  exact ⟨y, hy, he.symm⟩

theorem ok_of_mapM {f : α → Except ε β} {xs : List α} {ys : List β} (h : xs.mapM f = .ok ys) {x : α}
    (hx : x ∈ xs) : ∃ y ∈ ys, f x = .ok y := by
  have hmem : f x ∈ xs.map f := List.mem_map_of_mem hx
  rw [map_eq_of_mapM h] at hmem
  obtain ⟨y, hy, he⟩ := List.mem_map.mp hmem
  exact ⟨y, hy, he.symm⟩

theorem mapM_mono {f g : α → Except ε β} (hfg : ∀ x y, f x = .ok y → g x = .ok y) {xs : List α}
    {ys : List β} (h : xs.mapM f = .ok ys) : xs.mapM g = .ok ys := by
  rw [mapM_eq_ok, ← map_eq_of_mapM h]
  refine List.map_congr_left fun x hx => ?_
  obtain ⟨y, -, hy⟩ := ok_of_mapM h hx
  rw [hy, hfg x y hy]

/-- The results of a `mapM`, element by element. -/
theorem eq_map_of_mapM (d : β) {f : α → Except ε β} {xs : List α} {ys : List β}
    (h : xs.mapM f = .ok ys) : ys = xs.map fun x => (f x).toOption.getD d := by
  have hmap := congrArg (List.map fun r => r.toOption.getD d) (map_eq_of_mapM h)
  rw [List.map_map, List.map_map] at hmap
  have hid : ((fun r : Except ε β => r.toOption.getD d) ∘ Except.ok) = id := rfl
  rw [hid, List.map_id] at hmap
  exact hmap.symm

theorem length_of_mapM {f : α → Except ε β} {xs : List α} {ys : List β} (h : xs.mapM f = .ok ys) :
    ys.length = xs.length := by
  have hlen := congrArg List.length (map_eq_of_mapM h)
  rw [List.length_map, List.length_map] at hlen
  exact hlen.symm

/-- Results that carry the element they come from. -/
theorem mapM_map_key {f : α → Except ε β} {key : β → α} (hkey : ∀ x y, f x = .ok y → key y = x)
    {xs : List α} {ys : List β} (h : xs.mapM f = .ok ys) : ys.map key = xs := by
  have heq := map_eq_of_mapM h
  clear h
  induction xs generalizing ys with
  | nil =>
    cases ys with
    | nil => rfl
    | cons y ys => cases heq
  | cons x xs ih =>
    cases ys with
    | nil => cases heq
    | cons y ys =>
      simp only [List.map_cons, List.cons.injEq] at heq
      rw [List.map_cons, hkey x y heq.1, ih heq.2]

/-- One element that fails in every state makes the whole fold fail. -/
theorem foldlM_error_of_mem {f : β → α → Except ε β} {xs : List α} {x : α} (hx : x ∈ xs)
    (hf : ∀ s, ∃ e, f s x = .error e) (s : β) : ∃ e, xs.foldlM f s = .error e := by
  induction xs generalizing s with
  | nil => cases hx
  | cons y ys ih =>
    rw [List.foldlM_cons]
    rcases List.mem_cons.mp hx with rfl | hx
    · obtain ⟨e, he⟩ := hf s
      exact ⟨e, by rw [he, error_bind]⟩
    · cases hy : f s y with
      | error e => exact ⟨e, error_bind e _⟩
      | ok t => exact ih hx t

/-- A fold whose elements all succeed, with what each of them does to the state. -/
theorem foldlM_ok {f : β → α → Except ε β} {xs : List α} {P : List α → β → Prop} {s : β}
    (h0 : P [] s)
    (hstep : ∀ ys y s, y ∈ xs → P ys s → ∃ t, f s y = .ok t ∧ P (ys ++ [y]) t) :
    ∃ t, xs.foldlM f s = .ok t ∧ P xs t := by
  suffices h : ∀ zs ys s, ys ++ zs = xs → P ys s → ∃ t, zs.foldlM f s = .ok t ∧ P xs t from
    h xs [] s rfl h0
  intro zs
  induction zs with
  | nil =>
    intro ys s hys hP
    rw [List.append_nil] at hys
    exact ⟨s, rfl, hys ▸ hP⟩
  | cons z zs ih =>
    intro ys s hys hP
    obtain ⟨t, ht, hPt⟩ := hstep ys z s (hys ▸ by simp) hP
    rw [List.foldlM_cons, ht, ok_bind]
    exact ih (ys ++ [z]) t (by simpa using hys) hPt

/-- An element that every state of the loop passes over can be left out. -/
theorem foldlM_skip {f : β → α → Except ε β} {I : β → Prop} {a : α} {pre post : List α} {s : β}
    (hI : I s) (hkeep : ∀ s x t, I s → f s x = .ok t → I t) (hskip : ∀ s, I s → f s a = .ok s) :
    (pre ++ a :: post).foldlM f s = (pre ++ post).foldlM f s := by
  induction pre generalizing s with
  | nil => rw [List.nil_append, List.foldlM_cons, hskip s hI, ok_bind, List.nil_append]
  | cons x pre ih =>
    rw [List.cons_append, List.foldlM_cons, List.cons_append, List.foldlM_cons]
    cases hx : f s x with
    | error e => rfl
    | ok t => exact ih (hkeep s x t hI hx)

/-- An element with no results can be left out. -/
theorem mapM_skip {f : α → Except ε (List β)} {a : α} (ha : f a = .ok []) (pre post : List α) :
    ((pre ++ a :: post).mapM f).map List.flatten = ((pre ++ post).mapM f).map List.flatten := by
  have hcons : ∀ x xs, ((x :: xs).mapM f).map List.flatten =
      f x >>= fun ys => ((xs.mapM f).map List.flatten).map (ys ++ ·) := by
    intro x xs
    rw [List.mapM_cons]
    cases f x with
    | error e => rfl
    | ok ys => cases xs.mapM f <;> rfl
  induction pre with
  | nil =>
    rw [List.nil_append, hcons, ha, ok_bind, List.nil_append]
    cases post.mapM f <;> rfl
  | cons x pre ih => rw [List.cons_append, hcons, ih, List.cons_append, hcons]

/-- A fold that succeeded, step by step. -/
theorem foldlM_inv {f : β → α → Except ε β} {xs : List α} {P : List α → β → Prop} {s t : β}
    (h0 : P [] s) (hstep : ∀ ys y s t, y ∈ xs → P ys s → f s y = .ok t → P (ys ++ [y]) t)
    (h : xs.foldlM f s = .ok t) : P xs t := by
  suffices hgen : ∀ zs ys s, ys ++ zs = xs → P ys s → zs.foldlM f s = .ok t → P xs t from
    hgen xs [] s rfl h0 h
  intro zs
  induction zs with
  | nil =>
    intro ys s hys hP hs
    rw [List.append_nil] at hys
    cases hs
    exact hys ▸ hP
  | cons z zs ih =>
    intro ys s hys hP hs
    rw [List.foldlM_cons] at hs
    obtain ⟨a, ha, hrest⟩ := bind_eq_ok.mp hs
    exact ih (ys ++ [z]) a (by simpa using hys) (hstep ys z s a (hys ▸ by simp) hP ha) hrest

/-- A fold that succeeded went through each of its elements, in a state of the invariant. -/
theorem foldlM_visits {f : β → α → Except ε β} {I : β → Prop} {xs : List α} {s t : β} (hI : I s)
    (hkeep : ∀ s x t, x ∈ xs → I s → f s x = .ok t → I t) (h : xs.foldlM f s = .ok t) :
    ∀ x ∈ xs, ∃ s t, I s ∧ f s x = .ok t := by
  induction xs generalizing s with
  | nil => nofun
  | cons y ys ih =>
    rw [List.foldlM_cons] at h
    obtain ⟨u, hu, hrest⟩ := bind_eq_ok.mp h
    intro x hx
    rcases List.mem_cons.mp hx with rfl | hx
    · exact ⟨s, u, hI, hu⟩
    · exact ih (hkeep s y u List.mem_cons_self hI hu)
        (fun s z t hz => hkeep s z t (List.mem_cons_of_mem _ hz)) hrest x hx

/-- An error neither computation has is not one of both. -/
theorem bind_ne_error {x : Except ε α} {f : α → Except ε β} {e : ε} (hx : x ≠ .error e)
    (hf : ∀ a, x = .ok a → f a ≠ .error e) : (x >>= f) ≠ .error e := by
  cases x with
  | error e' => exact fun h => hx (congrArg Except.error (Except.error.inj h))
  | ok a => exact hf a rfl

/-- A `mapM` has the errors of its elements only. -/
theorem mapM_ne_error {f : α → Except ε β} {e : ε} {xs : List α} (h : ∀ x ∈ xs, f x ≠ .error e) :
    xs.mapM f ≠ .error e := by
  induction xs with
  | nil => nofun
  | cons x xs ih =>
    rw [List.mapM_cons]
    refine bind_ne_error (h x List.mem_cons_self) fun y _ => ?_
    exact bind_ne_error (ih fun z hz => h z (List.mem_cons_of_mem x hz)) fun _ _ => nofun

/-- Nor does a `forM`. -/
theorem forM_ne_error {f : α → Except ε Unit} {e : ε} {xs : List α} (h : ∀ x ∈ xs, f x ≠ .error e) :
    xs.forM f ≠ .error e := by
  induction xs with
  | nil => nofun
  | cons x xs ih =>
    show (f x >>= fun _ => xs.forM f) ≠ .error e
    exact bind_ne_error (h x List.mem_cons_self) fun _ _ =>
      ih fun z hz => h z (List.mem_cons_of_mem x hz)

/-! ### Computations with one way to fail -/

/-- The computation succeeds under `p`, and fails with `e` without it. -/
def OkIff (e : ε) (x : Except ε α) (p : Prop) : Prop := (p → ∃ a, x = .ok a) ∧ (¬ p → x = .error e)

namespace OkIff

variable {e : ε} {x : Except ε α} {p q : Prop}

theorem of_ok (a : α) (hp : p) : OkIff e (.ok a) p := ⟨fun _ => ⟨a, rfl⟩, fun h => absurd hp h⟩

theorem of_error (hp : ¬ p) : OkIff e (.error e : Except ε α) p := ⟨fun h => absurd h hp, fun _ => rfl⟩

theorem ok_iff (h : OkIff e x p) : (∃ a, x = .ok a) ↔ p := by
  refine ⟨fun hok => ?_, h.1⟩
  by_contra hp
  obtain ⟨a, hok⟩ := hok
  rw [h.2 hp] at hok
  cases hok

/-- It succeeds, or it fails in the one way. -/
theorem cases (h : OkIff e x p) : (∃ a, x = .ok a) ∨ x = .error e :=
  (Classical.em p).imp h.1 h.2

theorem congr (h : OkIff e x p) (hpq : p ↔ q) : OkIff e x q :=
  ⟨fun hq => h.1 (hpq.mpr hq), fun hq => h.2 fun hp => hq (hpq.mp hp)⟩

/-- A computation of a value from the result. -/
theorem bind {f : α → Except ε β} (h : OkIff e x p) (hf : ∀ a, ∃ b, f a = .ok b) :
    OkIff e (x >>= f) p := by
  constructor
  · intro hp
    obtain ⟨a, ha⟩ := h.1 hp
    obtain ⟨b, hb⟩ := hf a
    exact ⟨b, bind_eq_ok.mpr ⟨a, ha, hb⟩⟩
  · intro hp
    rw [h.2 hp, error_bind]

theorem mapM {f : β → Except ε α} {r : β → Prop} {xs : List β} (h : ∀ x ∈ xs, OkIff e (f x) (r x)) :
    OkIff e (xs.mapM f) (∀ x ∈ xs, r x) := by
  induction xs with
  | nil => exact of_ok [] fun x hx => absurd hx List.not_mem_nil
  | cons x xs ih =>
    have hx := h x (List.mem_cons_self ..)
    have hxs := ih fun y hy => h y (List.mem_cons_of_mem x hy)
    rw [List.mapM_cons]
    by_cases hr : r x
    · obtain ⟨a, ha⟩ := hx.1 hr
      rw [ha, ok_bind]
      refine (hxs.bind fun as => ⟨a :: as, rfl⟩).congr ?_
      rw [List.forall_mem_cons]
      exact ⟨fun hall => ⟨hr, hall⟩, fun hall => hall.2⟩
    · rw [hx.2 hr, error_bind]
      exact of_error fun hall => hr (hall x (List.mem_cons_self ..))

end OkIff

/-! ### Two computations of one value -/

/-- What the first computation returns, the second returns too; their errors may differ. -/
def Agrees {δ : Type} (x : Except ε α) (y : Except δ α) : Prop := ∀ a, x = .ok a → y = .ok a

section

variable {δ : Type} {x : Except ε α} {y : Except δ α}

theorem Agrees.ok (a : α) : Agrees (.ok a : Except ε α) (.ok a : Except δ α) := by
  intro b hb
  rw [Except.ok.inj hb]

theorem Agrees.bind {f : α → Except ε β} {g : α → Except δ β} (hxy : Agrees x y)
    (hfg : ∀ a, x = .ok a → Agrees (f a) (g a)) : Agrees (x >>= f) (y >>= g) := by
  intro b hb
  obtain ⟨a, ha, hb⟩ := bind_eq_ok.mp hb
  rw [hxy a ha, ok_bind]
  exact hfg a ha b hb

/-- A step that the second computation does without. -/
theorem Agrees.check {f : α → Except ε β} {z : Except δ β} (h : ∀ a, x = .ok a → Agrees (f a) z) :
    Agrees (x >>= f) z := by
  intro b hb
  obtain ⟨a, ha, hb⟩ := bind_eq_ok.mp hb
  exact h a ha b hb

theorem Agrees.mapM {f : α → Except ε β} {g : α → Except δ β} {xs : List α}
    (h : ∀ a ∈ xs, Agrees (f a) (g a)) : Agrees (xs.mapM f) (xs.mapM g) := by
  induction xs with
  | nil => exact .ok []
  | cons a xs ih =>
    rw [List.mapM_cons, List.mapM_cons]
    refine .bind (h a List.mem_cons_self) fun b _ => ?_
    exact .bind (ih fun c hc => h c (List.mem_cons_of_mem a hc)) fun bs _ => .ok _

theorem Agrees.foldlM {f : β → α → Except ε β} {g : β → α → Except δ β} {xs : List α}
    (h : ∀ b, ∀ a ∈ xs, Agrees (f b a) (g b a)) {b : β} : Agrees (xs.foldlM f b) (xs.foldlM g b) := by
  induction xs generalizing b with
  | nil => exact .ok b
  | cons a xs ih =>
    rw [List.foldlM_cons, List.foldlM_cons]
    exact .bind (h b a List.mem_cons_self) fun c _ => ih fun b a ha => h b a (List.mem_cons_of_mem _ ha)

end

end Results
