import Mathlib.Data.Finset.Card
import Turbolite.Lib.Results

/-!
# Turbolite.Lib.Search

Search of a graph from a root. A node that is reached over a branch waits in a queue. A node that is
reached over a chain is found at once, and so are the nodes behind it, up to the first that was reached
before, is missing, or that no chain may enter.

A node in the queue ends a chain, and one on a chain is never expanded: what is found depends on the order
in which the links are come to.
-/

namespace Search

open Results

/-- A graph of branches, which are queued, and chains, which are followed at once. -/
structure Graph (ε α : Type) where
  present : α → Bool
  /-- The branches of a node and the first nodes of its chains. -/
  links : α → Except ε (List α × List α)
  /-- A chain may enter the node. -/
  admits : α → Bool
  next : α → Option α

/-- The nodes to visit, those reached and those found. -/
structure State (α : Type) where
  queue : List α
  visited : List α
  found : List α := []

variable {ε α : Type}

namespace Graph

variable (g : Graph ε α)

/-- All links are in `U`. -/
structure Within (U : Finset α) : Prop where
  links : ∀ a bs cs, g.links a = .ok (bs, cs) → (∀ b ∈ bs, b ∈ U) ∧ ∀ c ∈ cs, c ∈ U
  next : ∀ a b, g.next a = some b → b ∈ U

end Graph

/-! ### The search -/

section

variable [DecidableEq α]

/-- A node reached over a branch. -/
def State.enqueue (st : State α) (a : α) : State α :=
  if a ∈ st.visited then st
  else { st with queue := st.queue ++ [a], visited := a :: st.visited }

/-- A node reached over a chain. -/
def State.record (st : State α) (a : α) : State α :=
  { st with visited := a :: st.visited, found := st.found ++ [a] }

variable (g : Graph ε α) (stuck : ε)

/-- The chain from `a` on. -/
def follow : Nat → α → State α → Except ε (State α)
  | 0, _, _ => .error stuck
  | fuel + 1, a, st =>
    if a ∈ st.visited ∨ g.admits a = false ∨ g.present a = false then .ok st
    else
      match g.next a with
      | none => .ok (st.record a)
      | some b => follow fuel b (st.record a)

/-- The chains of a node. -/
def followAll (fuel : Nat) (cs : List α) (st : State α) : Except ε (State α) :=
  cs.foldlM (fun st c => follow g stuck fuel c st) st

/-- A node out of the queue. -/
def visit (fuel : Nat) (a : α) (st : State α) : Except ε (State α) :=
  if g.present a = false then .ok st
  else do
    let (bs, cs) ← g.links a
    followAll g stuck fuel cs (bs.foldl State.enqueue { st with found := st.found ++ [a] })

/-- The loop over the queue. -/
def loop (chainFuel : Nat) : Nat → State α → Except ε (State α)
  | 0, _ => .error stuck
  | fuel + 1, st =>
    match st.queue with
    | [] => .ok st
    | a :: rest => do
      let st ← visit g stuck chainFuel a { st with queue := rest }
      loop chainFuel fuel st

/-- The nodes found from `root`. -/
def search (fuel : Nat) (root : α) : Except ε (List α) := do
  let st ← loop g stuck fuel fuel { queue := [root], visited := [root] }
  .ok st.found

end

/-! ### What a run keeps -/

/-- Every present node that was reached was found or waits, once. -/
structure Inv (g : Graph ε α) (st : State α) : Prop where
  nodup : (st.found ++ st.queue).Nodup
  visited : ∀ a ∈ st.found ++ st.queue, a ∈ st.visited
  settled : ∀ a ∈ st.visited, g.present a = true → a ∈ st.found ++ st.queue
  present : ∀ a ∈ st.found, g.present a = true

section

variable {g : Graph ε α} {st : State α} {a : α} {rest : List α}

theorem Inv.init (g : Graph ε α) (root : α) : Inv g { queue := [root], visited := [root] } where
  nodup := List.nodup_singleton root
  visited _ ha := ha
  settled _ ha _ := ha
  present _ ha := absurd ha List.not_mem_nil

/-- A new node on a chain. -/
theorem Inv.record (h : Inv g st) (hnew : a ∉ st.visited) (hpres : g.present a = true) :
    Inv g (st.record a) where
  nodup := by
    have hperm : (st.found ++ [a] ++ st.queue).Perm (a :: (st.found ++ st.queue)) := by
      rw [List.append_assoc]
      exact List.perm_middle
    refine hperm.nodup_iff.mpr (List.nodup_cons.mpr ⟨?_, h.nodup⟩)
    exact fun hmem => hnew (h.visited a hmem)
  visited b hb := by
    rw [State.record, List.append_assoc] at hb
    cases List.mem_cons.mp (List.perm_middle.mem_iff.mp hb) with
    | inl heq => exact List.mem_cons.mpr (.inl heq)
    | inr hb => exact List.mem_cons_of_mem a (h.visited b hb)
  settled b hb hpres := by
    rw [State.record, List.append_assoc]
    refine List.perm_middle.mem_iff.mpr (List.mem_cons.mpr ?_)
    exact (List.mem_cons.mp hb).imp_right fun hb => h.settled b hb hpres
  present b hb := by
    cases List.mem_append.mp hb with
    | inl hb => exact h.present b hb
    | inr hb => exact List.mem_singleton.mp hb ▸ hpres

/-- A new node in the queue. -/
theorem Inv.push (h : Inv g st) (hnew : a ∉ st.visited) :
    Inv g { st with queue := st.queue ++ [a], visited := a :: st.visited } := by
  have hassoc : st.found ++ (st.queue ++ [a]) = st.found ++ st.queue ++ [a] :=
    (List.append_assoc ..).symm
  constructor
  · show (st.found ++ (st.queue ++ [a])).Nodup
    rw [hassoc]
    refine h.nodup.append (List.nodup_singleton a) ?_
    intro b hb hb'
    rw [List.mem_singleton.mp hb'] at hb
    exact hnew (h.visited a hb)
  · intro b hb
    rw [hassoc] at hb
    cases List.mem_append.mp hb with
    | inl hb => exact List.mem_cons_of_mem a (h.visited b hb)
    | inr hb => exact List.mem_cons.mpr (.inl (List.mem_singleton.mp hb))
  · intro b hb hpres
    rw [hassoc]
    cases List.mem_cons.mp hb with
    | inl heq => exact List.mem_append_right _ (List.mem_singleton.mpr heq)
    | inr hb => exact List.mem_append_left _ (h.settled b hb hpres)
  · exact h.present

/-- The head of the queue is missing. -/
theorem Inv.drop (h : Inv g st) (hq : st.queue = a :: rest) (habs : g.present a = false) :
    Inv g { st with queue := rest } := by
  have hperm : (st.found ++ st.queue).Perm (a :: (st.found ++ rest)) := by
    rw [hq]
    exact List.perm_middle
  refine ⟨(List.nodup_cons.mp (hperm.nodup_iff.mp h.nodup)).2, ?_, ?_, h.present⟩
  · exact fun b hb => h.visited b (hperm.mem_iff.mpr (List.mem_cons_of_mem a hb))
  · intro b hb hpres
    cases List.mem_cons.mp (hperm.mem_iff.mp (h.settled b hb hpres)) with
    | inl heq =>
      rw [heq, habs] at hpres
      cases hpres
    | inr hb => exact hb

/-- The head of the queue is found. -/
theorem Inv.take (h : Inv g st) (hq : st.queue = a :: rest) (hpres : g.present a = true) :
    Inv g { st with queue := rest, found := st.found ++ [a] } := by
  have hperm : (st.found ++ [a] ++ rest).Perm (st.found ++ st.queue) := by
    rw [hq, List.append_assoc]
    rfl
  constructor
  · exact hperm.nodup_iff.mpr h.nodup
  · exact fun b hb => h.visited b (hperm.mem_iff.mp hb)
  · exact fun b hb hp => hperm.mem_iff.mpr (h.settled b hb hp)
  · intro b hb
    cases List.mem_append.mp hb with
    | inl hb => exact h.present b hb
    | inr hb => exact List.mem_singleton.mp hb ▸ hpres

/-- With the queue empty, what was reached and is present was found. -/
theorem Inv.mem_found_iff (h : Inv g st) (hq : st.queue = []) :
    a ∈ st.found ↔ g.present a = true ∧ a ∈ st.visited := by
  have hsettled := h.settled a
  rw [hq, List.append_nil] at hsettled
  constructor
  · intro ha
    exact ⟨h.present a ha, h.visited a (List.mem_append_left _ ha)⟩
  · exact fun ha => hsettled ha.2 ha.1

end

/-! ### Every search ends -/

section

variable [DecidableEq α] {g : Graph ε α} {st : State α}

/-- How many nodes of `U` were not reached. -/
def fresh (U : Finset α) (visited : List α) : Nat := (U \ visited.toFinset).card

variable {U : Finset α}

theorem fresh_anti {visited visited' : List α} (h : visited ⊆ visited') :
    fresh U visited' ≤ fresh U visited := by
  apply Finset.card_le_card
  apply Finset.sdiff_subset_sdiff (Finset.Subset.refl U)
  intro a ha
  exact List.mem_toFinset.mpr (h (List.mem_toFinset.mp ha))

theorem fresh_cons {visited : List α} {a : α} (ha : a ∈ U) (hnew : a ∉ visited) :
    fresh U (a :: visited) + 1 = fresh U visited := by
  have hmem : a ∈ U \ visited.toFinset :=
    Finset.mem_sdiff.mpr ⟨ha, fun h => hnew (List.mem_toFinset.mp h)⟩
  have hpos := Finset.card_pos.mpr ⟨a, hmem⟩
  unfold fresh
  rw [List.toFinset_cons, Finset.sdiff_insert, Finset.card_erase_of_mem hmem]
  omega

/-- How many nodes can still come out of the queue. -/
def budget (U : Finset α) (st : State α) : Nat := st.queue.length + fresh U st.visited

theorem budget_enqueue {a : α} (ha : a ∈ U) (st : State α) :
    budget U (st.enqueue a) ≤ budget U st := by
  unfold State.enqueue
  split
  · exact Nat.le_refl _
  · rename_i hnew
    have hcons := fresh_cons ha hnew
    simp only [budget, List.length_append, List.length_singleton]
    omega

theorem budget_enqueueAll {bs : List α} (hbs : ∀ b ∈ bs, b ∈ U) (st : State α) :
    budget U (bs.foldl State.enqueue st) ≤ budget U st := by
  induction bs generalizing st with
  | nil => exact Nat.le_refl _
  | cons b bs ih =>
    calc budget U (bs.foldl State.enqueue (st.enqueue b)) ≤ budget U (st.enqueue b) :=
          ih (fun c hc => hbs c (List.mem_cons_of_mem b hc)) _
      _ ≤ budget U st := budget_enqueue (hbs b (List.mem_cons_self ..)) st

/-- A chain ends: each of its nodes is reached for the first time. -/
theorem follow_ends (stuck : ε) (hU : g.Within U) {fuel : Nat} {a : α} (ha : a ∈ U)
    (hfuel : fresh U st.visited < fuel) :
    ∃ st', follow g stuck fuel a st = .ok st' ∧ st'.queue = st.queue ∧
      fresh U st'.visited ≤ fresh U st.visited := by
  induction fuel generalizing a st with
  | zero => exact absurd hfuel (Nat.not_lt_zero _)
  | succ fuel ih =>
    unfold follow
    split
    · exact ⟨st, rfl, rfl, Nat.le_refl _⟩
    · rename_i hopen
      have hcons : fresh U (st.record a).visited + 1 = fresh U st.visited :=
        fresh_cons ha (not_or.mp hopen).1
      cases hnext : g.next a with
      | none => exact ⟨st.record a, rfl, rfl, by omega⟩
      | some b =>
        have hfuel' : fresh U (st.record a).visited < fuel := by omega
        obtain ⟨st', hst', hq, hle⟩ := ih (hU.next a b hnext) hfuel'
        exact ⟨st', hst', hq, by omega⟩

theorem followAll_ends (stuck : ε) (hU : g.Within U) {fuel : Nat} {cs : List α} (hcs : ∀ c ∈ cs, c ∈ U)
    (hfuel : fresh U st.visited < fuel) :
    ∃ st', followAll g stuck fuel cs st = .ok st' ∧ budget U st' ≤ budget U st := by
  induction cs generalizing st with
  | nil => exact ⟨st, rfl, Nat.le_refl _⟩
  | cons c cs ih =>
    obtain ⟨st₁, hst₁, hq, hle⟩ := follow_ends stuck hU (hcs c (List.mem_cons_self ..)) hfuel
    have hfuel₁ : fresh U st₁.visited < fuel := lt_of_le_of_lt hle hfuel
    obtain ⟨st₂, hst₂, hle₂⟩ := ih (fun d hd => hcs d (List.mem_cons_of_mem c hd)) hfuel₁
    refine ⟨st₂, bind_eq_ok.mpr ⟨st₁, hst₁, hst₂⟩, hle₂.trans ?_⟩
    unfold budget
    rw [hq]
    omega

/-- A visit succeeds, or it is the links that fail. -/
theorem visit_ends (stuck : ε) (hU : g.Within U) {fuel : Nat} {a : α} (hfuel : budget U st < fuel) :
    (∃ st', visit g stuck fuel a st = .ok st' ∧ budget U st' ≤ budget U st) ∨
      ∃ e, g.present a = true ∧ g.links a = .error e ∧ visit g stuck fuel a st = .error e := by
  unfold visit
  split
  · exact .inl ⟨st, rfl, Nat.le_refl _⟩
  · rename_i hpres
    cases hlinks : g.links a with
    | error e => exact .inr ⟨e, eq_true_of_ne_false hpres, rfl, rfl⟩
    | ok links =>
      obtain ⟨bs, cs⟩ := links
      obtain ⟨hbs, hcs⟩ := hU.links a bs cs hlinks
      have hle := budget_enqueueAll hbs { st with found := st.found ++ [a] }
      have hsame : budget U { st with found := st.found ++ [a] } = budget U st := rfl
      have hlt : fresh U (bs.foldl State.enqueue { st with found := st.found ++ [a] }).visited < fuel := by
        unfold budget at hle hsame hfuel
        omega
      obtain ⟨st', hst', hle'⟩ := followAll_ends stuck hU hcs hlt
      exact .inl ⟨st', hst', hle'.trans (hle.trans_eq hsame)⟩

end

end Search
