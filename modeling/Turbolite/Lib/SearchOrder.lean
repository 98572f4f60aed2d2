import Mathlib.Data.List.Shortlex
import Mathlib.Data.Prod.Lex
import Turbolite.Lib.Search

/-!
# Turbolite.Lib.SearchOrder

The order in which a search meets the nodes of a graph. A `Ranking` says for every node over which link it is
first met, with no word of the search: the links of earlier nodes come first, those of one node in their
order, and a chain is followed before the next link.

A graph has no two rankings (`Ranking.unique`). A search that succeeds has one, and found its present nodes
(`search_ranking`, `mem_search_iff`); one that fails could not read the links of a node that every ranking
has as a branch (`search_ends`).
-/

namespace Search

open Results

/-! ### Times -/

/-- When a link is come to: which link of its node it is, how far its chain was followed, and before that
the time of the node. -/
abbrev Time := List (ℕ ×ₗ ℕ)

/-- Step `m` along link `k` of a node met at `t`. -/
def link (k m : ℕ) (t : Time) : Time := toLex (k, m) :: t

/-- Fewer links first, then the links in their order. -/
def Before (s t : Time) : Prop := List.Shortlex (· < ·) s.reverse t.reverse

section

variable {s t u : Time} {k m j n : ℕ}

theorem before_wf : WellFounded Before := InvImage.wf List.reverse (List.Shortlex.wf wellFounded_lt)

theorem not_before_self (t : Time) : ¬ Before t t := before_wf.irrefl.irrefl t

theorem before_trichotomy (s t : Time) : Before s t ∨ s = t ∨ Before t s := by
  by_cases hst : Before s t
  · exact .inl hst
  by_cases hts : Before t s
  · exact .inr (.inr hts)
  · exact .inr (.inl (List.reverse_injective (List.Shortlex.trichotomous.trichotomous _ _ hst hts)))

theorem Before.asymm (h : Before s t) : ¬ Before t s := before_wf.asymmetric s t h

theorem Before.trans (h : Before s t) (h' : Before t u) : Before s u := by
  rcases before_trichotomy s u with hsu | heq | hus
  · exact hsu
  · exact absurd h' (heq ▸ h.asymm)
  · exact absurd hus (before_wf.asymmetric₃ s t u h h')

theorem before_link (k m : ℕ) (t : Time) : Before t (link k m t) := by
  apply List.Shortlex.of_length_lt
  simp [link]

theorem Before.link (h : Before s t) (k m j n : ℕ) : Before (link k m s) (link j n t) := by
  unfold Before Search.link at *
  rw [List.reverse_cons, List.reverse_cons]
  cases List.shortlex_def.mp h with
  | inl hlen =>
    apply List.Shortlex.of_length_lt
    simpa using hlen
  | inr hlex =>
    obtain ⟨hlen, hlex⟩ := hlex
    refine .of_lex (by simpa using hlen) ?_
    generalize toLex (k, m) = a, toLex (j, n) = b, s.reverse = xs, t.reverse = ys at hlen hlex ⊢
    induction hlex with
    | nil => simp at hlen
    | cons _ ih => exact .cons (ih (Nat.succ.inj hlen))
    | rel hlt => exact .rel hlt

theorem link_before (t : Time) (h : k < j ∨ k = j ∧ m < n) : Before (link k m t) (link j n t) := by
  unfold Before link
  rw [List.reverse_cons, List.reverse_cons]
  exact List.Shortlex.append_left ((List.shortlex_singleton_iff _ _).mpr (Prod.Lex.toLex_lt_toLex.mpr h)) _

/-- A link that comes before the links of a node is one of an earlier node. -/
theorem Before.of_link (h : Before (Search.link k m s) (Search.link 0 0 t)) : Before s t := by
  rcases before_trichotomy s t with hst | heq | hts
  · exact hst
  · subst heq
    by_cases hzero : k = 0 ∧ m = 0
    · obtain ⟨rfl, rfl⟩ := hzero
      exact absurd h (not_before_self _)
    · exact absurd h (link_before s (by omega)).asymm
  · exact absurd h (hts.link 0 0 k m).asymm

end

/-! ### The order in which nodes are met -/

/-- How a node is reached. -/
inductive Role where
  | branch
  | chain
  deriving DecidableEq

/-- How and when each node is first met. -/
abbrev Order (α : Type) := α → Option (Role × Time)

variable {ε α : Type}

/-- The node was met this way, or earlier. -/
def Settled (r : Order α) (a : α) (role : Role) (t : Time) : Prop :=
  r a = some (role, t) ∨ ∃ role' t', r a = some (role', t') ∧ Before t' t

namespace Graph

variable (g : Graph ε α)

/-- A node met in a role at a time leads to another: the branches of a node before its chains, and along a
chain step by step. -/
inductive Leads : α → Role → Time → α → Role → Time → Prop
  | branch {a b : α} {bs cs : List α} {k : ℕ} {t : Time} : g.present a = true →
      g.links a = .ok (bs, cs) → bs[k]? = some b → Leads a .branch t b .branch (link k 0 t)
  | chain {a c : α} {bs cs : List α} {j : ℕ} {t : Time} : g.present a = true →
      g.links a = .ok (bs, cs) → cs[j]? = some c → g.present c = true → g.admits c = true →
      Leads a .branch t c .chain (link (bs.length + j) 0 t)
  | next {a b : α} {k m : ℕ} {t : Time} : g.next a = some b → g.present b = true →
      g.admits b = true → Leads a .chain (link k m t) b .chain (link k (m + 1) t)

/-- Some node of the order leads to this one. -/
def Arrives (r : Order α) (b : α) (role : Role) (t : Time) : Prop :=
  ∃ a role' t', r a = some (role', t') ∧ g.Leads a role' t' b role t

/-- The root is met first; a node is met where an earlier one leads to it, and nowhere before. -/
structure Ranking (root : α) (r : Order α) : Prop where
  start : r root = some (.branch, [])
  met : ∀ {b role t}, r b = some (role, t) → b = root ∨ g.Arrives r b role t
  first : ∀ {b role t}, g.Arrives r b role t → Settled r b role t

variable {g} {root : α} {r q : Order α} {S : Time → Prop}

theorem Leads.before {a b : α} {role role' : Role} {t t' : Time} (h : g.Leads a role t b role' t') :
    Before t t' := by
  cases h with
  | branch => exact before_link ..
  | chain => exact before_link ..
  | next => exact link_before _ (.inr ⟨rfl, Nat.lt_succ_self _⟩)

/-- Two orders that agree before `t`: what one meets at `t` the other does. -/
theorem met_of_agree {t : Time} (hmet : ∀ {b role}, r b = some (role, t) → b = root ∨ g.Arrives r b role t)
    (hroot : r root = some (.branch, [])) (hroot' : q root = some (.branch, []))
    (hfirst : ∀ {b role}, g.Arrives q b role t → Settled q b role t)
    (ih : ∀ s, Before s t → ∀ b role, r b = some (role, s) ↔ q b = some (role, s))
    {b : α} {role : Role} (hb : r b = some (role, t)) : q b = some (role, t) := by
  cases hmet hb with
  | inl heq =>
    rw [heq, hroot] at hb
    rw [heq, hroot', ← hb]
  | inr harrives =>
    obtain ⟨a, role', t', ha, hleads⟩ := harrives
    have ha' := (ih t' hleads.before a role').mp ha
    cases hfirst ⟨a, role', t', ha', hleads⟩ with
    | inl hq => exact hq
    | inr hq =>
      obtain ⟨role₁, t₁, hq, hlt⟩ := hq
      have hr := (ih t₁ hlt b role₁).mpr hq
      rw [hb] at hr
      cases hr
      exact absurd hlt (not_before_self _)

/-- An order that is a ranking up to a time agrees with a ranking up to there. -/
theorem Ranking.agree (hq : g.Ranking root q) (hroot : r root = some (.branch, []))
    (hmet : ∀ {b role t}, r b = some (role, t) → b = root ∨ g.Arrives r b role t)
    (hfirst : ∀ {b role t}, S t → g.Arrives r b role t → Settled r b role t)
    (hS : ∀ {s t}, Before s t → S t → S s) (t : Time) (ht : S t) (b : α) (role : Role) :
    r b = some (role, t) ↔ q b = some (role, t) := by
  induction t using before_wf.induction generalizing b role with
  | h t ih =>
    have hagree : ∀ s, Before s t → ∀ b role, r b = some (role, s) ↔ q b = some (role, s) :=
      fun s hlt => ih s hlt (hS hlt ht)
    constructor
    · exact met_of_agree hmet hroot hq.start hq.first hagree
    · exact met_of_agree hq.met hq.start hroot (hfirst ht) fun s hlt b role => (hagree s hlt b role).symm

/-- A chain enters the nodes it is said to. -/
theorem Ranking.admits (hr : g.Ranking root r) {a : α} {t : Time} (ha : r a = some (.chain, t)) :
    g.admits a = true := by
  cases hr.met ha with
  | inl heq =>
    rw [heq, hr.start] at ha
    cases ha
  | inr harrives =>
    obtain ⟨b, role, s, -, hleads⟩ := harrives
    cases hleads with
    | chain _ _ _ _ hadm => exact hadm
    | next _ _ hadm => exact hadm

/-- A graph has one ranking. -/
theorem Ranking.unique (hr : g.Ranking root r) (hq : g.Ranking root q) : r = q := by
  have hagree := hq.agree hr.start hr.met (S := fun _ => True) (fun _ => hr.first) fun _ _ => trivial
  funext b
  apply Option.ext
  intro v
  exact hagree v.2 trivial b v.1

end Graph

/-! ### What a run keeps -/

/-- The order only grows. -/
def Extends (r r' : Order α) : Prop := ∀ a v, r a = some v → r' a = some v

/-- All nodes so far were met before `now`. -/
def Clock (r : Order α) (now : Time) : Prop := ∀ a role t, r a = some (role, t) → Before t now

/-- The search reaches `a` before `b`. -/
def Earlier (r : Order α) (a b : α) : Prop :=
  ∃ role s role' t, r a = some (role, s) ∧ r b = some (role', t) ∧ Before s t

/-- The search is done with the node: what it leads to was met. -/
structure Served (g : Graph ε α) (r : Order α) (a : α) (role : Role) (t : Time) : Prop where
  links : role = .branch → g.present a = true → ∃ links, g.links a = .ok links
  leads : ∀ {b role' t'}, g.Leads a role t b role' t' → Settled r b role' t'

/-- The nodes reached so far and their order. But for the `active` nodes and those in the queue the search is
done with them. -/
structure Timed (g : Graph ε α) (root : α) (r : Order α) (active queue visited : List α) : Prop where
  start : r root = some (.branch, [])
  met : ∀ {b role t}, r b = some (role, t) → b = root ∨ g.Arrives r b role t
  visited : ∀ a, a ∈ visited ↔ (r a).isSome
  served : ∀ {a role t}, r a = some (role, t) → a ∈ active ∨ a ∈ queue ∨ Served g r a role t
  queued : ∀ a ∈ queue, ∃ t, r a = some (.branch, t)
  sorted : queue.Pairwise (Earlier r)

section

variable {g : Graph ε α} {root : α} {r r' : Order α} {active queue visited : List α} {a b : α}
  {role : Role} {s t now : Time} {st st' : State α} {k m : ℕ}

theorem Extends.refl (r : Order α) : Extends r r := fun _ _ => id

theorem Extends.trans {q : Order α} (h : Extends r r') (h' : Extends r' q) : Extends r q :=
  fun a v ha => h' a v (h a v ha)

theorem Settled.mono (h : Settled r a role t) (hext : Extends r r') : Settled r' a role t := by
  cases h with
  | inl h => exact .inl (hext _ _ h)
  | inr h =>
    obtain ⟨role', t', h, hlt⟩ := h
    exact .inr ⟨role', t', hext _ _ h, hlt⟩

theorem Graph.Arrives.mono (h : g.Arrives r a role t) (hext : Extends r r') : g.Arrives r' a role t := by
  obtain ⟨b, role', t', hb, hleads⟩ := h
  exact ⟨b, role', t', hext _ _ hb, hleads⟩

theorem Served.mono (h : Served g r a role t) (hext : Extends r r') : Served g r' a role t where
  links := h.links
  leads hleads := (h.leads hleads).mono hext

theorem Earlier.mono (h : Earlier r a b) (hext : Extends r r') : Earlier r' a b := by
  obtain ⟨role, s, role', t, ha, hb, hlt⟩ := h
  exact ⟨role, s, role', t, hext _ _ ha, hext _ _ hb, hlt⟩

theorem Clock.mono (h : Clock r s) (hlt : Before s t) : Clock r t :=
  fun a role s ha => (h a role s ha).trans hlt

/-- A node that was reached was met in time. -/
theorem Timed.settled (h : Timed g root r active queue visited) (hclock : Clock r now)
    (ha : a ∈ visited) (role : Role) : Settled r a role now := by
  obtain ⟨⟨role', t'⟩, hr⟩ := Option.isSome_iff_exists.mp ((h.visited a).mp ha)
  exact .inr ⟨role', t', hr, hclock _ _ _ hr⟩

/-- The search is done with a node. -/
theorem Timed.close (h : Timed g root r (a :: active) queue visited)
    (ha : ∀ {role t}, r a = some (role, t) → Served g r a role t) :
    Timed g root r active queue visited :=
  { h with
    served := by
      intro b role t hb
      cases h.served hb with
      | inl hmem =>
        cases List.mem_cons.mp hmem with
        | inl heq =>
          subst heq
          exact .inr (.inr (ha hb))
        | inr hmem => exact .inl hmem
      | inr hrest => exact .inr hrest }

/-- A node comes out of the queue. -/
theorem Timed.pop (h : Timed g root r active (a :: queue) visited) :
    Timed g root r (a :: active) queue visited where
  start := h.start
  met := h.met
  visited := h.visited
  served hb := by
    rcases h.served hb with hmem | hmem | hdone
    · exact .inl (List.mem_cons_of_mem a hmem)
    · cases List.mem_cons.mp hmem with
      | inl heq => exact .inl (List.mem_cons.mpr (.inl heq))
      | inr hmem => exact .inr (.inl hmem)
    · exact .inr (.inr hdone)
  queued b hb := h.queued b (List.mem_cons_of_mem a hb)
  sorted := (List.pairwise_cons.mp h.sorted).2

/-- The last node met goes into the queue. -/
theorem Timed.push (h : Timed g root r (a :: active) queue visited) (ha : r a = some (.branch, t))
    (hlast : ∀ b ∈ queue, Earlier r b a) : Timed g root r active (queue ++ [a]) visited where
  start := h.start
  met := h.met
  visited := h.visited
  served hb := by
    rcases h.served hb with hmem | hmem | hdone
    · cases List.mem_cons.mp hmem with
      | inl heq => exact .inr (.inl (List.mem_append_right _ (List.mem_singleton.mpr heq)))
      | inr hmem => exact .inl hmem
    · exact .inr (.inl (List.mem_append_left _ hmem))
    · exact .inr (.inr hdone)
  queued b hb := by
    cases List.mem_append.mp hb with
    | inl hb => exact h.queued b hb
    | inr hb =>
      rw [List.mem_singleton.mp hb]
      exact ⟨t, ha⟩
  sorted := by
    refine List.pairwise_append.mpr ⟨h.sorted, List.pairwise_singleton _ _, ?_⟩
    intro b hb c hc
    rw [List.mem_singleton.mp hc]
    exact hlast b hb

/-- The search is done with a node on a chain once it came to the next. -/
theorem served_chain (hr : r a = some (.chain, link k m t))
    (hnext : ∀ b, g.next a = some b → g.present b = true → g.admits b = true →
      Settled r b .chain (link k (m + 1) t)) {role : Role} {s : Time} (hs : r a = some (role, s)) :
    Served g r a role s := by
  rw [hr] at hs
  cases hs
  constructor
  · intro hrole
    cases hrole
  · intro b role' s' hleads
    cases hleads with
    | next hb hpres hadm => exact hnext _ hb hpres hadm

/-- The links of a node met at `t` are come to, next `link k m t`. -/
structure Inside (g : Graph ε α) (root : α) (r : Order α) (active : List α) (st : State α) (t : Time)
    (k m : ℕ) : Prop where
  inv : Inv g st
  timed : Timed g root r active st.queue st.visited
  clock : Clock r (link k m t)
  ahead : ∀ b ∈ st.queue, ∃ s, r b = some (.branch, s) ∧ Before t s

theorem Inside.later (h : Inside g root r active st t k m) {j n : ℕ} (hlt : k < j ∨ k = j ∧ m < n) :
    Inside g root r active st t j n :=
  { h with clock := h.clock.mono (link_before t hlt) }

theorem Inside.close (h : Inside g root r (a :: active) st t k m)
    (ha : ∀ {role s}, r a = some (role, s) → Served g r a role s) : Inside g root r active st t k m :=
  { h with timed := h.timed.close ha }

/-- Between two nodes: none was met behind a node that waits. -/
structure Ready (g : Graph ε α) (root : α) (r : Order α) (st : State α) : Prop where
  inv : Inv g st
  timed : Timed g root r [] st.queue st.visited
  paced : ∀ b ∈ st.queue, ∃ t, r b = some (.branch, t) ∧ Clock r (link 0 0 t)

/-- After the links of a node. -/
theorem Inside.ready (h : Inside g root r [] st t k m) : Ready g root r st where
  inv := h.inv
  timed := h.timed
  paced b hb := by
    obtain ⟨s, hs, hts⟩ := h.ahead b hb
    exact ⟨s, hs, h.clock.mono (hts.link k m 0 0)⟩

/-- The node at the head of the queue is ranked as every ranking ranks it. -/
theorem Ready.head {q : Order α} {rest : List α} (h : Ready g root r st) (hq : st.queue = a :: rest)
    (hrank : g.Ranking root q) : ∃ t, q a = some (.branch, t) := by
  obtain ⟨t, ht, -⟩ := h.paced a (by rw [hq]; exact List.mem_cons_self ..)
  have hsorted := h.timed.sorted
  rw [hq] at hsorted
  refine ⟨t, (hrank.agree h.timed.start h.timed.met (S := fun s => Before s (link 0 0 t)) ?_
    (fun hlt => hlt.trans) t (before_link 0 0 t) a .branch).mp ht⟩
  intro b role' t' hlt harr
  obtain ⟨c, role, s, hc, hleads⟩ := harr
  -- what leads here by then is not in the queue
  have hout : c ∉ st.queue := by
    intro hmem
    obtain ⟨s', hs'⟩ := h.timed.queued c hmem
    rw [hc] at hs'
    cases hs'
    have hbehind : ¬ Before s t := by
      rw [hq] at hmem
      cases List.mem_cons.mp hmem with
      | inl heq =>
        rw [heq, ht] at hc
        cases hc
        exact not_before_self _
      | inr hmem =>
        obtain ⟨_, t₁, _, s₁, ht₁, hs₁, hlt₁⟩ := (List.pairwise_cons.mp hsorted).1 c hmem
        rw [ht] at ht₁
        rw [hc] at hs₁
        cases ht₁
        cases hs₁
        exact hlt₁.asymm
    cases hleads with
    | branch => exact hbehind hlt.of_link
    | chain => exact hbehind hlt.of_link
  cases (h.timed.served hc).resolve_left List.not_mem_nil with
  | inl hmem => exact absurd hmem hout
  | inr hdone => exact hdone.leads hleads

/-- With the queue empty, the order is a ranking. -/
theorem Ready.ranking (h : Ready g root r st) (hq : st.queue = []) : g.Ranking root r where
  start := h.timed.start
  met := h.timed.met
  first harr := by
    obtain ⟨a, role, t, ha, hleads⟩ := harr
    have hserved := (h.timed.served ha).resolve_left List.not_mem_nil
    rw [hq] at hserved
    exact (hserved.resolve_left List.not_mem_nil).leads hleads

/-! ### Steps -/

variable [DecidableEq α] {stuck : ε} {fuel : ℕ} {rest : List α}

/-- A node is met for the first time. -/
theorem Timed.meet (h : Timed g root r active queue visited) (hnew : a ∉ visited)
    (ha : g.Arrives r a role t) : ∃ r', Timed g root r' (a :: active) queue (a :: visited) ∧
      Extends r r' ∧ r' a = some (role, t) ∧ (Clock r s → Before t s → Clock r' s) := by
  have hnone : r a = none := by simpa [h.visited a] using hnew
  have hsame : Function.update r a (some (role, t)) a = some (role, t) := Function.update_self ..
  have hother : ∀ b, b ≠ a → Function.update r a (some (role, t)) b = r b :=
    fun b hne => Function.update_of_ne hne ..
  generalize Function.update r a (some (role, t)) = r' at hsame hother
  have hext : Extends r r' := by
    intro b v hb
    by_cases heq : b = a
    · rw [heq, hnone] at hb
      cases hb
    · rw [hother b heq, hb]
  refine ⟨r', ?_, hext, hsame, ?_⟩
  · constructor
    · exact hext _ _ h.start
    · intro b role' t' hb
      by_cases heq : b = a
      · rw [heq, hsame] at hb
        cases hb
        rw [heq]
        exact .inr (ha.mono hext)
      · rw [hother b heq] at hb
        exact (h.met hb).imp_right fun hb => hb.mono hext
    · intro b
      by_cases heq : b = a
      · simp [heq, hsame]
      · simp [heq, hother b heq, h.visited b]
    · intro b role' t' hb
      by_cases heq : b = a
      · exact .inl (List.mem_cons.mpr (.inl heq))
      · rw [hother b heq] at hb
        exact (h.served hb).imp (List.mem_cons_of_mem a) fun hrest => hrest.imp_right (·.mono hext)
    · intro b hb
      obtain ⟨t', ht'⟩ := h.queued b hb
      exact ⟨t', hext _ _ ht'⟩
    · exact h.sorted.imp fun hlt => hlt.mono hext
  · intro hclock hlt b role' t' hb
    by_cases heq : b = a
    · rw [heq, hsame] at hb
      cases hb
      exact hlt
    · rw [hother b heq] at hb
      exact hclock _ _ _ hb

theorem Inside.enqueue (h : Inside g root r active st t k 0)
    (ha : g.Arrives r a .branch (link k 0 t)) : ∃ r', Inside g root r' active (st.enqueue a) t (k + 1) 0 ∧
      Extends r r' ∧ Settled r' a .branch (link k 0 t) := by
  have hlt : Before (link k 0 t) (link (k + 1) 0 t) := link_before t (.inl (Nat.lt_succ_self k))
  unfold State.enqueue
  by_cases hmem : a ∈ st.visited
  · rw [if_pos hmem]
    exact ⟨r, h.later (.inl (Nat.lt_succ_self k)), .refl r, h.timed.settled h.clock hmem .branch⟩
  · rw [if_neg hmem]
    obtain ⟨r', htimed, hext, hr', hclock⟩ := h.timed.meet hmem ha (s := link (k + 1) 0 t)
    refine ⟨r', ⟨h.inv.push hmem, htimed.push hr' ?_, hclock (h.clock.mono hlt) hlt, ?_⟩, hext, .inl hr'⟩
    · intro b hb
      obtain ⟨s, hs, -⟩ := h.ahead b hb
      exact ⟨.branch, s, .branch, link k 0 t, hext _ _ hs, hr', h.clock _ _ _ hs⟩
    · intro b hb
      cases List.mem_append.mp hb with
      | inl hb =>
        obtain ⟨s, hs, hts⟩ := h.ahead b hb
        exact ⟨s, hext _ _ hs, hts⟩
      | inr hb =>
        rw [List.mem_singleton.mp hb]
        exact ⟨link k 0 t, hr', before_link k 0 t⟩

theorem Inside.enqueueAll {bs : List α} (h : Inside g root r active st t k 0)
    (hbs : ∀ i b, bs[i]? = some b → g.Arrives r b .branch (link (k + i) 0 t)) :
    ∃ r', Inside g root r' active (bs.foldl State.enqueue st) t (k + bs.length) 0 ∧ Extends r r' ∧
      ∀ i b, bs[i]? = some b → Settled r' b .branch (link (k + i) 0 t) := by
  induction bs generalizing r st k with
  | nil => exact ⟨r, h, .refl r, fun i b hb => by simp at hb⟩
  | cons b bs ih =>
    obtain ⟨r₁, h₁, hext₁, hb⟩ := h.enqueue (hbs 0 b rfl)
    have hrest : ∀ i c, bs[i]? = some c → g.Arrives r₁ c .branch (link (k + 1 + i) 0 t) := by
      intro i c hc
      rw [Nat.add_assoc, Nat.add_comm 1 i]
      exact (hbs (i + 1) c hc).mono hext₁
    obtain ⟨r₂, h₂, hext₂, hall⟩ := ih h₁ hrest
    refine ⟨r₂, ?_, hext₁.trans hext₂, ?_⟩
    · rw [List.length_cons, Nat.add_comm bs.length 1, ← Nat.add_assoc]
      exact h₂
    · intro i c hc
      cases i with
      | zero =>
        cases hc
        exact hb.mono hext₂
      | succ i =>
        rw [Nat.add_comm i 1, ← Nat.add_assoc]
        exact hall i c hc

theorem Inside.follow (h : Inside g root r active st t k m)
    (ha : g.present a = true → g.admits a = true → g.Arrives r a .chain (link k m t))
    (hf : follow g stuck fuel a st = .ok st') : ∃ r', Inside g root r' active st' t (k + 1) 0 ∧
      Extends r r' ∧ (g.present a = true → g.admits a = true → Settled r' a .chain (link k m t)) := by
  induction fuel generalizing a active r st m with
  | zero => cases hf
  | succ fuel ih =>
    unfold Search.follow at hf
    by_cases hshut : a ∈ st.visited ∨ g.admits a = false ∨ g.present a = false
    · rw [if_pos hshut] at hf
      cases hf
      refine ⟨r, h.later (.inl (Nat.lt_succ_self k)), .refl r, fun hpres hadm => ?_⟩
      rw [hpres, hadm] at hshut
      exact h.timed.settled h.clock (by simpa using hshut) .chain
    · rw [if_neg hshut] at hf
      obtain ⟨hnew, hopen⟩ := not_or.mp hshut
      obtain ⟨hadm, hpres⟩ := not_or.mp hopen
      have hadm : g.admits a = true := eq_true_of_ne_false hadm
      have hpres : g.present a = true := eq_true_of_ne_false hpres
      have hlt : Before (link k m t) (link k (m + 1) t) := link_before t (.inr ⟨rfl, Nat.lt_succ_self m⟩)
      obtain ⟨r₁, htimed, hext, hr₁, hclock⟩ := h.timed.meet hnew (ha hpres hadm) (s := link k (m + 1) t)
      have hrec : Inside g root r₁ (a :: active) (st.record a) t k (m + 1) := by
        refine ⟨h.inv.record hnew hpres, htimed, hclock (h.clock.mono hlt) hlt, ?_⟩
        intro b hb
        obtain ⟨s, hs, hts⟩ := h.ahead b hb
        exact ⟨s, hext _ _ hs, hts⟩
      cases hnext : g.next a with
      | none =>
        rw [hnext] at hf
        cases hf
        have hclosed := hrec.close (served_chain hr₁ fun b hb => by
          rw [hnext] at hb
          cases hb)
        exact ⟨r₁, hclosed.later (.inl (Nat.lt_succ_self k)), hext, fun _ _ => .inl hr₁⟩
      | some b =>
        rw [hnext] at hf
        obtain ⟨r₂, h₂, hext₂, hb⟩ := ih hrec
          (fun hpres hadm => ⟨a, .chain, link k m t, hr₁, .next hnext hpres hadm⟩) hf
        have hclosed := h₂.close (served_chain (hext₂ _ _ hr₁) fun c hc => by
          rw [hnext] at hc
          cases hc
          exact hb)
        exact ⟨r₂, hclosed, hext.trans hext₂, fun _ _ => .inl (hext₂ _ _ hr₁)⟩

theorem Inside.followAll {cs : List α} (h : Inside g root r active st t k 0)
    (hcs : ∀ i c, cs[i]? = some c → g.present c = true → g.admits c = true →
      g.Arrives r c .chain (link (k + i) 0 t))
    (hf : followAll g stuck fuel cs st = .ok st') :
    ∃ r', Inside g root r' active st' t (k + cs.length) 0 ∧ Extends r r' ∧
      ∀ i c, cs[i]? = some c → g.present c = true → g.admits c = true →
        Settled r' c .chain (link (k + i) 0 t) := by
  induction cs generalizing r st k with
  | nil =>
    cases hf
    exact ⟨r, h, .refl r, fun i b hb => by simp at hb⟩
  | cons c cs ih =>
    obtain ⟨st₁, hc, hf⟩ := bind_eq_ok.mp hf
    obtain ⟨r₁, h₁, hext₁, hc⟩ := h.follow (hcs 0 c rfl) hc
    have hrest : ∀ i d, cs[i]? = some d → g.present d = true → g.admits d = true →
        g.Arrives r₁ d .chain (link (k + 1 + i) 0 t) := by
      intro i d hd hpres hadm
      rw [Nat.add_assoc, Nat.add_comm 1 i]
      exact (hcs (i + 1) d hd hpres hadm).mono hext₁
    obtain ⟨r₂, h₂, hext₂, hall⟩ := ih h₁ hrest hf
    refine ⟨r₂, ?_, hext₁.trans hext₂, ?_⟩
    · rw [List.length_cons, Nat.add_comm cs.length 1, ← Nat.add_assoc]
      exact h₂
    · intro i d hd hpres hadm
      cases i with
      | zero =>
        cases hd
        exact (hc hpres hadm).mono hext₂
      | succ i =>
        rw [Nat.add_comm i 1, ← Nat.add_assoc]
        exact hall i d hd hpres hadm

theorem Ready.init (g : Graph ε α) (root : α) :
    ∃ r, Ready g root r { queue := [root], visited := [root] } := by
  have hsame : Function.update (fun _ => none : Order α) root (some (.branch, [])) root =
      some (.branch, []) := Function.update_self ..
  have hother : ∀ b, b ≠ root →
      Function.update (fun _ => none : Order α) root (some (.branch, [])) b = none :=
    fun b hne => Function.update_of_ne hne ..
  generalize Function.update (fun _ => none : Order α) root (some (.branch, [])) = r at hsame hother
  have hroot : ∀ {b v}, r b = some v → b = root := by
    intro b v hb
    by_contra hne
    rw [hother b hne] at hb
    cases hb
  refine ⟨r, .init g root, ⟨hsame, fun hb => .inl (hroot hb), ?_, ?_, ?_, List.pairwise_singleton _ _⟩, ?_⟩
  · intro b
    by_cases heq : b = root
    · simp [heq, hsame]
    · simp [heq, hother b heq]
  · exact fun hb => .inr (.inl (List.mem_singleton.mpr (hroot hb)))
  · intro b hb
    rw [List.mem_singleton.mp hb]
    exact ⟨[], hsame⟩
  · intro b hb
    rw [List.mem_singleton.mp hb]
    refine ⟨[], hsame, fun c role t hc => ?_⟩
    rw [hroot hc, hsame] at hc
    cases hc
    exact before_link 0 0 []

/-- The node at the head of the queue. -/
theorem Ready.visit (h : Ready g root r st) (hq : st.queue = a :: rest)
    (hv : visit g stuck fuel a { st with queue := rest } = .ok st') : ∃ r', Ready g root r' st' := by
  obtain ⟨t, ht, hclock⟩ := h.paced a (by rw [hq]; exact List.mem_cons_self ..)
  have htimed := h.timed
  rw [hq] at htimed
  have hpop := htimed.pop
  unfold Search.visit at hv
  by_cases habs : g.present a = false
  · rw [if_pos habs] at hv
    cases hv
    have hdone : ∀ {role s}, r a = some (role, s) → Served g r a role s := by
      intro role s hs
      rw [ht] at hs
      cases hs
      refine ⟨fun _ hpres => absurd hpres (by simp [habs]), fun hleads => ?_⟩
      cases hleads with
      | branch hpres _ _ => exact absurd hpres (by simp [habs])
      | chain hpres _ _ _ _ => exact absurd hpres (by simp [habs])
    refine ⟨r, h.inv.drop hq habs, hpop.close hdone, fun b hb => ?_⟩
    exact h.paced b (by rw [hq]; exact List.mem_cons_of_mem a hb)
  · rw [if_neg habs] at hv
    have hpres : g.present a = true := eq_true_of_ne_false habs
    obtain ⟨⟨bs, cs⟩, hlinks, hv⟩ := bind_eq_ok.mp hv
    have hinside : Inside g root r [a] { st with queue := rest, found := st.found ++ [a] } t 0 0 := by
      refine ⟨h.inv.take hq hpres, hpop, hclock, ?_⟩
      intro b hb
      obtain ⟨s, hs⟩ := hpop.queued b hb
      obtain ⟨_, t', _, s', ht', hs', hlt⟩ := (List.pairwise_cons.mp htimed.sorted).1 b hb
      rw [ht] at ht'
      rw [hs] at hs'
      cases ht'
      cases hs'
      exact ⟨s, hs, hlt⟩
    have hbranches : ∀ i b, bs[i]? = some b → g.Arrives r b .branch (link (0 + i) 0 t) := by
      intro i b hb
      rw [Nat.zero_add]
      exact ⟨a, .branch, t, ht, .branch hpres hlinks hb⟩
    obtain ⟨r₁, h₁, hext₁, hbs⟩ := hinside.enqueueAll hbranches
    have hchains : ∀ i c, cs[i]? = some c → g.present c = true → g.admits c = true →
        g.Arrives r₁ c .chain (link (0 + bs.length + i) 0 t) := by
      intro i c hc hpc hadm
      rw [Nat.zero_add]
      exact ⟨a, .branch, t, hext₁ _ _ ht, .chain hpres hlinks hc hpc hadm⟩
    obtain ⟨r₂, h₂, hext₂, hcs⟩ := h₁.followAll hchains hv
    have hdone : ∀ {role s}, r₂ a = some (role, s) → Served g r₂ a role s := by
      intro role s hs
      rw [hext₂ _ _ (hext₁ _ _ ht)] at hs
      cases hs
      refine ⟨fun _ _ => ⟨(bs, cs), hlinks⟩, fun hleads => ?_⟩
      cases hleads with
      | branch _ hlinks' hb =>
        rw [hlinks] at hlinks'
        cases hlinks'
        have hb := hbs _ _ hb
        rw [Nat.zero_add] at hb
        exact hb.mono hext₂
      | chain _ hlinks' hc hpc hadm =>
        rw [hlinks] at hlinks'
        cases hlinks'
        have hc := hcs _ _ hc hpc hadm
        rw [Nat.zero_add] at hc
        exact hc
    exact ⟨r₂, (h₂.close hdone).ready⟩

theorem Ready.loop {chainFuel : ℕ} (h : Ready g root r st)
    (hl : loop g stuck chainFuel fuel st = .ok st') :
    ∃ r', Ready g root r' st' ∧ st'.queue = [] := by
  induction fuel generalizing r st with
  | zero => cases hl
  | succ fuel ih =>
    unfold Search.loop at hl
    cases hq : st.queue with
    | nil =>
      rw [hq] at hl
      cases hl
      exact ⟨r, h, hq⟩
    | cons a rest =>
      rw [hq] at hl
      obtain ⟨st₁, hv, hl⟩ := bind_eq_ok.mp hl
      obtain ⟨r₁, h₁⟩ := h.visit hq hv
      exact ih h₁ hl

/-! ### What a search finds -/

variable {found : List α}

theorem search_ready (h : search g stuck fuel root = .ok found) :
    ∃ r st, Ready g root r st ∧ st.queue = [] ∧ st.found = found := by
  obtain ⟨st, hl, h⟩ := bind_eq_ok.mp h
  obtain ⟨r, hr⟩ := Ready.init g root
  obtain ⟨r', hr', hq⟩ := hr.loop hl
  exact ⟨r', st, hr', hq, Except.ok.inj h⟩

theorem search_nodup (h : search g stuck fuel root = .ok found) : found.Nodup := by
  obtain ⟨r, st, hr, hq, rfl⟩ := search_ready h
  exact (List.nodup_append.mp hr.inv.nodup).1

/-- A search that succeeds met the nodes in an order, found those that are present and read the links of the
branches. -/
theorem search_ranking (h : search g stuck fuel root = .ok found) : ∃ r, g.Ranking root r ∧
    (∀ a, a ∈ found ↔ g.present a = true ∧ (r a).isSome) ∧
    ∀ a t, r a = some (.branch, t) → g.present a = true → ∃ links, g.links a = .ok links := by
  obtain ⟨r, st, hr, hq, rfl⟩ := search_ready h
  refine ⟨r, hr.ranking hq, fun a => ?_, fun a t ha hpres => ?_⟩
  · rw [hr.inv.mem_found_iff hq, hr.timed.visited]
  · have hserved := (hr.timed.served ha).resolve_left List.not_mem_nil
    rw [hq] at hserved
    exact (hserved.resolve_left List.not_mem_nil).links rfl hpres

/-- A search finds the present nodes of the ranking. -/
theorem mem_search_iff (h : search g stuck fuel root = .ok found) (hr : g.Ranking root r) :
    a ∈ found ↔ g.present a = true ∧ (r a).isSome := by
  obtain ⟨r', hr', hfound, -⟩ := search_ranking h
  rw [hr.unique hr']
  exact hfound a

/-! ### Every search ends -/

variable {U : Finset α}

theorem loop_ends (stuck : ε) (hU : g.Within U) {chainFuel : ℕ} (h : Ready g root r st)
    (hchain : budget U st < chainFuel) (hfuel : budget U st < fuel) :
    (∃ st', loop g stuck chainFuel fuel st = .ok st') ∨
      ∃ a e, g.present a = true ∧ g.links a = .error e ∧ loop g stuck chainFuel fuel st = .error e ∧
        ∀ q, g.Ranking root q → ∃ t, q a = some (.branch, t) := by
  induction fuel generalizing r st with
  | zero => exact absurd hfuel (Nat.not_lt_zero _)
  | succ fuel ih =>
    unfold Search.loop
    cases hq : st.queue with
    | nil => exact .inl ⟨st, rfl⟩
    | cons a rest =>
      have hpop : budget U { st with queue := rest } + 1 = budget U st := by
        simp only [budget, hq, List.length_cons]
        omega
      have hlt : budget U { st with queue := rest } < chainFuel := by omega
      cases visit_ends stuck hU (a := a) hlt with
      | inl hok =>
        obtain ⟨st₁, hst₁, hle⟩ := hok
        simp only [hst₁, ok_bind]
        obtain ⟨r₁, h₁⟩ := h.visit hq hst₁
        exact ih h₁ (by omega) (by omega)
      | inr herr =>
        obtain ⟨e, hpres, hlinks, hst₁⟩ := herr
        simp only [hst₁, error_bind]
        exact .inr ⟨a, e, hpres, hlinks, rfl, fun q hrank => h.head hq hrank⟩

/-- A search succeeds, or it fails like the links of a branch, which is one in every ranking. -/
theorem search_ends (stuck : ε) (root : α) (hU : g.Within U) (hfuel : U.card + 1 < fuel) :
    (∃ found, search g stuck fuel root = .ok found) ∨
      ∃ a e, g.present a = true ∧ g.links a = .error e ∧ search g stuck fuel root = .error e ∧
        ∀ q, g.Ranking root q → ∃ t, q a = some (.branch, t) := by
  have hle : budget U { queue := [root], visited := [root] } ≤ U.card + 1 := by
    have hcard : fresh U [root] ≤ U.card := Finset.card_le_card Finset.sdiff_subset
    simp only [budget, List.length_singleton]
    omega
  obtain ⟨r, hr⟩ := Ready.init g root
  cases loop_ends stuck hU hr (lt_of_le_of_lt hle hfuel) (lt_of_le_of_lt hle hfuel) with
  | inl hok =>
    obtain ⟨st, hst⟩ := hok
    exact .inl ⟨st.found, bind_eq_ok.mpr ⟨st, hst, rfl⟩⟩
  | inr herr =>
    obtain ⟨a, e, hpres, hlinks, hst, hrank⟩ := herr
    refine .inr ⟨a, e, hpres, hlinks, ?_, hrank⟩
    unfold search
    rw [hst, error_bind]

end

end Search
