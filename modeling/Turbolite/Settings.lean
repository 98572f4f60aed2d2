import Mathlib.Data.List.Basic
import Mathlib.Logic.Function.Basic
import Mathlib.Order.Basic
import Turbolite.Lib.Runs

/-!
# Turbolite.Settings

The tuning of open connections (`settings.rs`, `install_hook.rs`, the drain of `read_exact_at`). A thread has a
stack of the queues of the handles it opened. The SQL function of a connection is bound to the queue on top
when SQLite opens the connection, after the open of its file (a connection without a file has no handle, and is
left out); `settings::set` looks at the top when it is called. A handle drains its own queue on its next slow
read. Threads run in any order, and a connection may be used and closed on another thread than the one that
opened it.

Numbers are parsed by the standard library; its parsers are arguments.
-/

namespace Turbolite.Settings

open Runs

/-! ### Settings -/

/-- A setting that waits in a queue. -/
structure SettingUpdate where
  key : String
  value : String
  deriving DecidableEq, Repr

/-- The parsing of numbers, and the schedules a reset goes back to. -/
structure Numbers (F : Type) where
  /-- `trim` and `parse::<f32>` -/
  parseF32 : List Char → Option F
  /-- finite, and in `0.0..=1.0` -/
  inRange : F → Bool
  /-- `parse_byte_size` -/
  parseByteSize : String → Option Nat
  /-- `[0.3, 0.3, 0.4]` -/
  searchReset : List F
  /-- `[0.0, 0.0, 0.0]` -/
  lookupReset : List F

variable {F : Type} (n : Numbers F)

/-- `parse_hops`. -/
def parseHops (value : String) : Option (List F) :=
  ((value.toList.splitOn ',').mapM n.parseF32).filter fun hops => !hops.isEmpty && hops.all n.inRange

/-- `validate`. -/
def validate (u : SettingUpdate) : Except String Unit :=
  match u.key with
  | "prefetch" | "prefetch_search" | "prefetch_lookup" =>
    if (parseHops n u.value).isNone then .error "invalid hop schedule" else .ok ()
  | "prefetch_reset" => .ok ()
  | "plan_aware" | "lookahead" | "evict_on_checkpoint" =>
    if u.value = "true" ∨ u.value = "false" ∨ u.value = "1" ∨ u.value = "0" then .ok ()
    else .error "expected true/false/1/0"
  | "cache_limit" =>
    if (n.parseByteSize u.value).isNone then .error "invalid byte size" else .ok ()
  | _ => .error "unknown key"

/-- The fields of a handle that can be tuned. -/
structure Tuning (F : Type) where
  prefetchSearch : List F
  prefetchLookup : List F
  queryPlanPrefetch : Bool
  lookaheadEnabled : Bool
  cacheLimit : Option Nat
  evictOnCheckpoint : Bool

/-- `matches!(value, "true" | "1")`. -/
def isTrue (value : String) : Bool := value = "true" || value = "1"

/-- One update of the drain of `read_exact_at`. -/
def Tuning.apply (t : Tuning F) (u : SettingUpdate) : Tuning F :=
  match u.key with
  | "prefetch" =>
    match parseHops n u.value with
    | some hops => { t with prefetchSearch := hops, prefetchLookup := hops }
    | none => t
  | "prefetch_search" =>
    match parseHops n u.value with
    | some hops => { t with prefetchSearch := hops }
    | none => t
  | "prefetch_lookup" =>
    match parseHops n u.value with
    | some hops => { t with prefetchLookup := hops }
    | none => t
  | "prefetch_reset" => { t with prefetchSearch := n.searchReset, prefetchLookup := n.lookupReset }
  | "plan_aware" => { t with queryPlanPrefetch := isTrue u.value }
  | "lookahead" => { t with lookaheadEnabled := isTrue u.value }
  | "cache_limit" =>
    match n.parseByteSize u.value with
    | some bytes => { t with cacheLimit := if bytes = 0 then none else some bytes }
    | none => t
  | "evict_on_checkpoint" => { t with evictOnCheckpoint := isTrue u.value }
  | _ => t

/-- What the update does to the budget of the handle's cache. -/
def setCacheBudgetBytes (budget : Nat) (u : SettingUpdate) : Nat :=
  match u.key with
  | "cache_limit" => (n.parseByteSize u.value).getD budget
  | _ => budget

/-! ### Routing -/

/-- A handle: who opened it, its queue and what it has set. -/
structure Handle (F : Type) where
  /-- the thread that opened it -/
  thread : Nat
  /-- the thread that dropped it -/
  dropped : Option Nat := none
  /-- its cache, which handles share -/
  cache : Nat
  start : Tuning F
  tuning : Tuning F
  queue : List SettingUpdate := []
  /-- what was pushed into the queue, and what was drained from it -/
  pushed : List SettingUpdate := []
  drained : List SettingUpdate := []

/-- A connection, by its main handle and the queue its SQL function is bound to. -/
structure Connection where
  main : Nat
  bound : Nat
  deriving DecidableEq, Repr

/-- The handles, the stacks of the threads and the hooks. -/
structure State (F : Type) where
  handles : List (Handle F) := []
  /-- `QUEUE_STACK` of each thread, the top first; a queue goes by the handle it was made for -/
  queueStack : Nat → List Nat := fun _ => []
  /-- the main handle of the connection a thread is opening -/
  opening : Nat → Option Nat := fun _ => none
  connections : List Connection := []
  /-- the budget of each cache -/
  budgets : Nat → Nat := fun _ => 0

/-- The opens, the calls of the SQL function, the reads and the drops. -/
inductive Event (F : Type) where
  /-- `new_tiered`, called for the main file of a connection -/
  | xOpen (thread cache : Nat) (start : Tuning F)
  /-- the auto extension, before the open returns -/
  | install (thread : Nat)
  /-- the open fails after its file was opened -/
  | openFails (thread : Nat)
  /-- `new_tiered` for a file that is attached -/
  | attach (thread cache : Nat) (start : Tuning F)
  /-- `turbolite_config_set` on a connection, from whichever thread uses it -/
  | configSet (c : Nat) (u : SettingUpdate)
  /-- `settings::set` -/
  | set (thread : Nat) (u : SettingUpdate)
  /-- a slow read of a handle -/
  | drain (h : Nat)
  /-- a handle is dropped -/
  | drop (thread h : Nat)

namespace State

/-- `enter_handle` for a new handle, which also sets the budget of its cache. -/
def enter (s : State F) (thread cache : Nat) (start : Tuning F) : State F :=
  { s with
    handles := s.handles ++ [{ thread := thread, cache := cache, start := start, tuning := start }]
    queueStack := Function.update s.queueStack thread (s.handles.length :: s.queueStack thread)
    budgets := Function.update s.budgets cache (start.cacheLimit.getD 0) }

/-- A push into the queue of a handle. -/
def push (s : State F) (h : Nat) (u : SettingUpdate) : State F :=
  { s with handles := s.handles.modify h fun x => { x with queue := x.queue ++ [u], pushed := x.pushed ++ [u] } }

end State

/-- `drain_queue` and the loop over what it returns. -/
def Handle.drain (x : Handle F) : Handle F :=
  { x with
    tuning := x.queue.foldl (Tuning.apply n) x.tuning
    queue := []
    drained := x.drained ++ x.queue }

/-- The budgets after a handle drained its queue. -/
def Handle.budgets (budgets : Nat → Nat) (x : Handle F) : Nat → Nat :=
  Function.update budgets x.cache (x.queue.foldl (setCacheBudgetBytes n) (budgets x.cache))

/-- The handle is there and not dropped. -/
def State.live (s : State F) (h : Nat) : Bool :=
  match s.handles[h]? with
  | some x => x.dropped.isNone
  | none => false

/-- `settings::set`, up to the queue it pushes to. -/
def set (stack : List Nat) (u : SettingUpdate) : Except String Nat := do
  validate n u
  match stack with
  | top :: _ => return top
  | [] => throw "no active turbolite handle on this thread"

/-- A call that is refused has no effect; a thread that opens a connection does nothing else. -/
def step (s : State F) : Event F → Option (State F)
  | .xOpen t cache start =>
    if s.opening t = none then
      some { s.enter t cache start with opening := Function.update s.opening t (some s.handles.length) }
    else none
  | .install t =>
    match s.opening t, s.queueStack t with
    | some main, top :: _ =>
      some { s with
        opening := Function.update s.opening t none
        connections := s.connections ++ [⟨main, top⟩] }
    | _, _ => none
  | .openFails t => some { s with opening := Function.update s.opening t none }
  | .attach t cache start => if s.opening t = none then some (s.enter t cache start) else none
  | .configSet c u =>
    match s.connections[c]? with
    | some conn =>
      -- a connection that is in use keeps its handle
      if s.live conn.main = true then
        match validate n u with
        | .ok _ => some (s.push conn.bound u)
        | .error _ => some s
      else none
    | none => none
  | .set t u =>
    if s.opening t = none then
      match set n (s.queueStack t) u with
      | .ok top => some (s.push top u)
      | .error _ => some s
    else none
  | .drain h =>
    match s.handles[h]? with
    | some x =>
      if x.dropped = none then
        some { s with handles := s.handles.modify h (Handle.drain n), budgets := x.budgets n s.budgets }
      else none
    | none => none
  | .drop t h =>
    if s.live h = true ∧ s.opening t = none then
      -- `leave_handle` looks at the stack of the thread that drops, not at that of the one that opened
      some { s with
        handles := s.handles.modify h fun x => { x with dropped := some t }
        queueStack := Function.update s.queueStack t ((s.queueStack t).erase h) }
    else none

/-! ### Where updates go -/

/-- The handle was opened by the thread and was not dropped by it. -/
def Handle.OpenOn (t : Nat) (x : Handle F) : Prop := x.thread = t ∧ x.dropped ≠ some t

/-- The updates of a handle: what is drained was pushed before, in order, and was applied. -/
structure Handle.Kept (x : Handle F) : Prop where
  pushed : x.pushed = x.drained ++ x.queue
  tuning : x.tuning = x.drained.foldl (Tuning.apply n) x.start
  valid : ∀ u ∈ x.pushed, validate n u = .ok ()

/-- The stacks have the handles that are open, and each handle the settings that were queued for it. -/
structure Inv (s : State F) : Prop where
  kept : ∀ (h : Nat) (x : Handle F), s.handles[h]? = some x → x.Kept n
  sorted : ∀ t, (s.queueStack t).Pairwise (· > ·)
  queueStack : ∀ t (h : Nat), h ∈ s.queueStack t ↔ ∃ x : Handle F, s.handles[h]? = some x ∧ x.OpenOn t
  opening : ∀ t h, s.opening t = some h → (s.queueStack t).head? = some h
  bound : ∀ c ∈ s.connections, c.bound = c.main

variable {n} {s s' : State F} {t h : Nat} {u : SettingUpdate} {x : Handle F}

theorem set_eq_ok {stack : List Nat} {top : Nat} (h : set n stack u = .ok top) :
    validate n u = .ok () ∧ stack.head? = some top := by
  unfold set at h
  cases hvalid : validate n u with
  | error e =>
    rw [hvalid] at h
    cases h
  | ok _ =>
    rw [hvalid] at h
    cases stack with
    | nil => cases h
    | cons top' rest =>
      cases h
      exact ⟨rfl, rfl⟩

theorem kept_start (t cache : Nat) (start : Tuning F) :
    Handle.Kept n { thread := t, cache := cache, start := start, tuning := start } where
  pushed := rfl
  tuning := rfl
  valid := by simp

theorem Handle.Kept.push (hx : x.Kept n) (hu : validate n u = .ok ()) :
    Handle.Kept n { x with queue := x.queue ++ [u], pushed := x.pushed ++ [u] } where
  pushed := by
    show x.pushed ++ [u] = x.drained ++ (x.queue ++ [u])
    rw [hx.pushed, List.append_assoc]
  tuning := hx.tuning
  valid := by
    intro v hv
    rcases List.mem_append.mp hv with hold | hnew
    · exact hx.valid v hold
    · rw [List.mem_singleton.mp hnew]
      exact hu

theorem Handle.Kept.drain (hx : x.Kept n) : Handle.Kept n (x.drain n) where
  pushed := by
    show x.pushed = x.drained ++ x.queue ++ []
    rw [hx.pushed, List.append_nil]
  tuning := by
    show x.queue.foldl (Tuning.apply n) x.tuning = (x.drained ++ x.queue).foldl (Tuning.apply n) x.start
    rw [List.foldl_append, hx.tuning]
  valid := hx.valid

theorem getElem?_modify_eq_some {f : Handle F → Handle F} {l : List (Handle F)} {i : Nat} :
    (l.modify h f)[i]? = some x ↔ ∃ y, l[i]? = some y ∧ (if h = i then f y else y) = x := by
  rw [List.getElem?_modify]
  exact Option.map_eq_some_iff

/-- A step that changes one handle, without its threads, keeps everything. -/
theorem Inv.modify (hs : Inv n s) (h : Nat) (budgets : Nat → Nat) {f : Handle F → Handle F}
    (hkept : ∀ x : Handle F, x.Kept n → (f x).Kept n)
    (hopen : ∀ (x : Handle F) t, (f x).OpenOn t ↔ x.OpenOn t) :
    Inv n { s with handles := s.handles.modify h f, budgets := budgets } where
  kept := by
    intro i x hx
    obtain ⟨y, hy, rfl⟩ := getElem?_modify_eq_some.mp hx
    split
    · exact hkept y (hs.kept i y hy)
    · exact hs.kept i y hy
  sorted := hs.sorted
  queueStack := by
    intro t i
    have hsame : ∀ y : Handle F, (if h = i then f y else y).OpenOn t ↔ y.OpenOn t := by
      intro y
      split
      · exact hopen y t
      · exact Iff.rfl
    rw [hs.queueStack]
    constructor
    · rintro ⟨y, hy, hthread⟩
      exact ⟨_, getElem?_modify_eq_some.mpr ⟨y, hy, rfl⟩, (hsame y).mpr hthread⟩
    · rintro ⟨x, hx, hthread⟩
      obtain ⟨y, hy, rfl⟩ := getElem?_modify_eq_some.mp hx
      exact ⟨y, hy, (hsame y).mp hthread⟩
  opening := hs.opening
  bound := hs.bound

theorem Inv.push (hs : Inv n s) (hu : validate n u = .ok ()) : Inv n (s.push h u) :=
  hs.modify h s.budgets (fun _ hx => hx.push hu) fun _ _ => Iff.rfl

/-- A new handle is the last one, and comes on top. -/
theorem Inv.enter (hs : Inv n s) (hnot : s.opening t = none) (cache : Nat) (start : Tuning F) :
    Inv n (s.enter t cache start) := by
  have hlen : ∀ t h, h ∈ s.queueStack t → h < s.handles.length := by
    intro t h hh
    obtain ⟨x, hx, -⟩ := (hs.queueStack t h).mp hh
    exact (List.getElem?_eq_some_iff.mp hx).1
  have hget : ∀ i x,
      (s.handles ++ [{ thread := t, cache := cache, start := start, tuning := start }])[i]? = some x ↔
        s.handles[i]? = some x ∨
          i = s.handles.length ∧ x = { thread := t, cache := cache, start := start, tuning := start } := by
    intro i x
    rcases Nat.lt_trichotomy i s.handles.length with hlt | rfl | hgt
    · rw [List.getElem?_append_left hlt]
      simp [Nat.ne_of_lt hlt]
    · simp [eq_comm]
    · rw [List.getElem?_eq_none (by simpa using Nat.succ_le_of_lt hgt), List.getElem?_eq_none (Nat.le_of_lt hgt)]
      simp [Nat.ne_of_gt hgt]
  constructor
  case kept =>
    intro i x hx
    rcases (hget i x).mp hx with hold | ⟨-, rfl⟩
    · exact hs.kept i x hold
    · exact kept_start t cache start
  case sorted =>
    -- the new handle has the largest number
    intro t'
    simp only [State.enter, Function.update_apply]
    split
    · exact List.Pairwise.cons (fun h hh => hlen t h hh) (hs.sorted t)
    · exact hs.sorted t'
  case queueStack =>
    intro t' i
    simp only [State.enter, hget, Function.update_apply]
    split
    case isTrue heq =>
      subst heq
      rw [List.mem_cons, hs.queueStack]
      constructor
      · rintro (rfl | ⟨x, hx, hopen⟩)
        · exact ⟨_, .inr ⟨rfl, rfl⟩, rfl, by simp⟩
        · exact ⟨x, .inl hx, hopen⟩
      · rintro ⟨x, hx | ⟨rfl, rfl⟩, hopen⟩
        · exact .inr ⟨x, hx, hopen⟩
        · exact .inl rfl
    case isFalse hne =>
      rw [hs.queueStack]
      constructor
      · rintro ⟨x, hx, hopen⟩
        exact ⟨x, .inl hx, hopen⟩
      · rintro ⟨x, hx | ⟨rfl, rfl⟩, hopen⟩
        · exact ⟨x, hx, hopen⟩
        · exact absurd hopen.1.symm hne
  case opening =>
    intro t' h' hopening
    have hne : t' ≠ t := by
      rintro rfl
      exact absurd (hnot.symm.trans hopening) (by simp)
    simp only [State.enter, Function.update_of_ne hne]
    exact hs.opening t' h' hopening
  case bound => exact hs.bound

/-- A dropped handle leaves the stack of the thread that drops it. -/
theorem Inv.drop (hs : Inv n s) (hnot : s.opening t = none)
    (hlive : ∀ x, s.handles[h]? = some x → x.dropped = none) :
    Inv n { s with
      handles := s.handles.modify h fun x => { x with dropped := some t }
      queueStack := Function.update s.queueStack t ((s.queueStack t).erase h) } := by
  constructor
  case kept =>
    intro i x hx
    obtain ⟨y, hy, rfl⟩ := getElem?_modify_eq_some.mp hx
    have hkept := hs.kept i y hy
    split
    · exact ⟨hkept.pushed, hkept.tuning, hkept.valid⟩
    · exact hkept
  case sorted =>
    intro t'
    simp only [Function.update_apply]
    split
    · exact (hs.sorted t).sublist List.erase_sublist
    · exact hs.sorted t'
  case queueStack =>
    intro t' i
    by_cases heq : t' = t
    · subst heq
      -- on the stack of its own thread the handle goes, and it stood there once
      have hnodup : (s.queueStack t').Nodup := (hs.sorted t').imp fun hgt => Nat.ne_of_gt hgt
      simp only [Function.update_self]
      rw [hnodup.mem_erase_iff, hs.queueStack]
      constructor
      · rintro ⟨hne, y, hy, hopen⟩
        exact ⟨y, getElem?_modify_eq_some.mpr ⟨y, hy, if_neg (Ne.symm hne)⟩, hopen⟩
      · rintro ⟨x, hx, hopen⟩
        obtain ⟨y, hy, rfl⟩ := getElem?_modify_eq_some.mp hx
        by_cases hi : h = i
        · rw [if_pos hi] at hopen
          exact absurd rfl hopen.2
        · rw [if_neg hi] at hopen
          exact ⟨Ne.symm hi, y, hy, hopen⟩
    · simp only [Function.update_of_ne heq]
      rw [hs.queueStack]
      constructor
      · rintro ⟨y, hy, hopen⟩
        refine ⟨_, getElem?_modify_eq_some.mpr ⟨y, hy, rfl⟩, ?_⟩
        split
        · exact ⟨hopen.1, fun hdrop => heq (Option.some.inj hdrop).symm⟩
        · exact hopen
      · rintro ⟨x, hx, hopen⟩
        obtain ⟨y, hy, rfl⟩ := getElem?_modify_eq_some.mp hx
        by_cases hi : h = i
        · -- it stays on the stack of another thread that opened it
          subst hi
          rw [if_pos rfl] at hopen
          exact ⟨y, hy, hopen.1, by rw [hlive y hy]; simp⟩
        · rw [if_neg hi] at hopen
          exact ⟨y, hy, hopen⟩
  case opening =>
    intro t' h' hopening
    -- the thread is opening nothing, so an opening is that of another one
    have hne : t' ≠ t := by
      rintro rfl
      exact absurd (hnot.symm.trans hopening) (by simp)
    simp only [Function.update_of_ne hne]
    exact hs.opening t' h' hopening
  case bound => exact hs.bound

/-- An open that is over leaves nothing to keep of its thread. -/
theorem opening_update (hs : Inv n s) (t : Nat) :
    ∀ t' h, Function.update s.opening t none t' = some h → (s.queueStack t').head? = some h := by
  intro t' h' hopening
  by_cases heq : t' = t
  · subst heq
    simp at hopening
  · simp only [Function.update_of_ne heq] at hopening
    exact hs.opening t' h' hopening

theorem inv_init : Inv n {} where
  kept := by simp
  sorted := by simp
  queueStack := by simp
  opening := by simp
  bound := by simp

theorem inv_step {e : Event F} (hs : Inv n s) (hstep : step n s e = some s') : Inv n s' := by
  cases e with
  | xOpen t cache start =>
    obtain ⟨hnot, hstep⟩ := Option.ite_none_right_eq_some.mp hstep
    obtain rfl := Option.some.inj hstep
    have henter := hs.enter hnot cache start
    refine ⟨henter.kept, henter.sorted, henter.queueStack, fun t' h' hopening => ?_, henter.bound⟩
    by_cases heq : t' = t
    · subst heq
      simp only [Function.update_self, Option.some.injEq] at hopening
      simp [State.enter, hopening]
    · simp only [Function.update_of_ne heq] at hopening
      exact henter.opening t' h' hopening
  | install t =>
    rw [step] at hstep
    split at hstep
    case h_1 main top rest hopening hstack =>
      obtain rfl := Option.some.inj hstep
      refine ⟨hs.kept, hs.sorted, hs.queueStack, opening_update hs t, fun c hc => ?_⟩
      rcases List.mem_append.mp hc with hold | hnew
      · exact hs.bound c hold
      · -- the handle of the connection is still on top
        have hhead := hs.opening t main hopening
        rw [hstack, List.head?_cons, Option.some.injEq] at hhead
        rw [List.mem_singleton.mp hnew]
        exact hhead
    case h_2 => cases hstep
  | openFails t =>
    obtain rfl := Option.some.inj hstep
    exact ⟨hs.kept, hs.sorted, hs.queueStack, opening_update hs t, hs.bound⟩
  | attach t cache start =>
    obtain ⟨hnot, hstep⟩ := Option.ite_none_right_eq_some.mp hstep
    obtain rfl := Option.some.inj hstep
    exact hs.enter hnot cache start
  | configSet c u =>
    rw [step] at hstep
    split at hstep
    · split at hstep
      · split at hstep
        · obtain rfl := Option.some.inj hstep
          exact hs.push (by assumption)
        · obtain rfl := Option.some.inj hstep
          exact hs
      · cases hstep
    · cases hstep
  | set t u =>
    obtain ⟨-, hstep⟩ := Option.ite_none_right_eq_some.mp hstep
    split at hstep
    case h_1 hset =>
      obtain rfl := Option.some.inj hstep
      exact hs.push (set_eq_ok hset).1
    case h_2 =>
      obtain rfl := Option.some.inj hstep
      exact hs
  | drain h =>
    rw [step] at hstep
    split at hstep
    · obtain ⟨-, hstep⟩ := Option.ite_none_right_eq_some.mp hstep
      obtain rfl := Option.some.inj hstep
      exact hs.modify h _ (fun _ hx => hx.drain) fun _ _ => Iff.rfl
    · cases hstep
  | drop t h =>
    obtain ⟨hguard, hstep⟩ := Option.ite_none_right_eq_some.mp hstep
    obtain rfl := Option.some.inj hstep
    refine hs.drop hguard.2 fun x hx => ?_
    have hlive := hguard.1
    rw [State.live, hx] at hlive
    exact Option.isNone_iff_eq_none.mp hlive

theorem inv_run {es : List (Event F)} (hrun : run (step n) {} es = some s) : Inv n s :=
  run_preserves (fun _ _ _ hi hs => inv_step hi hs) inv_init hrun

/-- Updates reach the handle they are meant for, whatever the threads do in between. The SQL function of a
connection pushes to the connection's own handle, also from another thread and after other handles were opened
or dropped, and leaves every other handle as it is. A handle applies what was pushed to it, once and in
order. `settings::set` goes to the handle that its thread opened last of those it has not dropped. -/
theorem settings_routed {es : List (Event F)} (hrun : run (step n) {} es = some s) :
    (∀ c u (s' : State F) conn, step n s (.configSet c u) = some s' → s.connections[c]? = some conn →
      (validate n u = .ok () → s' = s.push conn.main u) ∧
        ∀ h : Nat, h ≠ conn.main → s'.handles[h]? = s.handles[h]?) ∧
      (∀ x : Handle F, x ∈ s.handles → x.pushed = x.drained ++ x.queue ∧
        x.tuning = x.drained.foldl (Tuning.apply n) x.start) ∧
      ∀ t (h : Nat) rest, s.queueStack t = h :: rest →
        (∃ x : Handle F, s.handles[h]? = some x ∧ x.OpenOn t) ∧
        ∀ (h' : Nat) (x' : Handle F), s.handles[h']? = some x' → x'.OpenOn t → h' ≤ h := by
  have hinv := inv_run hrun
  refine ⟨?_, ?_, ?_⟩
  · intro c u s' conn hstep hconn
    have hbound := hinv.bound conn (List.mem_of_getElem? hconn)
    rw [step, hconn] at hstep
    obtain ⟨-, hstep⟩ := Option.ite_none_right_eq_some.mp hstep
    split at hstep
    case h_1 hvalid =>
      obtain rfl := Option.some.inj hstep
      rw [hbound]
      refine ⟨fun _ => rfl, fun h hne => ?_⟩
      rw [State.push, List.getElem?_modify_ne _ _ (Ne.symm hne)]
    case h_2 error hinvalid =>
      obtain rfl := Option.some.inj hstep
      refine ⟨fun hvalid => ?_, fun _ _ => rfl⟩
      rw [hvalid] at hinvalid
      cases hinvalid
  · intro x hx
    obtain ⟨h, hh⟩ := List.mem_iff_getElem?.mp hx
    exact ⟨(hinv.kept h x hh).pushed, (hinv.kept h x hh).tuning⟩
  · intro t h rest hstack
    have hsorted := hinv.sorted t
    rw [hstack, List.pairwise_cons] at hsorted
    refine ⟨(hinv.queueStack t h).mp (by rw [hstack]; exact List.mem_cons_self), fun h' x' hh' hopen => ?_⟩
    have hmem := (hinv.queueStack t h').mpr ⟨x', hh', hopen⟩
    rw [hstack] at hmem
    rcases List.mem_cons.mp hmem with rfl | hrest
    · exact Nat.le_refl _
    · exact Nat.le_of_lt (hsorted.1 h' hrest)

namespace Example

/-- Schedules in tenths; the values of the runs below are ones and zeros. -/
def tenths : Numbers Nat where
  parseF32 cs := if cs = ['1'] then some 10 else if cs = ['0'] then some 0 else none
  inRange := (· ≤ 10)
  parseByteSize := String.toNat?
  searchReset := [3, 3, 4]
  lookupReset := [0, 0, 0]

/-- The settings at the open. -/
def shipped : Tuning Nat :=
  ⟨[3, 3, 4], [0, 0, 0], true, true, none, false⟩

/-- A setting of the prefetch schedule. -/
def hops : SettingUpdate :=
  ⟨"prefetch", "1,0"⟩

/-- Two threads open connections, and the first attaches a file before the second binds its function. -/
def opens : List (Event Nat) :=
  [.xOpen 0 0 shipped, .xOpen 1 1 shipped, .install 0, .attach 0 2 shipped, .install 1]

end Example

open Example in
theorem example_settings_routed :
    ∃ s, run (step tenths) {} opens = some s ∧ s.queueStack 0 = [2, 0] ∧ ∀ u s',
      step tenths s (.configSet 0 u) = some s' → validate tenths u = .ok () → s' = s.push 0 u := by
  refine ⟨_, rfl, rfl, fun u s' hstep hvalid => ?_⟩
  have hrouted := settings_routed (show run (step tenths) {} opens = some _ from rfl)
  exact (hrouted.1 0 u s' ⟨0, 0⟩ hstep rfl).1 hvalid

/-! ### What an update does -/

/-- The settings that a handle applies. -/
inductive Field where
  | prefetchSearch
  | prefetchLookup
  | queryPlanPrefetch
  | lookaheadEnabled
  | cacheLimit
  | evictOnCheckpoint
  deriving DecidableEq, Repr

/-- The fields a key is about. -/
def fieldsOf : String → List Field
  | "prefetch" | "prefetch_reset" => [.prefetchSearch, .prefetchLookup]
  | "prefetch_search" => [.prefetchSearch]
  | "prefetch_lookup" => [.prefetchLookup]
  | "plan_aware" => [.queryPlanPrefetch]
  | "lookahead" => [.lookaheadEnabled]
  | "cache_limit" => [.cacheLimit]
  | "evict_on_checkpoint" => [.evictOnCheckpoint]
  | _ => []

/-- Two handles have the same value of one setting. -/
def Tuning.Agree (t t' : Tuning F) : Field → Prop
  | .prefetchSearch => t.prefetchSearch = t'.prefetchSearch
  | .prefetchLookup => t.prefetchLookup = t'.prefetchLookup
  | .queryPlanPrefetch => t.queryPlanPrefetch = t'.queryPlanPrefetch
  | .lookaheadEnabled => t.lookaheadEnabled = t'.lookaheadEnabled
  | .cacheLimit => t.cacheLimit = t'.cacheLimit
  | .evictOnCheckpoint => t.evictOnCheckpoint = t'.evictOnCheckpoint

/-- The tuning has what the update asks for. -/
def Tuning.Shows (n : Numbers F) (t : Tuning F) (u : SettingUpdate) : Prop :=
  match u.key with
  | "prefetch" => parseHops n u.value = some t.prefetchSearch ∧ parseHops n u.value = some t.prefetchLookup
  | "prefetch_search" => parseHops n u.value = some t.prefetchSearch
  | "prefetch_lookup" => parseHops n u.value = some t.prefetchLookup
  | "prefetch_reset" => t.prefetchSearch = n.searchReset ∧ t.prefetchLookup = n.lookupReset
  | "plan_aware" => t.queryPlanPrefetch = isTrue u.value
  | "lookahead" => t.lookaheadEnabled = isTrue u.value
  | "cache_limit" =>
    ∃ bytes, n.parseByteSize u.value = some bytes ∧ t.cacheLimit = if bytes = 0 then none else some bytes
  | "evict_on_checkpoint" => t.evictOnCheckpoint = isTrue u.value
  | _ => False

theorem Tuning.Agree.trans {t t' t'' : Tuning F} {f : Field} (h : t.Agree t' f) (h' : t'.Agree t'' f) :
    t.Agree t'' f := by
  cases f <;> exact Eq.trans h h'

theorem agree_apply {t : Tuning F} {f : Field} (hf : f ∉ fieldsOf u.key) : (t.apply n u).Agree t f := by
  unfold Tuning.apply
  split <;> rename_i hkey <;> (try split) <;> cases f <;>
    first
    | rfl
    | exact absurd hf (by simp [hkey, fieldsOf])

theorem agree_foldl {t : Tuning F} {f : Field} {us : List SettingUpdate}
    (hf : ∀ u ∈ us, f ∉ fieldsOf u.key) : (us.foldl (Tuning.apply n) t).Agree t f := by
  induction us generalizing t with
  | nil => cases f <;> rfl
  | cons u us ih =>
    obtain ⟨hu, hus⟩ := List.forall_mem_cons.mp hf
    exact (ih hus).trans (agree_apply hu)

theorem exists_of_check {α : Type} {o : Option α} {e : String}
    (h : (if o.isNone then Except.error e else Except.ok ()) = Except.ok ()) : ∃ a, o = some a := by
  cases o with
  | none => simp at h
  | some a => exact ⟨a, rfl⟩

theorem shows_apply {t : Tuning F} (hu : validate n u = .ok ()) : (t.apply n u).Shows n u := by
  unfold validate at hu
  split at hu
  case h_1 hkey | h_2 hkey | h_3 hkey =>
    obtain ⟨hops, hhops⟩ := exists_of_check hu
    simp [Tuning.apply, Tuning.Shows, hkey, hhops]
  case h_4 hkey | h_5 hkey | h_6 hkey | h_7 hkey => simp [Tuning.apply, Tuning.Shows, hkey]
  case h_8 hkey =>
    obtain ⟨bytes, hbytes⟩ := exists_of_check hu
    simp [Tuning.apply, Tuning.Shows, hkey, hbytes]
  case h_9 => cases hu

theorem shows_of_agree {t t' : Tuning F} (h : ∀ f ∈ fieldsOf u.key, t'.Agree t f) (ht : t.Shows n u) :
    t'.Shows n u := by
  unfold Tuning.Shows at ht ⊢
  split <;> rename_i hkey <;>
    simp only [hkey, fieldsOf, List.forall_mem_cons, Tuning.Agree] at h ht
  all_goals simpa only [h] using ht

/-- An update that was accepted shows in the handle from the drain that takes it until an update of one of the
same fields is drained: what `validate` accepts, the drain applies. -/
theorem settings_take_effect {es : List (Event F)} {pre post : List SettingUpdate}
    (hrun : run (step n) {} es = some s) (hx : x ∈ s.handles) (hdrained : x.drained = pre ++ u :: post)
    (hlater : ∀ v ∈ post, ∀ f ∈ fieldsOf u.key, f ∉ fieldsOf v.key) : x.tuning.Shows n u := by
  obtain ⟨h, hh⟩ := List.mem_iff_getElem?.mp hx
  have hkept := (inv_run hrun).kept h x hh
  have hvalid : validate n u = .ok () := by
    refine hkept.valid u ?_
    rw [hkept.pushed, hdrained]
    simp
  rw [hkept.tuning, hdrained, List.foldl_append, List.foldl_cons]
  exact shows_of_agree (fun f hf => agree_foldl fun v hv => hlater v hv f hf) (shows_apply hvalid)

theorem in_sync_apply {t : Tuning F} {budget : Nat} (hu : validate n u = .ok ())
    (h : u.key = "cache_limit" ∨ budget = t.cacheLimit.getD 0) :
    setCacheBudgetBytes n budget u = (t.apply n u).cacheLimit.getD 0 := by
  by_cases hkey : u.key = "cache_limit"
  · obtain ⟨bytes, hbytes, hlimit⟩ : ∃ bytes, n.parseByteSize u.value = some bytes ∧
        (t.apply n u).cacheLimit = if bytes = 0 then none else some bytes := by
      simpa [Tuning.Shows, hkey] using shows_apply (t := t) hu
    simp only [setCacheBudgetBytes, hkey, hbytes, hlimit, Option.getD_some]
    split <;> simp_all
  · have hfield : Field.cacheLimit ∉ fieldsOf u.key := by
      unfold fieldsOf
      split <;> simp_all
    have hsame : (t.apply n u).cacheLimit = t.cacheLimit := agree_apply hfield
    rw [hsame, ← h.resolve_left hkey]
    unfold setCacheBudgetBytes
    split <;> simp_all

/-- Once a limit is applied, the limit of the handle and the budget of its cache stay the same. -/
theorem in_sync_foldl {us : List SettingUpdate} {t : Tuning F} {budget : Nat}
    (hus : ∀ u ∈ us, validate n u = .ok ())
    (h : (∃ u ∈ us, u.key = "cache_limit") ∨ budget = t.cacheLimit.getD 0) :
    us.foldl (setCacheBudgetBytes n) budget = (us.foldl (Tuning.apply n) t).cacheLimit.getD 0 := by
  -- the limit is still to come, or the two agree already
  induction us generalizing t budget with
  | nil =>
    rcases h with ⟨u, hu, -⟩ | h
    · cases hu
    · exact h
  | cons v us ih =>
    obtain ⟨hv, hus⟩ := List.forall_mem_cons.mp hus
    refine ih hus ?_
    rcases h with ⟨u, hu, hkey⟩ | h
    · rcases List.mem_cons.mp hu with rfl | hu
      · exact .inr (in_sync_apply hv (.inl hkey))
      · exact .inl ⟨u, hu, hkey⟩
    · exact .inr (in_sync_apply hv (.inr h))

/-- A drain that takes a new limit leaves the handle and its cache with one budget. -/
theorem drain_budget {es : List (Event F)} (hrun : run (step n) {} es = some s)
    (hstep : step n s (.drain h) = some s') (hx : s.handles[h]? = some x) (hu : u ∈ x.queue)
    (hkey : u.key = "cache_limit") :
    ∃ x', s'.handles[h]? = some x' ∧ s'.budgets x'.cache = x'.tuning.cacheLimit.getD 0 := by
  have hkept := (inv_run hrun).kept h x hx
  rw [step, hx] at hstep
  obtain ⟨-, hstep⟩ := Option.ite_none_right_eq_some.mp hstep
  obtain rfl := Option.some.inj hstep
  refine ⟨x.drain n, getElem?_modify_eq_some.mpr ⟨x, hx, if_pos rfl⟩, ?_⟩
  have hvalid : ∀ v ∈ x.queue, validate n v = .ok () := by
    intro v hv
    refine hkept.valid v ?_
    rw [hkept.pushed]
    exact List.mem_append_right _ hv
  simp only [Handle.budgets, Handle.drain, Function.update_self]
  exact in_sync_foldl hvalid (.inl ⟨u, hu, hkey⟩)

namespace Example

/-- The connection sets a schedule and another field, and then reads. -/
def tuned : List (Event Nat) :=
  opens ++ [.configSet 0 hops, .configSet 0 ⟨"lookahead", "0"⟩, .drain 0]

end Example

open Example in
theorem example_settings_take_effect :
    ∃ s x, run (step tenths) {} tuned = some s ∧ s.handles[0]? = some x ∧
      x.drained = [hops, ⟨"lookahead", "0"⟩] ∧ x.tuning.Shows tenths hops := by
  refine ⟨_, _, rfl, rfl, rfl, ?_⟩
  exact settings_take_effect (show run (step tenths) {} tuned = some _ from rfl) List.mem_cons_self
    (show _ = [] ++ hops :: [⟨"lookahead", "0"⟩] from rfl) (by decide)

end Turbolite.Settings
