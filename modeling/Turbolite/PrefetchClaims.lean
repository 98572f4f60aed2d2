import Turbolite.Adoption
import Turbolite.Lib.Agents

/-!
# Turbolite.PrefetchClaims

Who fetches which group (`prefetch.rs`, `handle.rs`): submitters queue optional work, workers claim a
group once they have a permit, readers claim what they need now, and a reader whose wait is over cancels
the worker and takes its claim away. Queue membership, group state, the active and the cancelled groups
are four records, and a phase is what an agent does between two accesses to them. Gets, decodes and
writes are outcomes of a step; frame batches touch none of these records and are left out. The last
agent that claimed a group is kept on the side. `claims_iff` says when a Fetching group has a holder.
-/

namespace Turbolite.PrefetchClaims

open Runs Agents

/-! ### Agents -/

/-- The part of a `PrefetchJob` that decides what the worker does. -/
structure Job where
  gid : Nat
  manifestVersion : Nat
  replayEpoch : Nat := 0
  /-- the number of override frames -/
  overrides : Nat
  deriving DecidableEq, Repr

/-- The places where a worker looks at `cancelled_gids`. -/
inductive CheckPoint where
  | afterGet
  /-- with this many overrides to go -/
  | afterOverride (left : Nat)
  | final
  deriving DecidableEq, Repr

/-- How a reader stands to the replay gate. -/
inductive ReplayGate where
  /-- the handle has its `replay_read_guard` -/
  | holds
  /-- it takes the gate for writing when it cancels -/
  | takes
  /-- it has no gate -/
  | absent
  deriving DecidableEq, Repr

/-- A foreground read: its group, and whether it holds the replay gate. -/
structure Reader where
  gid : Nat
  gate : ReplayGate
  deriving DecidableEq, Repr

/-- Where an agent is in the source. -/
inductive Phase where
  /-- `submit_optional`, before the queue lock -/
  | submit (job : Job)
  /-- with the queue lock, past the look at the group state -/
  | insert (job : Job)
  | snapshotEpoch (job : Job)
  | send (job : Job)
  | sendFailed (gid : Nat)
  /-- a worker at `job_rx.recv` -/
  | idle
  | lookState (job : Job)
  | acquirePermit (job : Job)
  /-- with a permit from here to the end of the get -/
  | claim (job : Job)
  | activate (job : Job)
  | get (job : Job)
  | checkCancelled (job : Job) (place : CheckPoint)
  | decode (job : Job)
  | checkVersion (job : Job)
  /-- permit, get and cancellation of one override frame -/
  | getOverride (job : Job) (left : Nat)
  | decodeOverride (job : Job) (left : Nat)
  | enterGate (job : Job)
  | checkFinalVersion (job : Job)
  | checkFinalEpoch (job : Job)
  | write (job : Job)
  | install (job : Job)
  /-- `unclaim_if_fetching` on an error or stale path -/
  | release (gid : Nat) (gated : Bool)
  /-- `finish`, with its three removals -/
  | finishQueued (gid : Nat) (gated : Bool)
  | finishActive (gid : Nat) (gated : Bool)
  | finishCancelled (gid : Nat) (gated : Bool)
  /-- `read_exact_at` at the whole-group path -/
  | readState (r : Reader)
  /-- `wait_for_group`; a `retry` goes on to the claim, the others read what is there -/
  | waitGroup (r : Reader) (retry : Bool)
  | waitLast (r : Reader) (retry : Bool)
  /-- `clear_timed_out_fetching` -/
  | timedOut (r : Reader) (retry : Bool)
  | takeGate (r : Reader) (retry : Bool)
  | cancelOptional (r : Reader) (retry : Bool) (gated : Bool)
  | clearFetching (r : Reader) (retry : Bool) (gated : Bool)
  | readStateAgain (r : Reader)
  | readClaim (r : Reader)
  /-- get, decode and write of the group -/
  | readGet (r : Reader)
  | readInstall (r : Reader)
  | readRelease (r : Reader) (missing : Bool)
  | readReleaseAgain (r : Reader)
  /-- the fetch of group 0 by a new handle -/
  | openState
  | openClaim
  | openEpoch
  | openGet (epoch : Nat)
  | openGate (epoch : Nat)
  | openCheckEpoch (epoch : Nat)
  | openInstall
  | openRelease (gated : Bool)
  | done
  deriving DecidableEq, Repr

/-- How the outside part of a step ends. -/
inductive Outcome where
  | ok
  | failed
  /-- the object does not exist -/
  | missing
  deriving DecidableEq, Repr

/-- The cache, the sets of the pool, the channel and the agents. -/
structure State where
  cache : GroupCache
  /-- the last agent that claimed the group -/
  owner : Nat → Option Nat := fun _ => none
  queued : Nat → Bool := fun _ => false
  active : Nat → Bool := fun _ => false
  cancelled : Nat → Bool := fun _ => false
  queueLocked : Bool := false
  channel : List Job := []
  manifestVersion : Nat
  replayEpoch : Nat
  agents : List Phase := []

/-- What happens next; an agent moves by one step. -/
inductive Event where
  | submit (job : Job)
  /-- a worker thread starts -/
  | worker
  /-- an idle worker takes the oldest job -/
  | recv (i : Nat)
  | read (r : Reader)
  /-- a reader of one frame waits for a group that a worker fetches -/
  | readFrame (r : Reader)
  | openHandle
  /-- the next step of an agent -/
  | advance (i : Nat) (outcome : Outcome)
  | publish (version : Nat)
  /-- `finalize` of a replay -/
  | replay (pageNums : List Nat)
  /-- a read that finds the group without a claim, and marks it -/
  | mark (gid : Nat)
  | evict (gids : List Nat)
  | invalidate (gids : List Nat) (pagesPerGroup : Nat)
  | truncate (pageCount : Nat)
  | clear (live keep : List Nat) (drop : List SubChunkTier)

/-! ### The replay gate -/

namespace Phase

/-- The agent holds the gate for reading. -/
def readsGate : Phase → Bool
  | .checkCancelled _ .final | .checkFinalVersion _ | .checkFinalEpoch _ | .write _ | .install _ => true
  | .release _ gated | .finishQueued _ gated | .finishActive _ gated | .finishCancelled _ gated => gated
  | .readState r | .waitGroup r _ | .waitLast r _ | .timedOut r _ | .cancelOptional r _ _
  | .clearFetching r _ _ | .readStateAgain r | .readClaim r | .readGet r | .readInstall r
  | .readRelease r _ | .readReleaseAgain r => r.gate == .holds
  | .openCheckEpoch _ | .openInstall => true
  | .openRelease gated => gated
  | _ => false

/-- The agent has the gate to itself. -/
def writesGate : Phase → Bool
  | .cancelOptional _ _ gated | .clearFetching _ _ gated => gated
  | _ => false

end Phase

namespace State

/-- One agent goes on. -/
def move (s : State) (i : Nat) (phase : Phase) : State := { s with agents := s.agents.set i phase }

/-- The gate can be taken for a read. -/
def mayRead (s : State) : Bool := !s.agents.any Phase.writesGate

/-- The gate can be taken for a replay. -/
def mayWrite (s : State) : Bool := !s.agents.any Phase.writesGate && !s.agents.any Phase.readsGate

/-- A new agent. -/
def start (s : State) (phase : Phase) : State := { s with agents := s.agents ++ [phase] }

/-- `try_claim_group` by agent `i`. -/
def claim (s : State) (i gid : Nat) (claimed refused : Phase) : State :=
  match s.cache.tryClaimGroup gid with
  | some c => { s.move i claimed with cache := c, owner := Function.update s.owner gid (some i) }
  | none => s.move i refused

/-- `unclaim_if_fetching`. -/
def unclaim (s : State) (i gid : Nat) (next : Phase) : State :=
  { s.move i next with cache := s.cache.unclaimIfFetching gid }

/-- `mark_group_present`. -/
def markPresent (s : State) (i gid : Nat) (next : Phase) : State :=
  { s.move i next with cache := s.cache.markGroupPresent gid }

end State

/-! ### Steps -/

/-- The next override, or the gate. -/
def nextOverride (job : Job) : Nat → Phase
  | 0 => .enterGate job
  | left + 1 => .getOverride job left

/-- After the look at `cancelled_gids`. -/
def CheckPoint.next (job : Job) : CheckPoint → Phase
  | .afterGet => .decode job
  | .afterOverride left => .decodeOverride job left
  | .final => .checkFinalVersion job

/-- After `clear_timed_out_fetching` or a wait that was not needed any more. -/
def afterWait (r : Reader) (retry : Bool) : Phase := if retry then .readStateAgain r else .done

/-- The step of agent `i` in its phase. -/
def advance (s : State) (i : Nat) (outcome : Outcome) : Phase → Option State
  | .submit job =>
    if s.queueLocked then none
    else if s.cache.groupState job.gid = .none then some { s.move i (.insert job) with queueLocked := true }
    else some (s.move i .done)
  | .insert job =>
    if s.queued job.gid then some { s.move i .done with queueLocked := false }
    else some { s.move i (.snapshotEpoch job) with
      queued := Function.update s.queued job.gid true, queueLocked := false }
  | .snapshotEpoch job => some (s.move i (.send { job with replayEpoch := s.replayEpoch }))
  | .send job =>
    -- the channel may be full
    if outcome = .ok then some { s.move i .done with channel := s.channel ++ [job] }
    else some (s.move i (.sendFailed job.gid))
  | .sendFailed gid =>
    if s.queueLocked then none
    else some { s.move i .done with queued := Function.update s.queued gid false }
  | .lookState job =>
    some (s.move i (if s.cache.groupState job.gid = .none then .acquirePermit job
      else .finishQueued job.gid false))
  | .acquirePermit job =>
    some (s.move i (if outcome = .ok then .claim job else .finishQueued job.gid false))
  | .claim job => some (s.claim i job.gid (.activate job) (.finishQueued job.gid false))
  | .activate job => some { s.move i (.get job) with active := Function.update s.active job.gid true }
  | .get job =>
    some (s.move i (if outcome = .ok then .checkCancelled job .afterGet else .release job.gid false))
  | .checkCancelled job place =>
    -- the claim is left to whoever cancelled
    some (s.move i (if s.cancelled job.gid then .finishQueued job.gid (place == .final)
      else place.next job))
  | .decode job => some (s.move i (if outcome = .ok then .checkVersion job else .release job.gid false))
  | .checkVersion job =>
    some (s.move i (if s.manifestVersion = job.manifestVersion then nextOverride job job.overrides
      else .release job.gid false))
  | .getOverride job left =>
    some (s.move i (if outcome = .ok then .checkCancelled job (.afterOverride left)
      else .release job.gid false))
  | .decodeOverride job left =>
    some (s.move i (if outcome = .ok then nextOverride job left else .release job.gid false))
  | .enterGate job => if s.mayRead then some (s.move i (.checkCancelled job .final)) else none
  | .checkFinalVersion job =>
    some (s.move i (if s.manifestVersion = job.manifestVersion then .checkFinalEpoch job
      else .release job.gid true))
  | .checkFinalEpoch job =>
    some (s.move i (if s.replayEpoch = job.replayEpoch then .write job else .release job.gid true))
  | .write job => some (s.move i (if outcome = .ok then .install job else .release job.gid true))
  | .install job => some (s.markPresent i job.gid (.finishQueued job.gid true))
  | .release gid gated => some (s.unclaim i gid (.finishQueued gid gated))
  | .finishQueued gid gated =>
    if s.queueLocked then none
    else some { s.move i (.finishActive gid gated) with queued := Function.update s.queued gid false }
  | .finishActive gid gated =>
    some { s.move i (.finishCancelled gid gated) with active := Function.update s.active gid false }
  | .finishCancelled gid _ =>
    some { s.move i .idle with cancelled := Function.update s.cancelled gid false }
  | .readState r =>
    some (s.move i (if s.cache.groupState r.gid = .fetching then .waitGroup r true else .readStateAgain r))
  | .waitGroup r retry =>
    match s.cache.groupState r.gid with
    | .present => some (s.move i (afterWait r retry))
    | .none => some (s.move i (.waitLast r retry))
    -- the deadline, or another turn
    | .fetching => some (s.move i (if outcome = .ok then .waitGroup r retry else .timedOut r retry))
  | .waitLast r retry =>
    some (s.move i (if s.cache.groupState r.gid = .fetching then .timedOut r retry else afterWait r retry))
  | .timedOut r retry =>
    some (s.move i (if s.active r.gid then
        if r.gate = .takes then .takeGate r retry else .cancelOptional r retry false
      else .clearFetching r retry false))
  | .takeGate r retry => if s.mayWrite then some (s.move i (.cancelOptional r retry true)) else none
  | .cancelOptional r retry gated =>
    if s.active r.gid then
      some { s.move i (.clearFetching r retry gated) with
        cancelled := Function.update s.cancelled r.gid true }
    else some (s.move i (.clearFetching r retry false))
  | .clearFetching r retry _ => some (s.unclaim i r.gid (afterWait r retry))
  | .readStateAgain r =>
    some (s.move i (if s.cache.groupState r.gid = .present then .done else .readClaim r))
  | .readClaim r => some (s.claim i r.gid (.readGet r) (.waitGroup r false))
  | .readGet r =>
    some (s.move i (match outcome with
      | .ok => .readInstall r
      | .failed => .readRelease r false
      | .missing => .readRelease r true))
  | .readInstall r => some (s.markPresent i r.gid .done)
  | .readRelease r missing => some (s.unclaim i r.gid (if missing then .readReleaseAgain r else .done))
  | .readReleaseAgain r => some (s.unclaim i r.gid .done)
  | .openState => some (s.move i (if s.cache.groupState 0 = .present then .done else .openClaim))
  | .openClaim => some (s.claim i 0 .openEpoch .done)
  | .openEpoch => some (s.move i (.openGet s.replayEpoch))
  | .openGet epoch => some (s.move i (if outcome = .ok then .openGate epoch else .openRelease false))
  | .openGate epoch => if s.mayRead then some (s.move i (.openCheckEpoch epoch)) else none
  | .openCheckEpoch epoch =>
    some (s.move i (if s.replayEpoch = epoch then .openInstall else .openRelease true))
  | .openInstall => some (s.markPresent i 0 .done)
  | .openRelease _ => some (s.unclaim i 0 .done)
  | .idle | .done => none

variable (k : CacheConfig)

/-- The next state; none where the step does not apply. -/
def step (s : State) : Event → Option State
  | .submit job => some (s.start (.submit job))
  | .worker => some (s.start .idle)
  | .recv i =>
    match s.channel with
    | [] => none
    | job :: jobs =>
      if s.agents[i]? = some .idle then some { s.move i (.lookState job) with channel := jobs } else none
  | .read r => if r.gate = .holds ∧ s.mayRead = false then none else some (s.start (.readState r))
  | .readFrame r =>
    if r.gate = .holds ∧ s.mayRead = false then none
    else if s.cache.groupState r.gid = .fetching ∧ s.active r.gid = true then
      some (s.start (.waitGroup r false))
    else none
  | .openHandle => some (s.start .openState)
  | .advance i outcome => s.agents[i]?.bind (advance s i outcome)
  | .publish version => some { s with manifestVersion := version }
  | .replay pageNums =>
    if s.mayWrite then
      some { s with cache := s.cache.markPagesPresent pageNums, replayEpoch := s.replayEpoch + 1 }
    else none
  | .mark gid => some { s with cache := s.cache.markGroupPresent gid }
  | .evict gids => some { s with cache := s.cache.evictGroups k gids }
  | .invalidate gids ppg => some { s with
      cache := gids.foldl (fun c gid => c.distrustGroup gid ppg) s.cache }
  | .truncate pageCount => some { s with cache := s.cache.truncateTo k pageCount }
  | .clear live keep drop => some { s with cache := s.cache.clearTo k live keep drop }

/-! ### What a phase holds -/

namespace Phase

/-- The group whose claim the agent holds: from its `try_claim_group` to its `unclaim_if_fetching` or
`mark_group_present`, or to the exit it takes without them. -/
def claimOf : Phase → Option Nat
  | .activate job | .get job | .checkCancelled job _ | .decode job | .checkVersion job
  | .getOverride job _ | .decodeOverride job _ | .enterGate job | .checkFinalVersion job
  | .checkFinalEpoch job | .write job | .install job => some job.gid
  | .release gid _ => some gid
  | .readGet r | .readInstall r | .readRelease r _ => some r.gid
  | .openEpoch | .openGet _ | .openGate _ | .openCheckEpoch _ | .openInstall | .openRelease _ => some 0
  | _ => none

/-- The group whose entry in `queued_gids` is the agent's to remove. -/
def ticketOf : Phase → Option Nat
  | .snapshotEpoch job | .send job | .lookState job | .acquirePermit job | .claim job | .activate job
  | .get job | .checkCancelled job _ | .decode job | .checkVersion job | .getOverride job _
  | .decodeOverride job _ | .enterGate job | .checkFinalVersion job | .checkFinalEpoch job | .write job
  | .install job => some job.gid
  | .sendFailed gid | .release gid _ | .finishQueued gid _ => some gid
  | _ => none

/-- A worker with the permit for its get. -/
def holdsPermit : Phase → Bool
  | .claim _ | .activate _ | .get _ => true
  | _ => false

/-- A reader, or a handle that opens. -/
def foreground : Phase → Bool
  | .readClaim _ | .openClaim => true
  | _ => false

/-- The agent has a ticket of the group. -/
def hasTicket (gid : Nat) (phase : Phase) : Bool := phase.ticketOf == some gid

end Phase

/-- Every Fetching group is held by the agent that claimed it last. -/
def Held (s : State) : Prop :=
  ∀ gid, s.cache.groupState gid = .fetching →
    ∃ i phase, s.owner gid = some i ∧ s.agents[i]? = some phase ∧ phase.claimOf = some gid

/-- A group has an entry in `queued_gids` exactly if one job of it is in the channel or with an agent. -/
def Ticketed (s : State) : Prop :=
  ∀ gid, s.channel.countP (·.gid == gid) + s.agents.countP (Phase.hasTicket gid) = (s.queued gid).toNat

/-! ### States of groups -/

section States

variable {c c' : GroupCache} {gid g : Nat}

theorem groupState_tryClaimGroup (h : c.tryClaimGroup gid = some c') :
    c.groupState gid = .none ∧ c'.groupState = Function.update c.groupState gid .fetching := by
  unfold GroupCache.tryClaimGroup at h
  split at h
  · rename_i hnone
    cases h
    refine ⟨hnone, funext fun g => ?_⟩
    rw [Function.update_apply]
    refine (Blocks.getD_growSet ..).trans ?_
    by_cases hg : g = gid
    · simp [hg]
    · rw [if_neg hg, if_neg (Ne.symm hg)]
      rfl
  · cases h

theorem groupState_markGroupPresent :
    (c.markGroupPresent gid).groupState g = if gid = g then .present else c.groupState g :=
  Blocks.getD_growSet ..

theorem groupState_unclaimIfFetching : (c.unclaimIfFetching gid).groupState g =
    if c.groupState gid = .fetching ∧ gid = g then .none else c.groupState g := by
  unfold GroupCache.unclaimIfFetching
  by_cases hf : c.groupState gid = .fetching
  · rw [if_pos hf]
    refine (GroupCache.getD_states_set gid).trans ?_
    simp [hf]
  · rw [if_neg hf, if_neg fun h => hf h.1]

theorem groupState_foldl_distrustGroup (gids : List Nat) (ppg : Nat) :
    (gids.foldl (fun c gid => c.distrustGroup gid ppg) c).groupState g =
      if g ∈ gids then .none else c.groupState g := by
  induction gids generalizing c with
  | nil => simp
  | cons gid gids ih =>
    have hone : (c.distrustGroup gid ppg).groupState g = if gid = g then .none else c.groupState g :=
      GroupCache.getD_states_set gid
    rw [List.foldl_cons, ih, hone]
    by_cases hg : g ∈ gids
    · simp [hg]
    · by_cases heq : gid = g
      · simp [heq]
      · simp [hg, heq, Ne.symm heq]

/-- `mark_pages_present` lets no group start Fetching, and no Present group go. -/
theorem groupState_markPagesPresent (ps : List Nat) :
    (c.markPagesPresent ps).groupState g = .present ∨
      (c.markPagesPresent ps).groupState g = c.groupState g := by
  unfold GroupCache.groupState GroupCache.markPagesPresent
  dsimp only
  split
  · exact .inr rfl
  · generalize c.states = states
    induction ps generalizing states with
    | nil => exact .inr rfl
    | cons p ps ih =>
      rw [List.foldl_cons]
      rcases ih (Blocks.growSet .none states (p / c.pagesPerGroup) .present) with h | h
      · exact .inl h
      · rw [h, Blocks.getD_growSet]
        split
        · exact .inl rfl
        · exact .inr rfl

theorem fetching_markPagesPresent {ps : List Nat} (h : (c.markPagesPresent ps).groupState g = .fetching) :
    c.groupState g = .fetching := by
  rcases groupState_markPagesPresent (c := c) (g := g) ps with hp | hsame
  · rw [hp] at h
    cases h
  · exact hsame.symm.trans h

theorem fetching_evictGroups {k : CacheConfig} {gids : List Nat}
    (h : (c.evictGroups k gids).groupState g = .fetching) : c.groupState g = .fetching := by
  rw [GroupCache.groupState_evictGroups] at h
  split at h
  · cases h
  · exact h

/-- A cleared group is Present or None. -/
theorem groupState_clearTo_ne {k : CacheConfig} {live keep : List Nat} {drop : List SubChunkTier} :
    (c.clearTo k live keep drop).groupState g ≠ .fetching := by
  unfold GroupCache.groupState GroupCache.clearTo
  simp only [List.getD_eq_getElem?_getD, List.getElem?_mapIdx]
  cases c.states[g]? with
  | none =>
    rintro ⟨⟩
  | some st =>
    simp only [Option.map_some, Option.getD_some]
    split
    · rintro ⟨⟩
    · rintro ⟨⟩

end States

/-! ### One step of an agent -/

/-- What a step does to claims. -/
inductive ClaimMove (s s' : State) (i : Nat) (x a : Phase) : Prop where
  /-- no group is claimed, and the agent's claim is kept or released -/
  | keeps (owner : s'.owner = s.owner)
    (fetching : ∀ g, s'.cache.groupState g = .fetching → s.cache.groupState g = .fetching)
    (claim : ∀ g, x.claimOf = some g → a.claimOf = some g ∨ s'.cache.groupState g ≠ .fetching)
  | enters (g : Nat) (free : s.cache.groupState g = .none)
    (states : s'.cache.groupState = Function.update s.cache.groupState g .fetching)
    (owner : s'.owner = Function.update s.owner g (some i)) (claim : a.claimOf = some g)
    (before : x.claimOf = none) (may : (x.holdsPermit || x.foreground) = true)
  /-- a cancelled worker leaves its claim as it is -/
  | leaves (job : Job) (place : CheckPoint) (at_ : x = .checkCancelled job place)
    (cancelled : s.cancelled job.gid = true) (cache : s'.cache = s.cache) (owner : s'.owner = s.owner)
    (claim : a.claimOf = none)

/-- What a step does to the queue. -/
inductive TicketMove (s s' : State) (x a : Phase) : Prop where
  | keeps (channel : s'.channel = s.channel) (queued : s'.queued = s.queued)
    (ticket : x.ticketOf = a.ticketOf)
  | inserts (g : Nat) (free : s.queued g = false) (channel : s'.channel = s.channel)
    (queued : s'.queued = Function.update s.queued g true) (before : x.ticketOf = none)
    (ticket : a.ticketOf = some g)
  | sends (job : Job) (channel : s'.channel = s.channel ++ [job]) (queued : s'.queued = s.queued)
    (before : x.ticketOf = some job.gid) (ticket : a.ticketOf = none)
  | removes (g : Nat) (channel : s'.channel = s.channel)
    (queued : s'.queued = Function.update s.queued g false) (before : x.ticketOf = some g)
    (ticket : a.ticketOf = none)

/-- Agent `i` goes from `x` to `a`. -/
structure Moved (s s' : State) (i : Nat) (x a : Phase) : Prop where
  agents : s'.agents = s.agents.set i a
  present : ∀ g, s.cache.groupState g = .present → s'.cache.groupState g = .present
  claims : ClaimMove s s' i x a
  tickets : TicketMove s s' x a

section Moves

variable {s s' : State} {i : Nat} {outcome : Outcome} {x a : Phase}

/-- A step that touches no record of claims or of the queue. -/
theorem Moved.of_same (hagents : s'.agents = s.agents.set i a) (hcache : s'.cache = s.cache)
    (howner : s'.owner = s.owner) (hchannel : s'.channel = s.channel) (hqueued : s'.queued = s.queued)
    (hclaim : x.claimOf = a.claimOf) (hticket : x.ticketOf = a.ticketOf) : Moved s s' i x a where
  agents := hagents
  present g hg := by rw [hcache]; exact hg
  claims := by
    refine .keeps howner (fun g hg => ?_) fun g hg => .inl (hclaim ▸ hg)
    rw [hcache] at hg
    exact hg
  tickets := .keeps hchannel hqueued hticket

theorem Moved.of_move (hclaim : x.claimOf = a.claimOf) (hticket : x.ticketOf = a.ticketOf) :
    Moved s (s.move i a) i x a :=
  .of_same rfl rfl rfl rfl rfl hclaim hticket

/-- `try_claim_group`. -/
theorem moved_claim {gid : Nat} {claimed refused : Phase} (hbefore : x.claimOf = none)
    (hmay : (x.holdsPermit || x.foreground) = true) (hclaimed : claimed.claimOf = some gid)
    (hrefused : refused.claimOf = none) (hticket : x.ticketOf = claimed.ticketOf)
    (hticket' : x.ticketOf = refused.ticketOf) :
    ∃ a, Moved s (s.claim i gid claimed refused) i x a := by
  unfold State.claim
  cases hc : s.cache.tryClaimGroup gid with
  | none => exact ⟨refused, .of_move (hbefore.trans hrefused.symm) hticket'⟩
  | some c =>
    obtain ⟨hfree, hstates⟩ := groupState_tryClaimGroup hc
    refine ⟨claimed, rfl, fun g hg => ?_, .enters gid hfree hstates rfl hclaimed hbefore hmay,
      .keeps rfl rfl hticket⟩
    show c.groupState g = .present
    rw [hstates, Function.update_apply, if_neg]
    · exact hg
    · rintro rfl
      rw [hfree] at hg
      cases hg

/-- `unclaim_if_fetching`, by the holder or by somebody else. -/
theorem moved_unclaim {gid : Nat} (hclaim : ∀ g, x.claimOf = some g → g = gid)
    (hticket : x.ticketOf = a.ticketOf) : Moved s (s.unclaim i gid a) i x a where
  agents := rfl
  present g hg := by
    refine groupState_unclaimIfFetching.trans ?_
    rw [if_neg]
    · exact hg
    · rintro ⟨hf, rfl⟩
      rw [hg] at hf
      cases hf
  claims := by
    refine .keeps rfl (fun g hg => ?_) fun g hg => .inr fun hf => ?_
    · have hstate := groupState_unclaimIfFetching.symm.trans hg
      split at hstate
      · cases hstate
      · exact hstate
    · obtain rfl := hclaim g hg
      have hstate := groupState_unclaimIfFetching.symm.trans hf
      split at hstate
      · cases hstate
      · rename_i hnot
        exact hnot ⟨hstate, rfl⟩
  tickets := .keeps rfl rfl hticket

theorem moved_markPresent {gid : Nat} (hclaim : x.claimOf = some gid) (hticket : x.ticketOf = a.ticketOf) :
    Moved s (s.markPresent i gid a) i x a where
  agents := rfl
  present g hg := by
    refine groupState_markGroupPresent.trans ?_
    split
    · rfl
    · exact hg
  claims := by
    refine .keeps rfl (fun g hg => ?_) fun g hg => .inr fun hf => ?_
    · have hstate := groupState_markGroupPresent.symm.trans hg
      split at hstate
      · cases hstate
      · exact hstate
    · obtain rfl := Option.some.inj (hclaim.symm.trans hg)
      have hstate := groupState_markGroupPresent.symm.trans hf
      rw [if_pos rfl] at hstate
      cases hstate
  tickets := .keeps rfl rfl hticket

theorem claimOf_nextOverride (job : Job) (left : Nat) :
    (nextOverride job left).claimOf = some job.gid := by
  cases left <;> rfl

theorem ticketOf_nextOverride (job : Job) (left : Nat) :
    (nextOverride job left).ticketOf = some job.gid := by
  cases left <;> rfl

theorem claimOf_afterWait (r : Reader) (retry : Bool) : (afterWait r retry).claimOf = none := by
  cases retry <;> rfl

theorem ticketOf_afterWait (r : Reader) (retry : Bool) : (afterWait r retry).ticketOf = none := by
  cases retry <;> rfl

/-- The look at `cancelled_gids`. -/
theorem moved_checkCancelled {job : Job} {place : CheckPoint}
    (h : advance s i outcome (.checkCancelled job place) = some s') :
    ∃ a, Moved s s' i (.checkCancelled job place) a := by
  cases h
  by_cases hc : s.cancelled job.gid = true
  · refine ⟨.finishQueued job.gid (place == .final), ?_⟩
    rw [if_pos hc]
    exact ⟨rfl, fun g hg => hg, .leaves job place rfl hc rfl rfl rfl, .keeps rfl rfl rfl⟩
  · refine ⟨place.next job, ?_⟩
    rw [if_neg hc]
    exact .of_move (by cases place <;> rfl) (by cases place <;> rfl)

theorem moved_submit {job : Job} (h : advance s i outcome (.submit job) = some s') :
    ∃ a, Moved s s' i (.submit job) a := by
  simp only [advance] at h
  split at h
  · cases h
  · split at h
    · cases h
      exact ⟨.insert job, .of_same rfl rfl rfl rfl rfl rfl rfl⟩
    · cases h
      exact ⟨.done, .of_move rfl rfl⟩

theorem moved_insert {job : Job} (h : advance s i outcome (.insert job) = some s') :
    ∃ a, Moved s s' i (.insert job) a := by
  simp only [advance] at h
  split at h
  · cases h
    exact ⟨.done, .of_same rfl rfl rfl rfl rfl rfl rfl⟩
  · rename_i hfree
    cases h
    refine ⟨.snapshotEpoch job, rfl, fun g hg => hg, .keeps rfl (fun g hg => hg) fun g hg => ?_,
      .inserts job.gid (by simpa using hfree) rfl rfl rfl rfl⟩
    cases hg

theorem moved_send {job : Job} (h : advance s i outcome (.send job) = some s') :
    ∃ a, Moved s s' i (.send job) a := by
  simp only [advance] at h
  split at h
  · cases h
    refine ⟨.done, rfl, fun g hg => hg, .keeps rfl (fun g hg => hg) fun g hg => ?_,
      .sends job rfl rfl rfl rfl⟩
    cases hg
  · cases h
    exact ⟨.sendFailed job.gid, .of_move rfl rfl⟩

theorem moved_sendFailed {gid : Nat} (h : advance s i outcome (.sendFailed gid) = some s') :
    ∃ a, Moved s s' i (.sendFailed gid) a := by
  simp only [advance] at h
  split at h
  · cases h
  · cases h
    refine ⟨.done, rfl, fun g hg => hg, .keeps rfl (fun g hg => hg) fun g hg => ?_,
      .removes gid rfl rfl rfl rfl⟩
    cases hg

theorem moved_finishQueued {gid : Nat} {gated : Bool}
    (h : advance s i outcome (.finishQueued gid gated) = some s') :
    ∃ a, Moved s s' i (.finishQueued gid gated) a := by
  simp only [advance] at h
  split at h
  · cases h
  · cases h
    refine ⟨.finishActive gid gated, rfl, fun g hg => hg, .keeps rfl (fun g hg => hg) fun g hg => ?_,
      .removes gid rfl rfl rfl rfl⟩
    cases hg

theorem moved_checkVersion {job : Job} (h : advance s i outcome (.checkVersion job) = some s') :
    ∃ a, Moved s s' i (.checkVersion job) a := by
  cases h
  refine ⟨_, .of_move ?_ ?_⟩
  · split
    · exact (claimOf_nextOverride ..).symm
    · rfl
  · split
    · exact (ticketOf_nextOverride ..).symm
    · rfl

theorem moved_decodeOverride {job : Job} {left : Nat}
    (h : advance s i outcome (.decodeOverride job left) = some s') :
    ∃ a, Moved s s' i (.decodeOverride job left) a := by
  cases h
  refine ⟨_, .of_move ?_ ?_⟩
  · split
    · exact (claimOf_nextOverride ..).symm
    · rfl
  · split
    · exact (ticketOf_nextOverride ..).symm
    · rfl

theorem moved_waitGroup {r : Reader} {retry : Bool}
    (h : advance s i outcome (.waitGroup r retry) = some s') :
    ∃ a, Moved s s' i (.waitGroup r retry) a := by
  simp only [advance] at h
  split at h
  · cases h
    exact ⟨_, .of_move (claimOf_afterWait r retry).symm (ticketOf_afterWait r retry).symm⟩
  · cases h
    exact ⟨_, .of_move rfl rfl⟩
  · cases h
    refine ⟨_, .of_move ?_ ?_⟩
    · split <;> rfl
    · split <;> rfl

theorem moved_waitLast {r : Reader} {retry : Bool}
    (h : advance s i outcome (.waitLast r retry) = some s') :
    ∃ a, Moved s s' i (.waitLast r retry) a := by
  cases h
  refine ⟨_, .of_move ?_ ?_⟩
  · split
    · rfl
    · exact (claimOf_afterWait r retry).symm
  · split
    · rfl
    · exact (ticketOf_afterWait r retry).symm

theorem moved_timedOut {r : Reader} {retry : Bool}
    (h : advance s i outcome (.timedOut r retry) = some s') :
    ∃ a, Moved s s' i (.timedOut r retry) a := by
  cases h
  refine ⟨_, .of_move ?_ ?_⟩
  · split
    · split <;> rfl
    · rfl
  · split
    · split <;> rfl
    · rfl

/-- What an agent can do. -/
theorem moved_of_advance (h : advance s i outcome x = some s') : ∃ a, Moved s s' i x a := by
  cases x with
  | submit job => exact moved_submit h
  | insert job => exact moved_insert h
  | snapshotEpoch | openEpoch =>
    cases h
    exact ⟨_, .of_move rfl rfl⟩
  | send job => exact moved_send h
  | sendFailed gid => exact moved_sendFailed h
  | finishQueued gid gated => exact moved_finishQueued h
  | claim job =>
    cases h
    exact moved_claim rfl rfl rfl rfl rfl rfl
  | readClaim r =>
    cases h
    exact moved_claim rfl rfl rfl rfl rfl rfl
  | openClaim =>
    cases h
    exact moved_claim rfl rfl rfl rfl rfl rfl
  | checkCancelled job place => exact moved_checkCancelled h
  | release gid gated =>
    cases h
    exact ⟨_, moved_unclaim (fun g hg => (Option.some.inj hg).symm) rfl⟩
  | clearFetching r retry gated =>
    cases h
    refine ⟨_, moved_unclaim (fun g hg => ?_) (ticketOf_afterWait r retry).symm⟩
    cases hg
  | readRelease r missing =>
    cases h
    exact ⟨_, moved_unclaim (fun g hg => (Option.some.inj hg).symm) (by cases missing <;> rfl)⟩
  | readReleaseAgain r =>
    cases h
    refine ⟨_, moved_unclaim (fun g hg => ?_) rfl⟩
    cases hg
  | openRelease gated =>
    cases h
    exact ⟨_, moved_unclaim (fun g hg => (Option.some.inj hg).symm) rfl⟩
  | install job =>
    cases h
    exact ⟨_, moved_markPresent rfl rfl⟩
  | readInstall r =>
    cases h
    exact ⟨_, moved_markPresent rfl rfl⟩
  | openInstall =>
    cases h
    exact ⟨_, moved_markPresent rfl rfl⟩
  | activate job | finishActive gid gated | finishCancelled gid gated =>
    cases h
    exact ⟨_, .of_same rfl rfl rfl rfl rfl rfl rfl⟩
  | checkVersion job => exact moved_checkVersion h
  | decodeOverride job left => exact moved_decodeOverride h
  | enterGate job =>
    simp only [advance] at h
    split at h
    · cases h
      exact ⟨_, .of_move rfl rfl⟩
    · cases h
  | takeGate r retry =>
    simp only [advance] at h
    split at h
    · cases h
      exact ⟨_, .of_move rfl rfl⟩
    · cases h
  | openGate epoch =>
    simp only [advance] at h
    split at h
    · cases h
      exact ⟨_, .of_move rfl rfl⟩
    · cases h
  | lookState | acquirePermit | get | decode | getOverride | checkFinalVersion | checkFinalEpoch | write
  | readState | readStateAgain | openState | openGet | openCheckEpoch =>
    cases h
    refine ⟨_, .of_move ?_ ?_⟩
    · split <;> rfl
    · split <;> rfl
  | waitGroup r retry => exact moved_waitGroup h
  | waitLast r retry => exact moved_waitLast h
  | timedOut r retry => exact moved_timedOut h
  | cancelOptional r retry gated =>
    simp only [advance] at h
    split at h
    · cases h
      exact ⟨.clearFetching r retry gated, .of_same rfl rfl rfl rfl rfl rfl rfl⟩
    · cases h
      exact ⟨_, .of_move rfl rfl⟩
  | readGet r =>
    cases h
    refine ⟨_, .of_move ?_ ?_⟩
    · cases outcome <;> rfl
    · cases outcome <;> rfl
  | idle | done => cases h

end Moves

/-! ### The queue -/

section Queue

variable {s s' : State} {i : Nat} {x a : Phase}

theorem hasTicket_of_ne {g g' : Nat} (h : x.ticketOf = some g) (hne : g ≠ g') : x.hasTicket g' = false := by
  unfold Phase.hasTicket
  rw [h]
  exact beq_eq_false_iff_ne.mpr fun heq => hne (Option.some.inj heq)

theorem hasTicket_of_eq {g : Nat} (h : x.ticketOf = some g) : x.hasTicket g = true := by
  unfold Phase.hasTicket
  rw [h, beq_self_eq_true]

theorem hasTicket_of_none {g : Nat} (h : x.ticketOf = none) : x.hasTicket g = false := by
  unfold Phase.hasTicket
  rw [h]
  rfl

theorem Ticketed.of_moved (ht : Ticketed s) (hx : s.agents[i]? = some x) (hm : Moved s s' i x a) :
    Ticketed s' := by
  intro g
  have hbefore := ht g
  have hcount := countP_set_add hx a (Phase.hasTicket g)
  have hagents := hm.agents
  cases hm.tickets with
  | keeps hchannel hqueued hticket =>
    have hsame : x.hasTicket g = a.hasTicket g := by
      unfold Phase.hasTicket
      rw [hticket]
    rw [hsame] at hcount
    rw [hchannel, hqueued, hagents]
    omega
  | inserts g' hfree hchannel hqueued hnone hticket =>
    rw [hasTicket_of_none hnone] at hcount
    rw [hchannel, hqueued, hagents, Function.update_apply]
    by_cases hg : g = g'
    · subst hg
      rw [hasTicket_of_eq hticket] at hcount
      rw [hfree] at hbefore
      simp only [if_true, Bool.toNat_true, Bool.toNat_false] at hbefore hcount ⊢
      omega
    · rw [hasTicket_of_ne hticket (Ne.symm hg)] at hcount
      rw [if_neg hg]
      omega
  | sends job hchannel hqueued hticket hnone =>
    rw [hasTicket_of_none hnone] at hcount
    rw [hchannel, hqueued, hagents, countP_append_singleton]
    by_cases hg : job.gid = g
    · rw [hasTicket_of_eq (hg ▸ hticket)] at hcount
      simp only [hg, beq_self_eq_true, Bool.toNat_true, Bool.toNat_false] at hcount ⊢
      omega
    · rw [hasTicket_of_ne hticket hg] at hcount
      simp only [beq_eq_false_iff_ne.mpr hg, Bool.toNat_false] at hcount ⊢
      omega
  | removes g' hchannel hqueued hticket hnone =>
    rw [hasTicket_of_none hnone] at hcount
    rw [hchannel, hqueued, hagents, Function.update_apply]
    by_cases hg : g = g'
    · subst hg
      rw [hasTicket_of_eq hticket] at hcount
      have hone := Bool.toNat_le (s.queued g)
      simp only [if_true, Bool.toNat_true, Bool.toNat_false] at hcount ⊢
      omega
    · rw [hasTicket_of_ne hticket (Ne.symm hg)] at hcount
      rw [if_neg hg]
      omega

theorem Ticketed.start (ht : Ticketed s) (hnone : a.ticketOf = none) : Ticketed (s.start a) := by
  intro g
  show s.channel.countP _ + (s.agents ++ [a]).countP _ = _
  rw [countP_append_singleton, hasTicket_of_none hnone]
  exact ht g

/-- A worker takes over the entry of the job it receives. -/
theorem Ticketed.recv {job : Job} {jobs : List Job} (ht : Ticketed s) (hc : s.channel = job :: jobs)
    (hx : s.agents[i]? = some .idle) : Ticketed { s.move i (.lookState job) with channel := jobs } := by
  intro g
  have hbefore := ht g
  have hcount := countP_set_add hx (.lookState job) (Phase.hasTicket g)
  rw [hc, List.countP_cons, ite_eq_toNat] at hbefore
  rw [hasTicket_of_none rfl] at hcount
  show jobs.countP _ + (s.agents.set i (.lookState job)).countP _ = (s.queued g).toNat
  by_cases hg : job.gid = g
  · rw [hasTicket_of_eq (x := .lookState job) (congrArg some hg)] at hcount
    rw [hg, beq_self_eq_true] at hbefore
    simp only [Bool.toNat_true, Bool.toNat_false] at hbefore hcount
    omega
  · rw [hasTicket_of_ne (x := .lookState job) rfl hg] at hcount
    simp only [beq_eq_false_iff_ne.mpr hg, Bool.toNat_false] at hbefore hcount
    omega

/-- A job is received by an idle worker. -/
theorem recv_inv {i : Nat} (h : step k s (.recv i) = some s') : ∃ job jobs,
    s.channel = job :: jobs ∧ s.agents[i]? = some .idle ∧
      s' = { s.move i (.lookState job) with channel := jobs } := by
  simp only [step] at h
  split at h
  · cases h
  · rename_i job jobs hc
    simp only [Option.ite_none_right_eq_some, Option.some.injEq] at h
    exact ⟨job, jobs, hc, h.1, h.2.symm⟩

theorem read_inv {r : Reader} (h : step k s (.read r) = some s') : s' = s.start (.readState r) := by
  simp only [step, Option.ite_none_left_eq_some, Option.some.injEq] at h
  exact h.2.symm

theorem readFrame_inv {r : Reader} (h : step k s (.readFrame r) = some s') :
    s' = s.start (.waitGroup r false) := by
  simp only [step, Option.ite_none_left_eq_some, Option.ite_none_right_eq_some, Option.some.injEq] at h
  exact h.2.2.symm

theorem replay_inv {ps : List Nat} (h : step k s (.replay ps) = some s') :
    s' = { s with cache := s.cache.markPagesPresent ps, replayEpoch := s.replayEpoch + 1 } := by
  simp only [step, Option.ite_none_right_eq_some, Option.some.injEq] at h
  exact h.2.symm

theorem ticketed_step {e : Event} (ht : Ticketed s) (h : step k s e = some s') : Ticketed s' := by
  cases e with
  | submit | worker | openHandle =>
    cases h
    exact ht.start rfl
  | recv i =>
    obtain ⟨job, jobs, hc, hx, rfl⟩ := recv_inv k h
    exact ht.recv hc hx
  | read r =>
    obtain rfl := read_inv k h
    exact ht.start rfl
  | readFrame r =>
    obtain rfl := readFrame_inv k h
    exact ht.start rfl
  | advance i outcome =>
    obtain ⟨x, hx, hadvance⟩ := Option.bind_eq_some_iff.mp h
    obtain ⟨a, hm⟩ := moved_of_advance hadvance
    exact ht.of_moved hx hm
  | publish | mark | evict | invalidate | truncate | clear =>
    cases h
    exact ht
  | replay ps =>
    obtain rfl := replay_inv k h
    exact ht

/-- No two jobs of the channel are for one group. -/
theorem Ticketed.nodup_channel (ht : Ticketed s) : (s.channel.map (·.gid)).Nodup := by
  refine List.nodup_iff_count_le_one.mpr fun g => ?_
  have hcount : (s.channel.map (·.gid)).count g = s.channel.countP (·.gid == g) := by
    rw [List.count, List.countP_map]
    rfl
  have hone := Bool.toNat_le (s.queued g)
  have htickets := ht g
  omega

end Queue

/-! ### Claims -/

section Claims

variable {s s' : State} {e : Event}

/-- The events that take presence away. -/
def Event.drops : Event → Bool
  | .evict _ | .invalidate .. | .truncate _ | .clear .. => true
  | _ => false

/-- What a step does that no agent takes: no group starts Fetching, and who is there stays there. -/
structure Kept (s s' : State) : Prop where
  owner : s'.owner = s.owner
  fetching : ∀ g, s'.cache.groupState g = .fetching → s.cache.groupState g = .fetching
  holder : ∀ (i : Nat) (x : Phase) (g : Nat), s.agents[i]? = some x → x.claimOf = some g →
    s'.agents[i]? = some x

theorem Kept.of_same (howner : s'.owner = s.owner) (hagents : s'.agents = s.agents)
    (hfetching : ∀ g, s'.cache.groupState g = .fetching → s.cache.groupState g = .fetching) : Kept s s' where
  owner := howner
  fetching := hfetching
  holder i x g hx _ := by rw [hagents]; exact hx

theorem kept_start (s : State) (a : Phase) : Kept s (s.start a) where
  owner := rfl
  fetching _ hg := hg
  holder _ _ _ hx _ := (List.getElem?_append_left (lt_of_getElem?_eq_some hx)).trans hx

theorem kept_recv {i : Nat} {a : Phase} (hx : s.agents[i]? = some .idle) (jobs : List Job) :
    Kept s { s.move i a with channel := jobs } where
  owner := rfl
  fetching g hg := hg
  holder j y g hy hclaim := by
    refine (List.getElem?_set_ne ?_).trans hy
    rintro rfl
    obtain rfl := Option.some.inj (hx.symm.trans hy)
    cases hclaim

/-- What an event can do: it lets one agent go on, or it leaves the claims to their holders. -/
theorem step_cases (h : step k s e = some s') :
    (∃ i outcome x a, e = .advance i outcome ∧ s.agents[i]? = some x ∧ Moved s s' i x a) ∨
      Kept s s' ∧ (e.drops = false →
        ∀ g, s.cache.groupState g = .present → s'.cache.groupState g = .present) := by
  cases e with
  | submit job | worker | openHandle =>
    cases h
    exact .inr ⟨kept_start s _, fun _ g hg => hg⟩
  | recv i =>
    obtain ⟨job, jobs, -, hx, rfl⟩ := recv_inv k h
    exact .inr ⟨kept_recv hx _, fun _ g hg => hg⟩
  | read r =>
    obtain rfl := read_inv k h
    exact .inr ⟨kept_start s _, fun _ g hg => hg⟩
  | readFrame r =>
    obtain rfl := readFrame_inv k h
    exact .inr ⟨kept_start s _, fun _ g hg => hg⟩
  | advance i outcome =>
    obtain ⟨x, hx, hadvance⟩ := Option.bind_eq_some_iff.mp h
    obtain ⟨a, hm⟩ := moved_of_advance hadvance
    exact .inl ⟨i, outcome, x, a, rfl, hx, hm⟩
  | publish version =>
    cases h
    exact .inr ⟨.of_same rfl rfl fun g hg => hg, fun _ g hg => hg⟩
  | replay ps =>
    obtain rfl := replay_inv k h
    refine .inr ⟨.of_same rfl rfl fun g hg => fetching_markPagesPresent hg, fun _ g hg => ?_⟩
    rcases groupState_markPagesPresent (c := s.cache) (g := g) ps with hp | hsame
    · exact hp
    · exact hsame.trans hg
  | mark gid =>
    cases h
    refine .inr ⟨.of_same rfl rfl fun g hg => ?_, fun _ g hg => ?_⟩
    · have hstate := groupState_markGroupPresent.symm.trans hg
      split at hstate
      · cases hstate
      · exact hstate
    · refine groupState_markGroupPresent.trans ?_
      split
      · rfl
      · exact hg
  | evict gids =>
    cases h
    exact .inr ⟨.of_same rfl rfl fun g hg => fetching_evictGroups hg, fun hd => by cases hd⟩
  | invalidate gids ppg =>
    cases h
    refine .inr ⟨.of_same rfl rfl fun g hg => ?_, fun hd => by cases hd⟩
    have hstate := (groupState_foldl_distrustGroup gids ppg).symm.trans hg
    split at hstate
    · cases hstate
    · exact hstate
  | truncate n =>
    cases h
    refine .inr ⟨.of_same rfl rfl fun g hg => ?_, fun hd => by cases hd⟩
    refine (GroupCache.groupState_of_truncateTo (k := k) (n := n) ?_).trans hg
    rw [hg]
    rintro ⟨⟩
  | clear live keep drop =>
    cases h
    exact .inr ⟨.of_same rfl rfl fun g hg => (groupState_clearTo_ne hg).elim, fun hd => by cases hd⟩

/-- Only eviction and invalidation take presence away. -/
theorem present_step {g : Nat} (h : step k s e = some s') (hd : e.drops = false)
    (hp : s.cache.groupState g = .present) : s'.cache.groupState g = .present := by
  rcases step_cases k h with ⟨i, outcome, x, a, -, -, hm⟩ | ⟨-, hpresent⟩
  · exact hm.present g hp
  · exact hpresent hd g hp

/-- Only a worker with a permit, a reader or an open lets a group start Fetching. -/
theorem fetching_step {g : Nat} (h : step k s e = some s') (hbefore : s.cache.groupState g ≠ .fetching)
    (hafter : s'.cache.groupState g = .fetching) :
    ∃ i outcome x, e = .advance i outcome ∧ s.agents[i]? = some x ∧
      (x.holdsPermit = true ∨ x.foreground = true) := by
  rcases step_cases k h with ⟨i, outcome, x, a, he, hx, hm⟩ | ⟨hkept, -⟩
  · refine ⟨i, outcome, x, he, hx, ?_⟩
    cases hm.claims with
    | keeps howner hfetching hclaim => exact absurd (hfetching g hafter) hbefore
    | enters g' hfree hstates howner hclaim hnone hmay => exact Bool.or_eq_true_iff.mp hmay
    | leaves job place hat hcancelled hcache howner hnone =>
      rw [hcache] at hafter
      exact absurd hafter hbefore
  · exact absurd (hkept.fetching g hafter) hbefore

/-- No worker that finds its group cancelled goes while it holds the group: whoever cancelled has taken
the claim away by then. -/
def Released (s : State) : Event → Prop
  | .advance i _ => ∀ job place, s.agents[i]? = some (.checkCancelled job place) →
      s.cancelled job.gid = true →
        ¬ (s.cache.groupState job.gid = .fetching ∧ s.owner job.gid = some i)
  | _ => True

theorem Held.of_kept (hh : Held s) (hk : Kept s s') : Held s' := by
  intro g hg
  obtain ⟨i, x, hi, hx, hclaim⟩ := hh g (hk.fetching g hg)
  exact ⟨i, x, by rw [hk.owner]; exact hi, hk.holder i x g hx hclaim, hclaim⟩

theorem Held.of_moved {i : Nat} {outcome : Outcome} {x a : Phase} (hh : Held s)
    (hx : s.agents[i]? = some x) (hm : Moved s s' i x a) (hr : Released s (.advance i outcome)) :
    Held s' := by
  intro g hg
  have hself : s'.agents[i]? = some a := by
    rw [hm.agents]
    exact List.getElem?_set_self (lt_of_getElem?_eq_some hx)
  have hother : ∀ j y, j ≠ i → s.agents[j]? = some y → s'.agents[j]? = some y := by
    intro j y hne hy
    rw [hm.agents, List.getElem?_set_ne hne.symm]
    exact hy
  cases hm.claims with
  | keeps howner hfetching hclaim =>
    obtain ⟨j, y, hj, hy, hheld⟩ := hh g (hfetching g hg)
    rw [howner]
    by_cases hji : j = i
    · subst hji
      obtain rfl := Option.some.inj (hx.symm.trans hy)
      -- the holder itself steps, and the group is still Fetching
      exact ⟨j, a, hj, hself, (hclaim g hheld).resolve_right fun hne => hne hg⟩
    · exact ⟨j, y, hj, hother j y hji hy, hheld⟩
  | enters g' hfree hstates howner hclaim hnone hmay =>
    rw [hstates, Function.update_apply] at hg
    rw [howner, Function.update_apply]
    by_cases hgg : g = g'
    · subst hgg
      rw [if_pos rfl]
      exact ⟨i, a, rfl, hself, hclaim⟩
    · rw [if_neg hgg] at hg ⊢
      obtain ⟨j, y, hj, hy, hheld⟩ := hh g hg
      refine ⟨j, y, hj, hother j y ?_ hy, hheld⟩
      rintro rfl
      obtain rfl := Option.some.inj (hx.symm.trans hy)
      rw [hnone] at hheld
      cases hheld
  | leaves job place hat hcancelled hcache howner hnone =>
    rw [hcache] at hg
    rw [howner]
    obtain ⟨j, y, hj, hy, hheld⟩ := hh g hg
    refine ⟨j, y, hj, hother j y ?_ hy, hheld⟩
    rintro rfl
    obtain rfl := Option.some.inj (hx.symm.trans hy)
    subst hat
    obtain rfl : job.gid = g := Option.some.inj hheld
    exact hr job place hx hcancelled ⟨hg, hj⟩

theorem held_step (hh : Held s) (hr : Released s e) (h : step k s e = some s') : Held s' := by
  rcases step_cases k h with ⟨i, outcome, x, a, rfl, hx, hm⟩ | ⟨hkept, -⟩
  · exact hh.of_moved hx hm hr
  · exact hh.of_kept hkept

/-- A worker that goes while it holds the group leaves it without a holder. -/
theorem released_of_held (hnext : ∀ s', step k s e = some s' → Held s') : Released s e := by
  cases e with
  | advance i outcome =>
    rintro job place hx hcancelled ⟨hfetching, howner⟩
    have hstep : step k s (.advance i outcome) =
        some (s.move i (.finishQueued job.gid (place == .final))) := by
      simp only [step, hx, Option.bind_some, advance, hcancelled, if_true]
    obtain ⟨j, y, hj, hy, hheld⟩ := hnext _ hstep job.gid hfetching
    obtain rfl : i = j := Option.some.inj (howner.symm.trans hj)
    obtain rfl := Option.some.inj
      ((List.getElem?_set_self (lt_of_getElem?_eq_some hx)).symm.trans hy)
    cases hheld
  | _ => trivial

end Claims

/-! ### Runs -/

/-- What the agents find when the first of them starts: a cache, a manifest version and an epoch. No
group is Fetching yet. -/
structure Opened where
  cache : GroupCache
  manifestVersion : Nat
  replayEpoch : Nat
  settled : ∀ gid, cache.groupState gid ≠ .fetching

/-- The state at the open. -/
def Opened.start (o : Opened) : State where
  cache := o.cache
  manifestVersion := o.manifestVersion
  replayEpoch := o.replayEpoch

theorem Opened.held (o : Opened) : Held o.start := fun gid hg => absurd hg (o.settled gid)

theorem Opened.ticketed (o : Opened) : Ticketed o.start := fun _ => rfl

/-- In every run no group is queued twice, a group starts Fetching only by a worker with a permit or by
a reader, and presence is lost only to eviction and invalidation. Every Fetching group has its holder all
the time exactly if no cancelled worker goes before its claim is taken away. -/
theorem claims_iff (o : Opened) (es : List Event) :
    (∀ es₁ e es₂ m s', es = es₁ ++ e :: es₂ → run (step k) o.start es₁ = some m →
      step k m e = some s' →
        (s'.channel.map (·.gid)).Nodup ∧
        (∀ g, m.cache.groupState g ≠ .fetching → s'.cache.groupState g = .fetching →
          ∃ i outcome x, e = .advance i outcome ∧ m.agents[i]? = some x ∧
            (x.holdsPermit = true ∨ x.foreground = true)) ∧
        (e.drops = false →
          ∀ g, m.cache.groupState g = .present → s'.cache.groupState g = .present)) ∧
    ((∀ es₁ es₂ s, es = es₁ ++ es₂ → run (step k) o.start es₁ = some s → Held s) ↔
      Meets (step k) Released o.start es) := by
  refine ⟨fun es₁ e es₂ m s' _ hr hs => ⟨?_, fun g => fetching_step k hs, fun hd g => present_step k hs hd⟩,
    fun hheld => ?_, fun hm es₁ es₂ s heq hr => ?_⟩
  · have hmid : Ticketed m := run_preserves (fun _ _ _ => ticketed_step k) o.ticketed hr
    exact (ticketed_step k hmid hs).nodup_channel
  · refine Meets.of_prefixes fun es₁ e es₂ m heq hr => released_of_held k fun s' hs => ?_
    refine hheld (es₁ ++ [e]) es₂ s' (by rw [heq, List.append_assoc]; rfl) ?_
    exact run_append.mpr ⟨m, hr, run_cons.mpr ⟨s', hs, rfl⟩⟩
  · subst heq
    exact run_invariant (fun _ _ _ => held_step k) o.held hm.of_append hr

/-! ### A record that outlives its worker -/

namespace Example

/-- Two pages in one group, and nothing is cached. -/
def opened : Opened where
  cache := { pagesPerGroup := 2, subPagesPerFrame := 2, groupPages := [[0, 1]] }
  manifestVersion := 1
  replayEpoch := 0
  settled gid h := by cases h

/-- A job for the group 0. -/
def job : Job := { gid := 0, manifestVersion := 1, overrides := 0 }

/-- Agent `i` goes on for `n` steps. -/
def goOn (i n : Nat) : List Event := List.replicate n (.advance i .ok)

/-- Agent 1 works on the group, and agent 2 cancels it and takes its claim away. Agent 1 ends its job, but
before it has removed the group from `cancelled_gids` agent 3 submits the group again and agent 4 works
on it. -/
def events : List Event :=
  .submit job :: goOn 0 4 ++ [.worker, .recv 1] ++ goOn 1 4 ++
    [.readFrame ⟨0, .holds⟩, .advance 2 .failed] ++ goOn 2 3 ++ goOn 1 3 ++
    .submit job :: goOn 3 4 ++ [.worker, .recv 4] ++ goOn 4 9 ++ goOn 1 2

end Example

/-- Agent 4 takes the old entry for its own cancellation. In the end every agent is done, and the group
is Fetching. -/
theorem cancelled_again_unheld : ∃ s, run (step CacheRestart.Example.config) Example.opened.start
      Example.events = some s ∧ s.cache.groupState 0 = .fetching ∧
    (∀ phase ∈ s.agents, phase = .idle ∨ phase = .done) ∧ ¬ Held s := by
  have hrun : run (step CacheRestart.Example.config) Example.opened.start Example.events = some _ := rfl
  refine ⟨_, hrun, rfl, by decide, fun hheld => ?_⟩
  obtain ⟨i, x, hi, hx, hclaim⟩ := hheld 0 rfl
  cases hi
  cases hx
  cases hclaim

end Turbolite.PrefetchClaims
