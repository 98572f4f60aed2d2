import Mathlib.Data.Finset.Basic
import Mathlib.Data.List.Dedup
import Mathlib.Data.List.Sort
import Turbolite.CacheGroups
import Turbolite.Lib.Agents
import Turbolite.Lib.Runs

/-!
# Turbolite.FrameBatches

Frame batches and the number of outstanding jobs of the pool (`submit_frame_batch`, the workers,
`wait_idle`). A submitter reserves the frames of its batch in `queued_frame_ids`, counts the job, and sends
it; a worker notes the frames as active, fetches them, and takes them out of both sets before it counts the
job as done. A phase is what an agent does between two accesses to the sets, the counter and the channel.

What the cache, the permits, the storage and the replay gate answer is an argument of the step. Jobs for a
whole group share the channel and the counter; their own sets are in `Turbolite.PrefetchClaims`.
-/

namespace Turbolite.FrameBatches

open Runs Agents

/-! ### Batches -/

/-- `sub_chunk_id_for_frame`. -/
def subChunkIdForFrame (gid frameIdx : Nat) : Option SubChunkId :=
  if gid < 2 ^ 32 ∧ frameIdx < 2 ^ 16 then some ⟨gid, frameIdx⟩ else none

/-- `frame_ids_for`. -/
def frameIdsFor (gid : Nat) (frames : List Nat) : List SubChunkId :=
  frames.filterMap (subChunkIdForFrame gid)

/-- The arguments of `submit_frame_batch`. -/
structure Request where
  gid : Nat
  frameTableLen : Nat
  subPpf : Nat
  groupPageNums : List Nat
  frameIndices : List Nat
  deriving DecidableEq, Repr

/-- The part of a `PrefetchJob` the accounting depends on. -/
structure Job where
  gid : Nat
  frameTableLen : Nat
  /-- `none` for a whole group -/
  frameIndices : Option (List Nat)
  deriving DecidableEq, Repr

/-- The frames of a batch. -/
def Job.ids (job : Job) : List SubChunkId := frameIdsFor job.gid (job.frameIndices.getD [])

/-- What a step meets outside of the sets. -/
structure Look where
  /-- the `present` set of the tracker -/
  present : SubChunkId → Bool := fun _ => false
  /-- `cache.is_present` -/
  isPresent : Nat → Bool := fun _ => false
  /-- there is a permit, a receiver, an object, and so on -/
  ok : Bool := true

/-- The frames a request is about, in order. -/
def Request.frames (r : Request) : List Nat :=
  if r.frameTableLen = 0 ∨ r.subPpf = 0 then []
  else (r.frameIndices.insertionSort (· ≤ ·)).dedup.filter (· < r.frameTableLen)

/-- Some page of the frame is not in the cache. -/
def Request.cold (r : Request) (look : Look) (frameIdx : Nat) : Bool :=
  ((r.groupPageNums.drop (frameIdx * r.subPpf)).take r.subPpf).any fun pnum => !look.isPresent pnum

/-- The loop of `submit_frame_batch`, with both sets locked: the queued frames after it, and the accepted ones. -/
def choose (r : Request) (look : Look) (active : Finset SubChunkId) :
    List Nat → Finset SubChunkId → Finset SubChunkId × List Nat
  | [], queued => (queued, [])
  | frameIdx :: frames, queued =>
    match subChunkIdForFrame r.gid frameIdx with
    | none => choose r look active frames queued
    | some id =>
      if look.present id = true ∨ id ∈ queued ∨ id ∈ active then choose r look active frames queued
      else if r.cold look frameIdx then
        let c := choose r look active frames (insert id queued)
        (c.1, frameIdx :: c.2)
      else choose r look active frames queued

/-- The frames a worker goes on to fetch. -/
def Job.framesToFetch (job : Job) (look : Look) : List Nat :=
  ((job.frameIndices.getD []).filter fun frameIdx =>
    match subChunkIdForFrame job.gid frameIdx with
    | some id => !look.present id
    | none => false).filter (· < job.frameTableLen)

/-! ### Agents -/

/-- Where an agent is in the source. -/
inductive Phase where
  /-- `submit_frame_batch`, before it takes the two locks -/
  | choose (r : Request)
  | count (job : Job)
  | send (job : Job)
  /-- the channel was full or closed -/
  | uncount (job : Job)
  | unqueue (job : Job)
  /-- a worker at `job_rx.recv` -/
  | idle
  | activate (job : Job)
  | permit (job : Job)
  | select (job : Job)
  | fetch (job : Job) (frames : List Nat)
  /-- the replay gate, its checks, and the writes -/
  | install (job : Job)
  /-- the whole of a group job, up to the removals of `finish` -/
  | group (job : Job)
  | finishFrame (job : Job)
  | finishCommon
  | done
  deriving DecidableEq, Repr

/-- The channel, the two sets of frames and the agents. -/
structure State where
  inFlight : Nat := 0
  channel : List Job := []
  queuedFrameIds : Finset SubChunkId := ∅
  activeFrameIds : Finset SubChunkId := ∅
  agents : List Phase := []
  deriving DecidableEq

/-- What happens next; an agent moves by one step. -/
inductive Event where
  | submitFrames (r : Request)
  /-- `submit_optional`, once the group is in `queued_gids` -/
  | submitGroup (gid frameTableLen : Nat)
  /-- a worker thread starts -/
  | worker
  /-- an idle worker takes the oldest job -/
  | recv (i : Nat)
  /-- the next step of an agent -/
  | advance (i : Nat) (look : Look)

namespace State

/-- One agent goes on. -/
def move (s : State) (i : Nat) (phase : Phase) : State := { s with agents := s.agents.set i phase }

/-- A new agent. -/
def start (s : State) (phase : Phase) : State := { s with agents := s.agents ++ [phase] }

end State

variable (capacity : Nat)

/-- The step of agent `i` in its phase. -/
def advance (s : State) (i : Nat) (look : Look) : Phase → Option State
  | .choose r =>
    let c := choose r look s.activeFrameIds r.frames s.queuedFrameIds
    some (if c.2 = [] then s.move i .done
      else { s.move i (.count ⟨r.gid, r.frameTableLen, some c.2⟩) with queuedFrameIds := c.1 })
  | .count job => some { s.move i (.send job) with inFlight := s.inFlight + 1 }
  | .send job =>
    some (if look.ok = true ∧ s.channel.length < capacity then
        { s.move i .done with channel := s.channel ++ [job] }
      else s.move i (.uncount job))
  | .uncount job => some { s.move i (.unqueue job) with inFlight := s.inFlight - 1 }
  | .unqueue job => some { s.move i .done with queuedFrameIds := s.queuedFrameIds \ job.ids.toFinset }
  | .activate job => some { s.move i (.permit job) with activeFrameIds := s.activeFrameIds ∪ job.ids.toFinset }
  | .permit job => some (s.move i (if look.ok then .select job else .finishFrame job))
  | .select job =>
    some (s.move i (if job.framesToFetch look = [] then .finishFrame job
      else .fetch job (job.framesToFetch look)))
  | .fetch job _ => some (s.move i (if look.ok then .install job else .finishFrame job))
  | .install job => some (s.move i (.finishFrame job))
  | .group _ => some (s.move i .finishCommon)
  | .finishFrame job =>
    some { s.move i .finishCommon with
      queuedFrameIds := s.queuedFrameIds \ job.ids.toFinset
      activeFrameIds := s.activeFrameIds \ job.ids.toFinset }
  | .finishCommon => some { s.move i .idle with inFlight := s.inFlight - 1 }
  | .idle | .done => none

/-- Where a worker begins with a job. -/
def Job.begin (job : Job) : Phase :=
  match job.frameIndices with
  | none => .group job
  | some _ => .activate job

/-- The next state; none where the step does not apply. -/
def step (s : State) : Event → Option State
  | .submitFrames r => some (s.start (.choose r))
  | .submitGroup gid frameTableLen => some (s.start (.count ⟨gid, frameTableLen, none⟩))
  | .worker => some (s.start .idle)
  | .recv i =>
    match s.channel with
    | [] => none
    | job :: jobs =>
      if s.agents[i]? = some .idle then some { s.move i job.begin with channel := jobs } else none
  | .advance i look => s.agents[i]?.bind (advance capacity s i look)

/-! ### Who holds what -/

namespace Phase

/-- The frames the agent answers for. -/
def ids : Phase → List SubChunkId
  | .count job | .send job | .uncount job | .unqueue job | .activate job | .permit job | .select job
  | .fetch job _ | .install job | .finishFrame job => job.ids
  | _ => []

/-- The frames the agent has noted as active. -/
def activated : Phase → List SubChunkId
  | .permit job | .select job | .fetch job _ | .install job | .finishFrame job => job.ids
  | _ => []

/-- The frames the agent asks the storage for. -/
def fetched : Phase → List SubChunkId
  | .fetch job frames => frameIdsFor job.gid frames
  | _ => []

/-- The job of the agent is counted. -/
def counted : Phase → Bool
  | .choose _ | .count _ | .unqueue _ | .idle | .done => false
  | _ => true

/-- The agent is a worker. -/
def isWorker : Phase → Bool
  | .choose _ | .count _ | .send _ | .uncount _ | .unqueue _ | .done => false
  | _ => true

theorem activated_subset_ids (p : Phase) : p.activated ⊆ p.ids := by
  cases p <;> simp [activated, ids]

theorem activated_of_not_counted {p : Phase} (h : p.counted = false) : p.activated = [] := by
  cases p <;> simp_all [activated, counted]

end Phase

/-- How often a set has the frame. -/
def bit (ids : Finset SubChunkId) (id : SubChunkId) : Nat := if id ∈ ids then 1 else 0

theorem bit_le_one (ids : Finset SubChunkId) (id : SubChunkId) : bit ids id ≤ 1 := by
  unfold bit
  split <;> omega

theorem mem_of_bit_pos {ids : Finset SubChunkId} {id : SubChunkId} (h : 0 < bit ids id) : id ∈ ids := by
  by_contra hnot
  simp [bit, hnot] at h

@[simp] theorem bit_of_mem {ids : Finset SubChunkId} {id : SubChunkId} (h : id ∈ ids) : bit ids id = 1 :=
  if_pos h

@[simp] theorem bit_of_not_mem {ids : Finset SubChunkId} {id : SubChunkId} (h : id ∉ ids) :
    bit ids id = 0 := if_neg h

/-- Each frame has at most one owner, which the sets and the count know. -/
structure Inv (s : State) : Prop where
  inFlight : s.inFlight = s.channel.length + s.agents.countP Phase.counted
  queued : ∀ id, s.channel.countP (fun job => decide (id ∈ job.ids)) +
    s.agents.countP (fun p => decide (id ∈ p.ids)) = bit s.queuedFrameIds id
  active : ∀ id, s.agents.countP (fun p => decide (id ∈ p.activated)) =
    bit s.activeFrameIds id
  fetched : ∀ p ∈ s.agents, p.fetched ⊆ p.ids

variable {capacity} {s s' : State} {i : Nat} {p q : Phase} {look : Look} {job : Job} {id : SubChunkId}

theorem inv_init : Inv {} where
  inFlight := rfl
  queued := by simp
  active := by simp
  fetched := by simp

theorem mem_frameIdsFor {gid : Nat} {frames : List Nat} :
    id ∈ frameIdsFor gid frames ↔ ∃ frameIdx ∈ frames, subChunkIdForFrame gid frameIdx = some id :=
  List.mem_filterMap

/-- A batch takes frames that are not queued, and queues them. -/
theorem choose_spec {r : Request} {active queued : Finset SubChunkId} {frames : List Nat} :
    (∀ id, id ∈ (choose r look active frames queued).1 ↔
      id ∈ queued ∨ id ∈ frameIdsFor r.gid (choose r look active frames queued).2) ∧
      ∀ id ∈ frameIdsFor r.gid (choose r look active frames queued).2, id ∉ queued := by
  induction frames generalizing queued with
  | nil => simp [choose, frameIdsFor]
  | cons frameIdx frames ih =>
    unfold choose
    split
    · exact ih
    case h_2 id hid =>
      split
      · exact ih
      · split
        case isTrue hfree _ =>
          obtain ⟨hmem, hnew⟩ := @ih (insert id queued)
          simp only [frameIdsFor, List.filterMap_cons_some hid] at hmem hnew ⊢
          constructor
          · intro id'
            rw [hmem, Finset.mem_insert, List.mem_cons]
            tauto
          · intro id' hid'
            rcases List.mem_cons.mp hid' with rfl | hlater
            · exact fun hin => hfree (.inr (.inl hin))
            · exact fun hin => hnew id' hlater (Finset.mem_insert_of_mem hin)
        · exact ih

theorem framesToFetch_ids_subset (job : Job) (look : Look) :
    frameIdsFor job.gid (job.framesToFetch look) ⊆ job.ids := by
  intro id hid
  obtain ⟨frameIdx, hmem, hsome⟩ := mem_frameIdsFor.mp hid
  exact mem_frameIdsFor.mpr ⟨frameIdx, List.mem_of_mem_filter (List.mem_of_mem_filter hmem), hsome⟩

/-! ### Steps -/

theorem mem_agents (hi : s.agents[i]? = some p) : p ∈ s.agents := List.mem_of_getElem? hi

namespace Inv

/-- A frame an agent answers for is queued. -/
theorem queued_of_mem (h : Inv s) (hi : s.agents[i]? = some p) (hid : id ∈ p.ids) :
    id ∈ s.queuedFrameIds := by
  have hcount := h.queued id
  have hpos := toNat_le_countP hi fun p => decide (id ∈ p.ids)
  rw [decide_eq_true hid, Bool.toNat_true] at hpos
  exact mem_of_bit_pos (by omega)

theorem active_of_mem (h : Inv s) (hi : s.agents[i]? = some p) (hid : id ∈ p.activated) :
    id ∈ s.activeFrameIds := by
  have hcount := h.active id
  have hpos := toNat_le_countP hi fun p => decide (id ∈ p.activated)
  rw [decide_eq_true hid, Bool.toNat_true] at hpos
  exact mem_of_bit_pos (by omega)

theorem inFlight_pos (h : Inv s) (hi : s.agents[i]? = some p) (hcounted : p.counted = true) :
    0 < s.inFlight := by
  have hpos := toNat_le_countP hi Phase.counted
  have hcount := h.inFlight
  rw [hcounted, Bool.toNat_true] at hpos
  omega

/-- A worker that has not noted its frames yet finds none of them noted. -/
theorem not_active (h : Inv s) (hi : s.agents[i]? = some p) (hid : id ∈ p.ids) (hnot : id ∉ p.activated) :
    id ∉ s.activeFrameIds := by
  intro hin
  have hqueued := h.queued id
  have hactive := h.active id
  -- the other agents answer for none of its frames, and note only what they answer for
  have hothers := countP_eraseIdx_add hi fun p => decide (id ∈ p.ids)
  have hnoted := countP_eraseIdx_add hi fun p => decide (id ∈ p.activated)
  have hle : (s.agents.eraseIdx i).countP (fun p => decide (id ∈ p.activated)) ≤
      (s.agents.eraseIdx i).countP fun p => decide (id ∈ p.ids) := by
    refine List.countP_mono_left fun q _ hq => ?_
    exact decide_eq_true (q.activated_subset_ids (of_decide_eq_true hq))
  have hbit := bit_le_one s.queuedFrameIds id
  rw [decide_eq_true hid, Bool.toNat_true] at hothers
  rw [decide_eq_false hnot, Bool.toNat_false] at hnoted
  rw [bit_of_mem hin] at hactive
  omega

/-- What a step of one agent has to balance. -/
theorem of_move (h : Inv s) (hi : s.agents[i]? = some p) (hagents : s'.agents = s.agents.set i q)
    (hfetched : q.fetched ⊆ q.ids)
    (hcounted : s'.inFlight + s.channel.length + p.counted.toNat =
      s.inFlight + s'.channel.length + q.counted.toNat)
    (hqueued : ∀ id, bit s'.queuedFrameIds id +
        s.channel.countP (fun job => decide (id ∈ job.ids)) + (decide (id ∈ p.ids)).toNat =
      bit s.queuedFrameIds id + s'.channel.countP (fun job => decide (id ∈ job.ids)) +
        (decide (id ∈ q.ids)).toNat)
    (hactive : ∀ id, bit s'.activeFrameIds id + (decide (id ∈ p.activated)).toNat =
      bit s.activeFrameIds id + (decide (id ∈ q.activated)).toNat) : Inv s' := by
  constructor
  · have hmove := countP_set_add hi q Phase.counted
    have hold := h.inFlight
    rw [hagents]
    omega
  · intro id
    have hmove := countP_set_add hi q fun p => decide (id ∈ p.ids)
    have hold := h.queued id
    have hbalance := hqueued id
    rw [hagents]
    omega
  · intro id
    have hmove := countP_set_add hi q fun p => decide (id ∈ p.activated)
    have hold := h.active id
    have hbalance := hactive id
    rw [hagents]
    omega
  · intro p' hp'
    rw [hagents] at hp'
    rcases List.mem_or_eq_of_mem_set hp' with hold | rfl
    · exact h.fetched p' hold
    · exact hfetched

/-- A step that touches neither a set nor the channel nor the counter. -/
theorem of_pure_move (h : Inv s) (hi : s.agents[i]? = some p) (hfetched : q.fetched ⊆ q.ids)
    (hcounted : q.counted = p.counted) (hids : q.ids = p.ids) (hactive : q.activated = p.activated) :
    Inv (s.move i q) := by
  refine h.of_move hi rfl hfetched ?_ ?_ ?_
  · rw [hcounted]
    rfl
  · intro id
    rw [hids]
    rfl
  · intro id
    rw [hactive]
    rfl

theorem start (h : Inv s) (hfetched : p.fetched = []) (hids : p.ids = []) (hactive : p.activated = [])
    (hcounted : p.counted = false) : Inv (s.start p) := by
  constructor
  · show s.inFlight = s.channel.length + (s.agents ++ [p]).countP Phase.counted
    rw [countP_append_singleton, hcounted]
    exact h.inFlight
  · intro id
    show _ + (s.agents ++ [p]).countP _ = _
    rw [countP_append_singleton, hids]
    exact h.queued id
  · intro id
    show (s.agents ++ [p]).countP _ = _
    rw [countP_append_singleton, hactive]
    exact h.active id
  · intro q hq
    rcases List.mem_append.mp hq with hold | hnew
    · exact h.fetched q hold
    · obtain rfl := List.mem_singleton.mp hnew
      rw [hfetched]
      exact List.nil_subset _

/-- The step of an agent. -/
theorem advance (h : Inv s) (hi : s.agents[i]? = some p) (hs : advance capacity s i look p = some s') :
    Inv s' := by
  cases p with
  | choose r =>
    obtain rfl := Option.some.inj hs
    obtain ⟨hmem, hnew⟩ := @choose_spec look r s.activeFrameIds s.queuedFrameIds r.frames
    split
    · exact h.of_pure_move hi (List.nil_subset _) rfl rfl rfl
    · refine h.of_move hi rfl (List.nil_subset _) (by simp [State.move, Phase.counted]) ?_ ?_
      · intro id
        by_cases hid : id ∈ frameIdsFor r.gid
            (FrameBatches.choose r look s.activeFrameIds r.frames s.queuedFrameIds).2
        · simp [State.move, Phase.ids, Job.ids, hid, hnew id hid, (hmem id).mpr (.inr hid)]
          omega
        · simp [State.move, Phase.ids, Job.ids, hid, bit, hmem]
      · intro id
        rfl
  | count job =>
    obtain rfl := Option.some.inj hs
    exact h.of_move hi rfl (List.nil_subset _) (by simp [State.move, Phase.counted]; omega)
      (fun _ => rfl) (fun _ => rfl)
  | send job =>
    obtain rfl := Option.some.inj hs
    split
    · refine h.of_move hi rfl (List.nil_subset _) (by simp [State.move, Phase.counted]; omega) ?_
        (fun _ => rfl)
      intro id
      show bit s.queuedFrameIds id + s.channel.countP (fun job => decide (id ∈ job.ids)) +
          (decide (id ∈ job.ids)).toNat = bit s.queuedFrameIds id +
            (s.channel ++ [job]).countP (fun job => decide (id ∈ job.ids)) + 0
      rw [countP_append_singleton]
      omega
    · exact h.of_pure_move hi (List.nil_subset _) rfl rfl rfl
  | uncount job =>
    obtain rfl := Option.some.inj hs
    have hpos := h.inFlight_pos hi rfl
    exact h.of_move hi rfl (List.nil_subset _) (by simp [State.move, Phase.counted]; omega)
      (fun _ => rfl) (fun _ => rfl)
  | unqueue job =>
    obtain rfl := Option.some.inj hs
    refine h.of_move hi rfl (List.nil_subset _) rfl ?_ (fun _ => rfl)
    intro id
    by_cases hid : id ∈ job.ids
    · simp [State.move, Phase.ids, hid, h.queued_of_mem hi hid]
      omega
    · simp [State.move, Phase.ids, hid, bit]
  | activate job =>
    obtain rfl := Option.some.inj hs
    refine h.of_move hi rfl (List.nil_subset _) rfl (fun _ => rfl) ?_
    intro id
    by_cases hid : id ∈ job.ids
    · simp [Phase.activated, hid, h.not_active hi hid List.not_mem_nil]
    · simp [Phase.activated, hid, bit]
  | permit job =>
    obtain rfl := Option.some.inj hs
    split <;> exact h.of_pure_move hi (List.nil_subset _) rfl rfl rfl
  | select job =>
    obtain rfl := Option.some.inj hs
    split
    · exact h.of_pure_move hi (List.nil_subset _) rfl rfl rfl
    · exact h.of_pure_move hi (framesToFetch_ids_subset job look) rfl rfl rfl
  | fetch job frames =>
    obtain rfl := Option.some.inj hs
    split <;> exact h.of_pure_move hi (List.nil_subset _) rfl rfl rfl
  | install job =>
    obtain rfl := Option.some.inj hs
    exact h.of_pure_move hi (List.nil_subset _) rfl rfl rfl
  | group job =>
    obtain rfl := Option.some.inj hs
    exact h.of_pure_move hi (List.nil_subset _) rfl rfl rfl
  | finishFrame job =>
    obtain rfl := Option.some.inj hs
    refine h.of_move hi rfl (List.nil_subset _) rfl ?_ ?_
    · intro id
      by_cases hid : id ∈ job.ids
      · simp [State.move, Phase.ids, hid, h.queued_of_mem hi hid]
        omega
      · simp [State.move, Phase.ids, hid, bit]
    · intro id
      by_cases hid : id ∈ job.ids
      · simp [Phase.activated, hid, h.active_of_mem hi hid]
      · simp [Phase.activated, hid, bit]
  | finishCommon =>
    obtain rfl := Option.some.inj hs
    have hpos := h.inFlight_pos hi rfl
    exact h.of_move hi rfl (List.nil_subset _) (by simp [State.move, Phase.counted]; omega)
      (fun _ => rfl) (fun _ => rfl)
  | idle => cases hs
  | done => cases hs

/-- A worker takes the oldest job. -/
theorem recv {jobs : List Job} (h : Inv s) (hi : s.agents[i]? = some .idle)
    (hchannel : s.channel = job :: jobs) : Inv { s.move i job.begin with channel := jobs } := by
  have hbegin : job.begin.ids = job.ids ∧ job.begin.activated = [] ∧ job.begin.counted = true ∧
      job.begin.fetched = [] := by
    unfold Job.begin
    cases hframes : job.frameIndices with
    | none => simp [Phase.ids, Phase.activated, Phase.counted, Phase.fetched, Job.ids, frameIdsFor, hframes]
    | some frames => simp [Phase.ids, Phase.activated, Phase.counted, Phase.fetched]
  obtain ⟨hids, hactive, hcounted, hfetched⟩ := hbegin
  refine h.of_move hi rfl (by rw [hfetched]; exact List.nil_subset _) ?_ ?_ ?_
  · rw [hchannel, hcounted]
    simp [State.move, Phase.counted]
    omega
  · intro id
    rw [hchannel, hids, List.countP_cons, ite_eq_toNat]
    simp only [State.move, Phase.ids, List.not_mem_nil, decide_false, Bool.toNat_false]
    omega
  · intro id
    rw [hactive]
    rfl

theorem of_step {e : Event} (h : Inv s) (hs : step capacity s e = some s') : Inv s' := by
  cases e with
  | submitFrames r =>
    obtain rfl := Option.some.inj hs
    exact h.start rfl rfl rfl rfl
  | submitGroup gid frameTableLen =>
    obtain rfl := Option.some.inj hs
    exact h.start rfl rfl rfl rfl
  | worker =>
    obtain rfl := Option.some.inj hs
    exact h.start rfl rfl rfl rfl
  | recv i =>
    rw [step] at hs
    cases hchannel : s.channel with
    | nil =>
      rw [hchannel] at hs
      cases hs
    | cons job jobs =>
      rw [hchannel] at hs
      obtain ⟨hi, hs⟩ := Option.ite_none_right_eq_some.mp hs
      obtain rfl := Option.some.inj hs
      exact h.recv hi hchannel
  | advance i look =>
    obtain ⟨p, hi, hs⟩ := Option.bind_eq_some_iff.mp hs
    exact h.advance hi hs

end Inv

theorem inv_run {es : List Event} (h : run (step capacity) {} es = some s) : Inv s :=
  run_preserves (fun _ _ _ hi hs => hi.of_step hs) inv_init h

namespace Example

/-- A batch of a group of four frames of two pages. -/
def request (frames : List Nat) : Request := ⟨3, 4, 2, [10, 11, 12, 13, 14, 15, 16, 17], frames⟩

/-- The second batch asks for a frame of the first. -/
def twoBatches : List Event :=
  [.worker, .submitFrames (request [2, 1]), .submitFrames (request [2, 3]), .advance 1 {}, .advance 2 {},
    .advance 1 {}, .advance 1 {}, .recv 0, .advance 0 {}, .advance 0 {}, .advance 0 {}]

/-- From the submitter through the worker. -/
def oneBatch : List Event :=
  List.replicate 3 (.advance 1 {}) ++ .recv 0 :: List.replicate 7 (.advance 0 {})

end Example

/-! ### What holds in every state -/

/-- The batches that are not over: those in the channel and those of the agents. -/
def State.batches (s : State) : List (List SubChunkId) := s.channel.map Job.ids ++ s.agents.map Phase.ids

theorem Inv.queued_iff (h : Inv s) (id : SubChunkId) :
    id ∈ s.queuedFrameIds ↔ (∃ job ∈ s.channel, id ∈ job.ids) ∨ ∃ p ∈ s.agents, id ∈ p.ids := by
  have hcount := h.queued id
  constructor
  · intro hid
    rw [bit_of_mem hid] at hcount
    rcases Nat.eq_zero_or_pos (s.channel.countP fun job : Job => decide (id ∈ job.ids)) with hnone | hsome
    · rw [hnone, Nat.zero_add] at hcount
      obtain ⟨p, hp, hmem⟩ := List.countP_pos_iff.mp (hcount ▸ Nat.one_pos)
      exact .inr ⟨p, hp, of_decide_eq_true hmem⟩
    · obtain ⟨job, hjob, hmem⟩ := List.countP_pos_iff.mp hsome
      exact .inl ⟨job, hjob, of_decide_eq_true hmem⟩
  · rintro (⟨job, hjob, hmem⟩ | ⟨p, hp, hmem⟩)
    · have hpos : 0 < s.channel.countP fun job => decide (id ∈ job.ids) :=
        List.countP_pos_iff.mpr ⟨job, hjob, decide_eq_true hmem⟩
      exact mem_of_bit_pos (by omega)
    · obtain ⟨i, hi⟩ := List.mem_iff_getElem?.mp hp
      exact h.queued_of_mem hi hmem

theorem Inv.active_iff (h : Inv s) (id : SubChunkId) :
    id ∈ s.activeFrameIds ↔ ∃ p ∈ s.agents, id ∈ p.activated := by
  constructor
  · intro hid
    have hcount := h.active id
    rw [bit_of_mem hid] at hcount
    obtain ⟨p, hp, hmem⟩ := List.countP_pos_iff.mp (hcount ▸ Nat.one_pos)
    exact ⟨p, hp, of_decide_eq_true hmem⟩
  · rintro ⟨p, hp, hmem⟩
    obtain ⟨i, hi⟩ := List.mem_iff_getElem?.mp hp
    exact h.active_of_mem hi hmem

theorem Inv.countP_batches (h : Inv s) (id : SubChunkId) :
    s.batches.countP (fun ids => decide (id ∈ ids)) = bit s.queuedFrameIds id := by
  rw [State.batches, List.countP_append, List.countP_map, List.countP_map]
  exact h.queued id

/-- Whatever the submitters and the workers do, two batches that are not over share no frame: no two
workers fetch the same frame. `is_frame_pending` says yes exactly for the frames of these batches, also
for those in a worker, so a frame is not lost between the two sets. -/
theorem frame_batches_apart {es : List Event} (h : run (step capacity) {} es = some s) :
    s.batches.Pairwise List.Disjoint ∧
      (∀ (i j : Nat) (p q : Phase), i ≠ j → s.agents[i]? = some p → s.agents[j]? = some q → p.fetched.Disjoint q.fetched) ∧
      ∀ id, (id ∈ s.queuedFrameIds ∨ id ∈ s.activeFrameIds) ↔ ∃ ids ∈ s.batches, id ∈ ids := by
  have hinv := inv_run h
  have hapart : s.batches.Pairwise List.Disjoint := by
    refine pairwise_disjoint_of_countP fun id => ?_
    rw [hinv.countP_batches]
    exact bit_le_one _ _
  refine ⟨hapart, ?_, ?_⟩
  · intro i j p q hne hi hj id hp hq
    have hagents := (List.pairwise_append.mp hapart).2.1
    rw [List.pairwise_map, List.pairwise_iff_getElem] at hagents
    obtain ⟨hilt, rfl⟩ := List.getElem?_eq_some_iff.mp hi
    obtain ⟨hjlt, rfl⟩ := List.getElem?_eq_some_iff.mp hj
    have hpid := hinv.fetched _ (mem_agents hi) hp
    have hqid := hinv.fetched _ (mem_agents hj) hq
    rcases Nat.lt_or_gt_of_ne hne with hlt | hlt
    · exact hagents i j hilt hjlt hlt hpid hqid
    · exact hagents j i hjlt hilt hlt hqid hpid
  · intro id
    rw [hinv.queued_iff, hinv.active_iff, State.batches]
    constructor
    · rintro ((⟨job, hjob, hmem⟩ | ⟨p, hp, hmem⟩) | ⟨p, hp, hmem⟩)
      · exact ⟨job.ids, List.mem_append_left _ (List.mem_map_of_mem hjob), hmem⟩
      · exact ⟨p.ids, List.mem_append_right _ (List.mem_map_of_mem hp), hmem⟩
      · exact ⟨p.ids, List.mem_append_right _ (List.mem_map_of_mem hp), p.activated_subset_ids hmem⟩
    · rintro ⟨ids, hids, hmem⟩
      left
      rcases List.mem_append.mp hids with hchannel | hagents
      · obtain ⟨job, hjob, rfl⟩ := List.mem_map.mp hchannel
        exact .inl ⟨job, hjob, hmem⟩
      · obtain ⟨p, hp, rfl⟩ := List.mem_map.mp hagents
        exact .inr ⟨p, hp, hmem⟩

open Example in
theorem example_batches_apart :
    ∃ s, run (step 1) {} twoBatches = some s ∧
      s.agents = [.fetch ⟨3, 4, some [1, 2]⟩ [1, 2], .done, .count ⟨3, 4, some [3]⟩] ∧
        s.batches.Pairwise List.Disjoint := by
  refine ⟨_, rfl, rfl, ?_⟩
  exact (frame_batches_apart (show run (step 1) {} twoBatches = some _ from rfl)).1

/-- `wait_idle` reads zero exactly when no job is left: none in the channel, none with a worker, and none
that a submitter has counted. Frames that are pending then belong to a submitter that has not counted its
job, or takes it back. -/
theorem wait_idle_iff {es : List Event} (h : run (step capacity) {} es = some s) :
    (s.inFlight = 0 ↔ s.channel = [] ∧ ∀ p ∈ s.agents, p.counted = false) ∧
      (s.inFlight = 0 → s.activeFrameIds = ∅ ∧
        ∀ id ∈ s.queuedFrameIds, ∃ p ∈ s.agents, id ∈ p.ids ∧ p.counted = false) := by
  have hinv := inv_run h
  have hzero : s.inFlight = 0 ↔ s.channel = [] ∧ ∀ p ∈ s.agents, p.counted = false := by
    rw [hinv.inFlight, Nat.add_eq_zero_iff, List.length_eq_zero_iff, List.countP_eq_zero]
    simp
  refine ⟨hzero, fun h0 => ?_⟩
  obtain ⟨hchannel, hagents⟩ := hzero.mp h0
  constructor
  · refine Finset.eq_empty_of_forall_notMem fun id hid => ?_
    -- only counted phases have noted frames
    obtain ⟨p, hp, hmem⟩ := (hinv.active_iff id).mp hid
    rw [Phase.activated_of_not_counted (hagents p hp)] at hmem
    exact List.not_mem_nil hmem
  · intro id hid
    rcases (hinv.queued_iff id).mp hid with ⟨job, hjob, -⟩ | ⟨p, hp, hmem⟩
    · rw [hchannel] at hjob
      cases hjob
    · exact ⟨p, hp, hmem, hagents p hp⟩

open Example in
theorem example_wait_idle :
    ∃ s, run (step 1) {} twoBatches = some s ∧ ¬ (s.channel = [] ∧ ∀ p ∈ s.agents, p.counted = false) := by
  refine ⟨_, rfl, fun hidle => ?_⟩
  have hzero := (wait_idle_iff (show run (step 1) {} twoBatches = some _ from rfl)).1.mpr hidle
  exact absurd hzero (by decide)

/-! ### Draining -/

/-- The steps of the agents that are there. -/
def drain (capacity : Nat) (s : State) : Event → Option State
  | .recv i => step capacity s (.recv i)
  | .advance i look => step capacity s (.advance i look)
  | _ => none

/-- The steps an agent has to go, with those of its job at a worker. -/
def Phase.work : Phase → Nat
  | .choose _ => 11
  | .count _ => 10
  | .send _ => 9
  | .uncount _ => 2
  | .unqueue _ => 1
  | .idle => 0
  | .activate _ => 7
  | .permit _ => 6
  | .select _ => 5
  | .fetch _ _ => 4
  | .install _ => 3
  | .group _ => 2
  | .finishFrame _ => 2
  | .finishCommon => 1
  | .done => 0

/-- The steps that are left. -/
def State.work (s : State) : Nat := 8 * s.channel.length + (s.agents.map Phase.work).sum

/-- What a step of an agent does to its work. -/
theorem advance_work (hs : advance capacity s i look p = some s') :
    ∃ q, s'.agents = s.agents.set i q ∧ q.isWorker = p.isWorker ∧
      8 * s'.channel.length + q.work < 8 * s.channel.length + p.work := by
  cases p with
  | idle => cases hs
  | done => cases hs
  | choose r =>
    obtain rfl := Option.some.inj hs
    split <;> exact ⟨_, rfl, rfl, by simp [State.move, Phase.work]⟩
  | send job =>
    obtain rfl := Option.some.inj hs
    split
    · refine ⟨_, rfl, rfl, ?_⟩
      simp only [Phase.work, List.length_append, List.length_singleton]
      omega
    · exact ⟨_, rfl, rfl, by simp [State.move, Phase.work]⟩
  | permit job =>
    obtain rfl := Option.some.inj hs
    split <;> exact ⟨_, rfl, rfl, by simp [State.move, Phase.work]⟩
  | select job =>
    obtain rfl := Option.some.inj hs
    split <;> exact ⟨_, rfl, rfl, by simp [State.move, Phase.work]⟩
  | fetch job frames =>
    obtain rfl := Option.some.inj hs
    split <;> exact ⟨_, rfl, rfl, by simp [State.move, Phase.work]⟩
  | count job | uncount job | unqueue job | activate job | install job | group job | finishFrame job
  | finishCommon =>
    obtain rfl := Option.some.inj hs
    exact ⟨_, rfl, rfl, by simp [State.move, Phase.work]⟩

theorem Job.begin_work (job : Job) : job.begin.isWorker = true ∧ job.begin.work < 8 := by
  unfold Job.begin
  split <;> simp [Phase.isWorker, Phase.work]

/-- A step of the agents moves one of them, and leaves less to do. -/
theorem drain_cases {e : Event} (hs : drain capacity s e = some s') :
    ∃ i p q, s.agents[i]? = some p ∧ s'.agents = s.agents.set i q ∧ q.isWorker = p.isWorker ∧
      8 * s'.channel.length + q.work < 8 * s.channel.length + p.work := by
  cases e with
  | submitFrames r => cases hs
  | submitGroup gid frameTableLen => cases hs
  | worker => cases hs
  | recv i =>
    rw [drain, step] at hs
    cases hchannel : s.channel with
    | nil =>
      rw [hchannel] at hs
      cases hs
    | cons job jobs =>
      rw [hchannel] at hs
      obtain ⟨hi, hs⟩ := Option.ite_none_right_eq_some.mp hs
      obtain rfl := Option.some.inj hs
      obtain ⟨hworker, hwork⟩ := job.begin_work
      refine ⟨i, .idle, job.begin, hi, rfl, hworker, ?_⟩
      show 8 * jobs.length + job.begin.work < 8 * (jobs.length + 1) + 0
      omega
  | advance i look =>
    obtain ⟨p, hi, hs⟩ := Option.bind_eq_some_iff.mp hs
    obtain ⟨q, hq⟩ := advance_work hs
    exact ⟨i, p, q, hi, hq⟩

theorem work_drain {e : Event} (hs : drain capacity s e = some s') : s'.work < s.work := by
  obtain ⟨i, p, q, hi, hagents, -, hlt⟩ := drain_cases hs
  have hsum := sum_map_set_add hi q Phase.work
  rw [State.work, State.work, hagents]
  omega

theorem drain_length_le {es : List Event} (h : run (drain capacity) s es = some s') :
    es.length + s'.work ≤ s.work := by
  induction es generalizing s with
  | nil =>
    cases h
    simp
  | cons e es ih =>
    obtain ⟨m, hm, h⟩ := run_cons.mp h
    have hrest := ih h
    have hlt := work_drain hm
    rw [List.length_cons]
    omega

/-- Workers stay workers. -/
theorem worker_drain {e : Event} (h : ∃ p ∈ s.agents, p.isWorker = true)
    (hs : drain capacity s e = some s') : ∃ p ∈ s'.agents, p.isWorker = true := by
  obtain ⟨i, p, q, hi, hagents, hworker, -⟩ := drain_cases hs
  have hmove := countP_set_add hi q Phase.isWorker
  rw [hworker] at hmove
  rw [hagents, ← List.countP_pos_iff]
  have hpos := List.countP_pos_iff.mpr h
  omega

theorem inv_drain {e : Event} (h : Inv s) (hs : drain capacity s e = some s') : Inv s' := by
  cases e with
  | recv i => exact h.of_step (show step capacity s (.recv i) = some s' from hs)
  | advance i look => exact h.of_step (show step capacity s (.advance i look) = some s' from hs)
  | submitFrames r => cases hs
  | submitGroup gid frameTableLen => cases hs
  | worker => cases hs

/-- An agent that is neither at `recv` nor through can go on. -/
theorem advance_enabled (s : State) (i : Nat) (hidle : p ≠ .idle) (hdone : p ≠ .done) :
    ∃ s', advance capacity s i {} p = some s' := by
  cases p with
  | idle => exact absurd rfl hidle
  | done => exact absurd rfl hdone
  | _ => exact ⟨_, rfl⟩

theorem at_rest (hstuck : ∀ e, drain capacity s e = none) (hp : p ∈ s.agents) : p = .idle ∨ p = .done := by
  by_contra hnot
  push Not at hnot
  obtain ⟨i, hi⟩ := List.mem_iff_getElem?.mp hp
  obtain ⟨s', hs⟩ : ∃ s', advance capacity s i {} p = some s' := advance_enabled s i hnot.1 hnot.2
  have hadvance := hstuck (.advance i {})
  rw [drain, step, hi, Option.bind_some, hs] at hadvance
  cases hadvance

/-- When no more batches are submitted, the pool comes to rest: there is no run of its agents longer than
`State.work`, and where none of them can go on, no job is left, `wait_idle` reads zero, and every frame may
be asked for again. -/
theorem pool_drains {es fs : List Event} (h : run (step capacity) {} es = some s)
    (hworker : ∃ p ∈ s.agents, p.isWorker = true) (hdrain : run (drain capacity) s fs = some s') :
    fs.length ≤ s.work ∧ ((∀ e, drain capacity s' e = none) →
      s'.channel = [] ∧ s'.inFlight = 0 ∧ s'.queuedFrameIds = ∅ ∧ s'.activeFrameIds = ∅) := by
  refine ⟨Nat.le_of_add_right_le (drain_length_le hdrain), fun hstuck => ?_⟩
  have hinv : Inv s' := run_preserves (fun _ _ _ hi hs => inv_drain hi hs) (inv_run h) hdrain
  obtain ⟨p, hp, hwork⟩ := run_preserves
    (I := fun s : State => ∃ p ∈ s.agents, p.isWorker = true)
    (fun _ _ _ hi hs => worker_drain hi hs) hworker hdrain
  -- the worker is at `recv`, so the channel is empty
  have hidle : p = .idle := by
    rcases at_rest hstuck hp with hidle | rfl
    · exact hidle
    · cases hwork
  obtain ⟨i, hi⟩ := List.mem_iff_getElem?.mp hp
  have hchannel : s'.channel = [] := by
    cases hjobs : s'.channel with
    | nil => rfl
    | cons job jobs =>
      have hrecv := hstuck (.recv i)
      rw [drain, step, hjobs, hi, hidle] at hrecv
      simp at hrecv
  have hnone : ∀ p ∈ s'.agents, p.counted = false ∧ p.ids = [] ∧ p.activated = [] := by
    intro p hp
    rcases at_rest hstuck hp with rfl | rfl <;> exact ⟨rfl, rfl, rfl⟩
  refine ⟨hchannel, ?_, ?_, ?_⟩
  · rw [hinv.inFlight, hchannel, List.countP_eq_zero.mpr]
    · rfl
    · intro p hp
      simp [(hnone p hp).1]
  · refine Finset.eq_empty_of_forall_notMem fun id hid => ?_
    rcases (hinv.queued_iff id).mp hid with ⟨job, hjob, -⟩ | ⟨p, hp, hmem⟩
    · rw [hchannel] at hjob
      cases hjob
    · rw [(hnone p hp).2.1] at hmem
      exact List.not_mem_nil hmem
  · refine Finset.eq_empty_of_forall_notMem fun id hid => ?_
    obtain ⟨p, hp, hmem⟩ := (hinv.active_iff id).mp hid
    rw [(hnone p hp).2.2] at hmem
    exact List.not_mem_nil hmem

open Example in
theorem example_pool_drains :
    ∃ s s', run (step 1) {} [.worker, .submitFrames (request [2, 1])] = some s ∧
      run (drain 1) s oneBatch = some s' ∧ s'.inFlight = 0 := by
  refine ⟨_, _, rfl, rfl, ?_⟩
  refine ((pool_drains
    (show run (step 1) {} [.worker, .submitFrames (request [2, 1])] = some _ from rfl)
    ⟨.idle, by decide, rfl⟩ (show run (drain 1) _ oneBatch = some _ from rfl)).2 fun e => ?_).2.1
  match e with
  | .submitFrames _ | .submitGroup _ _ | .worker | .recv _ => rfl
  | .advance 0 _ | .advance 1 _ | .advance (_ + 2) _ => rfl

end Turbolite.FrameBatches
