import Turbolite.CacheGroups
import Turbolite.Partition
import Turbolite.ReadAgreement
import Turbolite.Replay

/-!
# Turbolite.Fetches

Reads, writes and replays over one cache, with every fetch taken apart into its steps. A cache miss
(`read_exact_at`) looks at a manifest, gets its object and installs a frame or a whole group; prefetch
workers and the first fetch of a new handle do the same in the background and look at the manifest
version and the replay epoch before they install. Writes, local checkpoints and `finalize` happen
between any two of these steps. Nothing is evicted, flushed or cut by `set_len` here.

A transaction holds the replay gate for reading, and `finalize` takes it for writing.
-/

namespace Turbolite

open Blocks Results ReadPaths

/-! ### What a fetch installs -/

namespace ReadPaths

variable (cfg : CodecConfig)

/-- Get and open one frame of a group; `none` when the frame or the base object is missing. -/
def openFrame (m : Manifest) (b : Backend) (gid frameIdx : Nat) : IoResult (Option Bytes) :=
  match (m.frameTable gid)[frameIdx]? with
  | none => .ok none
  | some entry => do
    match ← fetchFrame m b gid frameIdx entry with
    | none => .ok none
    | some (aad, frame) =>
      let decompressed ← cfg.decodeSeekableSubchunk aad frame
      .ok (some decompressed)

/-- The pages of one override of the first fetch; an override that is missing, does not open or is too
short is left out. -/
def eagerOverride (m : Manifest) (b : Backend) (frameIdx : Nat) (ovr : SubframeOverride) :
    List (Nat × Bytes) :=
  match b.getPageGroup ovr.key with
  | none => []
  | some data =>
    match cfg.decodeSeekableSubchunk (aadOverrideFrame 0 frameIdx) data with
    | .error _ => []
    | .ok decompressed => frameInstall m 0 frameIdx decompressed

/-- `decode_and_cache_group_static` for group 0; a base object that does not decode is passed over. -/
def eagerBase (m : Manifest) (data : Bytes) : List (Nat × Bytes) :=
  match prefetchDecode cfg m 0 data with
  | .ok (_, _, pageData) =>
    (PageMap.scatter m.pageSize (m.groupPageNums 0) pageData).filter (·.1 < m.pageCount)
  | .error _ => []

/-- What the first fetch of a handle installs (`new_tiered`); `none` when the object is missing. -/
def eagerInstall (m : Manifest) (b : Backend) : Option (List (Nat × Bytes)) :=
  match (m.groupKey 0).bind b.getPageGroup with
  | none => none
  | some data =>
    some (eagerBase cfg m data ++ if 0 < m.subPagesPerFrame then
        (m.overrides 0).entries.flatMap fun ov => eagerOverride cfg m b ov.1 ov.2
      else [])

end ReadPaths

namespace Fetches

/-! ### The state -/

/-- A database in the store, and the frame size the cache is configured with. A manifest without
frames has no overrides: a flush publishes none for it. -/
structure Base (cfg : CodecConfig) where
  manifest : Manifest
  backend : Backend
  content : Nat → GroupContent
  subPagesPerFrame : Nat
  represents : Represents cfg manifest backend content
  partitioned : Partition.Partitioned manifest
  grouped : 0 < manifest.pagesPerGroup
  plain : manifest.subPagesPerFrame = 0 → ∀ gid f, (content gid).overFrames f = none

/-- `sub_pages_per_frame` of the cache, which falls back to the group size. -/
def Base.spf {cfg : CodecConfig} (B : Base cfg) : Nat :=
  if 0 < B.subPagesPerFrame then B.subPagesPerFrame else B.manifest.pagesPerGroup

/-- The remote bytes of a page. -/
def Base.page {cfg : CodecConfig} (B : Base cfg) (p : Nat) : Bytes :=
  if p < B.manifest.pageCount then image B.manifest B.content p else zeroPage B.manifest

/-- A foreground read that waits for its object, with the manifest it looked at. `before` is the
content of the page when the read began. -/
structure Miss where
  page : Nat
  loc : PageLocation
  manifest : Manifest
  whole : Bool
  claimed : Bool := false
  before : Bytes

/-- A prefetch job: a whole group, or one frame of a frame batch. -/
structure Job where
  gid : Nat
  frame : Option Nat
  manifest : Manifest
  epoch : Nat
  started : Bool := false

/-- The first fetch of a new handle. The epoch is captured with the claim. -/
structure Opening where
  manifest : Manifest
  epoch : Option Nat := none

/-- What a read returned, with the content of the page when it began and when it returned, and the
replays that were done when its transaction began. -/
structure Answer where
  page : Nat
  result : IoResult Bytes
  before : Bytes
  after : Bytes
  seen : Nat

/-- A replayed batch: the last staged bytes of each page and the page count. -/
structure Batch where
  staged : PageMap
  pageCount : Nat

/-- The manifest, the cache and what the handles and the fetches are doing. -/
structure State where
  manifest : Manifest
  epoch : Nat := 0
  cache : PageMap := PageMap.empty
  groups : Nat → GroupState := fun _ => .none
  /-- dirty pages of each handle -/
  dirty : Nat → List Nat := fun _ => []
  /-- handles in a transaction, with the number of replays done at its begin -/
  inside : HMap Nat Nat := ∅
  reading : Nat → Option Miss := fun _ => none
  jobs : Nat → Option Job := fun _ => none
  openings : Nat → Option Opening := fun _ => none
  /-- the bytes last stored for each page by a write or a replay -/
  stored : PageMap := PageMap.empty
  batches : List Batch := []
  answers : List Answer := []

/-- The cache is empty and nothing is under way. -/
def Base.initial {cfg : CodecConfig} (B : Base cfg) : State := { manifest := B.manifest }

/-- The steps of the handles, the fetches and the replay. -/
inductive Event (pageSize : Nat) where
  /-- the Shared lock -/
  | lock (h : Nat)
  | unlock (h : Nat)
  /-- `write_all_at` of one page -/
  | write (h p : Nat) (data : Bytes)
  /-- local checkpoint -/
  | checkpoint (h : Nat)
  /-- a read that needs no fetch; `fast` when the fast path is open -/
  | read (h p : Nat) (fast : Bool)
  /-- a read that misses; `scan` when its group is part of a planned scan -/
  | miss (h p : Nat) (scan : Bool)
  /-- the page of a miss has come into the cache -/
  | recheck (h : Nat)
  | finishFrame (h : Nat)
  | claim (h : Nat)
  | finishGroup (h : Nat)
  /-- the group of a miss is not there to be claimed, and the page is still absent -/
  | giveUp (h : Nat)
  /-- a handle hands a job to the pool while it reads -/
  | submit (h j gid : Nat) (frame : Option Nat)
  | start (j : Nat)
  | finishJob (j : Nat)
  | dropJob (j : Nat)
  /-- a handle is opened and loads the manifest -/
  | openHandle (o : Nat)
  | openClaim (o : Nat)
  | openFinish (o : Nat)
  | openDrop (o : Nat)
  | finalize (r : ReplayHandle pageSize)

namespace State

variable {cfg : CodecConfig} (B : Base cfg)

/-- The bytes of the last write or replay of the page, else its remote bytes. -/
def content (s : State) (p : Nat) : Bytes := (s.stored p).getD (B.page p)

/-- The page is as it is in the store. -/
def Remote (s : State) (p : Nat) : Prop := s.stored p = none ∧ p < B.manifest.pageCount

/-- `read_exact_at` as far as it needs no fetch; `none` is a miss. -/
def serve (s : State) (h p : Nat) (fast : Bool) : Option (IoResult Bytes) :=
  match if fast && decide (p < s.manifest.pageCount) then s.cache p else none with
  | some data => some (.ok data)
  | none =>
    if p ∈ s.dirty h then
      match s.cache p with
      | some data => some (.ok data)
      | none => some (.error (.io .notFound
          s!"dirty page {p} was evicted before read; restart the VFS to recover"))
    else if s.manifest.pageCount ≤ p then some (.ok (zeroPage s.manifest))
    else
      match s.manifest.pageLocation p with
      | none => some (.ok (zeroPage s.manifest))
      | some _ => (s.cache p).map .ok

/-- A read of handle `h` returns. -/
def answer (s : State) (h p : Nat) (before : Bytes) (result : IoResult Bytes) : State :=
  { s with
    reading := Function.update s.reading h none
    answers := s.answers ++ [⟨p, result, before, s.content B p, (s.inside.lookup h).getD 0⟩] }

/-- The page of a miss, read from the cache at the end of the whole-group path. -/
def readInstalled (s : State) (ms : Miss) : IoResult Bytes :=
  s.cache.readPresent ms.page
    s!"page {ms.page} in group {ms.loc.groupId} missing from remote storage"

/-- Pages are written to the cache. -/
def install (s : State) (writes : List (Nat × Bytes)) : State :=
  { s with cache := s.cache.install writes }

/-- `mark_group_present`. -/
def markGroupPresent (s : State) (gid : Nat) : State :=
  { s with groups := Function.update s.groups gid .present }

/-- `unclaim_if_fetching`. -/
def unclaimIfFetching (s : State) (gid : Nat) : State :=
  if s.groups gid = .fetching then { s with groups := Function.update s.groups gid .none } else s

/-- The group states after a replay: the groups by position of its pages are Present, and a shrink
clears those past the end. -/
def groupsAfter (s : State) (pages : List Nat) (n ppg : Nat) (gid : Nat) : GroupState :=
  if n < s.manifest.pageCount ∧ divCeil n ppg ≤ gid then .none
  else if gid ∈ pages.map (· / ppg) then .present
  else s.groups gid

/-- A `finalize` that goes through. -/
def replayed (s : State) (r : ReplayHandle B.manifest.pageSize) : State :=
  let n := r.newPageCount s.manifest
  { s with
    manifest := r.postManifest s.manifest
    epoch := s.epoch + 1
    cache := fun p =>
      if n < s.manifest.pageCount ∧ n ≤ p then none else s.cache.install r.pages p
    groups := s.groupsAfter (r.pages.map (·.1)) n s.manifest.pagesPerGroup
    stored := fun p =>
      if n ≤ p then some (zeroPage B.manifest)
      else match r.staged.lookup p with
        | some data => some data
        | none => s.stored p
    batches := s.batches ++ [⟨fun p => r.staged.lookup p, n⟩] }

end State

/-! ### The steps -/

variable {cfg : CodecConfig} (B : Base cfg)

/-- What a job installs; a frame batch leaves out the pages that are present. -/
def Job.install (job : Job) (cache : PageMap) : IoResult (List (Nat × Bytes)) :=
  match job.frame with
  | none => prefetchInstall cfg job.manifest B.backend job.gid
  | some f => do
    match ← openFrame cfg job.manifest B.backend job.gid f with
    | none => .error (.io .notFound s!"frame {f} missing")
    | some decompressed =>
      .ok ((frameInstall job.manifest job.gid f decompressed).filter fun w => (cache w.1).isNone)

/-- The worker gives its group back. -/
def Job.release (job : Job) (s : State) : State :=
  match job.frame with
  | none => s.unclaimIfFetching job.gid
  | some _ => s

/-- The end of a job, under the gate: version and epoch are looked at again. -/
def finishJob (s : State) (job : Job) : State :=
  match job.install B s.cache with
  | .error _ => job.release s
  | .ok writes =>
    if s.manifest.version = job.manifest.version ∧ s.epoch = job.epoch then
      match job.frame with
      | none => (s.install writes).markGroupPresent job.gid
      | some _ => s.install writes
    else job.release s

/-- The end of the first fetch, under the gate: the epoch is looked at again, the version is not. -/
def finishOpening (s : State) (o : Opening) (epoch : Nat) : State :=
  match eagerInstall cfg o.manifest B.backend with
  | none => s.unclaimIfFetching 0
  | some writes =>
    if s.epoch = epoch then (s.install writes).markGroupPresent 0 else s.unclaimIfFetching 0

/-- The end of the range path. -/
def finishFrame (s : State) (h : Nat) (ms : Miss) : State :=
  let m := ms.manifest
  let f := ms.loc.index / m.subPagesPerFrame
  match openFrame cfg m B.backend ms.loc.groupId f with
  | .error e => s.answer B h ms.page ms.before (.error e)
  | .ok none => { s with reading := Function.update s.reading h (some { ms with whole := true }) }
  | .ok (some decompressed) =>
    if (m.groupPageNums ms.loc.groupId).length < f * m.subPagesPerFrame then
      s.answer B h ms.page ms.before (.error .panic)
    else
      (s.install (frameInstall m ms.loc.groupId f decompressed)).answer B h ms.page ms.before
        (.ok (framePage m (ms.loc.index % m.subPagesPerFrame) decompressed))

/-- The end of the whole-group path. -/
def finishGroup (s : State) (h : Nat) (ms : Miss) : State :=
  let gid := ms.loc.groupId
  match (ms.manifest.groupKey gid).bind B.backend.getPageGroup with
  | none =>
    let s := s.unclaimIfFetching gid
    s.answer B h ms.page ms.before (s.readInstalled ms)
  | some _ =>
    match fullGroupInstall cfg ms.manifest B.backend gid with
    | .error e => (s.unclaimIfFetching gid).answer B h ms.page ms.before (.error e)
    | .ok writes =>
      let s := (s.install writes).markGroupPresent gid
      s.answer B h ms.page ms.before (s.readInstalled ms)

/-- The miss a read of the page starts with. -/
def State.missed (s : State) (p : Nat) (loc : PageLocation) (scan : Bool) : Miss where
  page := p
  loc := loc
  manifest := s.manifest
  whole := !(s.manifest.hasFrames loc.groupId && !scan &&
    decide (loc.index / s.manifest.subPagesPerFrame < (s.manifest.frameTable loc.groupId).length))
  before := s.content B p

/-- A handle that is in a transaction and not busy with a read. -/
def State.Free (s : State) (h : Nat) : Prop := h ∈ s.inside ∧ (s.reading h).isNone = true

instance (s : State) (h : Nat) : Decidable (s.Free h) :=
  inferInstanceAs (Decidable (_ ∧ _))

/-- One event; `none` when it is refused. -/
def step (s : State) : Event B.manifest.pageSize → Option State
  | .lock h =>
    if h ∈ s.inside then none
    else some { s with inside := s.inside.insert h s.batches.length }
  | .unlock h => if s.Free h then some { s with inside := s.inside.erase h } else none
  | .write h p data =>
    if s.Free h ∧ data.length = B.manifest.pageSize then
      some { s with
        manifest := s.manifest.seedGeometry data.length B.manifest.pagesPerGroup B.spf
        cache := Function.update s.cache p (some data)
        dirty := Function.update s.dirty h ((s.dirty h).insert p)
        stored := Function.update s.stored p (some data) }
    else none
  | .checkpoint h =>
    if s.Free h then
      some { s with
        manifest := s.manifest.localCheckpoint (s.dirty h) B.manifest.pagesPerGroup
        dirty := Function.update s.dirty h [] }
    else none
  | .read h p fast =>
    if s.Free h then (s.serve h p fast).map (s.answer B h p (s.content B p)) else none
  | .miss h p scan =>
    if s.Free h ∧ (s.serve h p false).isNone = true then
      (s.manifest.pageLocation p).map fun loc =>
        { s with reading := Function.update s.reading h (some (s.missed B p loc scan)) }
    else none
  | .recheck h => do
    let ms ← s.reading h
    let data ← s.cache ms.page
    return s.answer B h ms.page ms.before (.ok data)
  | .finishFrame h => do
    let ms ← s.reading h
    if ms.whole then none else return finishFrame B s h ms
  | .claim h => do
    let ms ← s.reading h
    if ms.whole ∧ !ms.claimed ∧ s.groups ms.loc.groupId = .none then
      return { s with
        groups := Function.update s.groups ms.loc.groupId .fetching
        reading := Function.update s.reading h (some { ms with claimed := true }) }
    else none
  | .finishGroup h => do
    let ms ← s.reading h
    if ms.claimed then return finishGroup B s h ms else none
  | .giveUp h => do
    let ms ← s.reading h
    if ms.whole ∧ !ms.claimed ∧ s.groups ms.loc.groupId ≠ .none ∧ (s.cache ms.page).isNone then
      return s.answer B h ms.page ms.before (s.readInstalled ms)
    else none
  | .submit h j gid frame => do
    let ms ← s.reading h
    if (s.jobs j).isNone ∧ (ms.manifest.groupKey gid).isSome ∧
        (frame = none → s.groups gid = .none) ∧
        (frame.isSome → ms.manifest.hasFrames gid = true) then
      return { s with jobs := Function.update s.jobs j (some ⟨gid, frame, ms.manifest, s.epoch, false⟩) }
    else none
  | .start j => do
    let job ← s.jobs j
    match job.frame with
    | none =>
      if s.groups job.gid = .none then
        return { s with
          groups := Function.update s.groups job.gid .fetching
          jobs := Function.update s.jobs j (some { job with started := true }) }
      else none
    | some _ => return { s with jobs := Function.update s.jobs j (some { job with started := true }) }
  | .finishJob j => do
    let job ← s.jobs j
    if job.started then
      return { finishJob B s job with jobs := Function.update s.jobs j none }
    else none
  | .dropJob j => do
    let job ← s.jobs j
    return { (if job.started then job.release s else s) with jobs := Function.update s.jobs j none }
  | .openHandle o =>
    if (s.openings o).isNone then
      some { s with openings := Function.update s.openings o (some { manifest := s.manifest }) }
    else none
  | .openClaim o => do
    let opening ← s.openings o
    if opening.epoch = none ∧ 0 < opening.manifest.pageCount ∧ (opening.manifest.groupKey 0).isSome ∧
        s.groups 0 = .none then
      return { s with
        groups := Function.update s.groups 0 .fetching
        openings := Function.update s.openings o (some { opening with epoch := some s.epoch }) }
    else none
  | .openFinish o => do
    let opening ← s.openings o
    let epoch ← opening.epoch
    return { finishOpening B s opening epoch with openings := Function.update s.openings o none }
  | .openDrop o => do
    let opening ← s.openings o
    return { (if opening.epoch.isSome then s.unclaimIfFetching 0 else s) with
      openings := Function.update s.openings o none }
  | .finalize r =>
    let n := r.newPageCount s.manifest
    if s.inside.keys = [] ∧ r.maxSqlitePageId ≤ n ∧ ¬ (r.pages = [] ∧ n = s.manifest.pageCount) then
      some (s.replayed B r)
    else none

end Fetches

end Turbolite
