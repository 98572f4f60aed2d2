import Turbolite.DbLocks
import Turbolite.Lifecycle
import Turbolite.Replay
import Turbolite.Retry

/-!
# Turbolite.Downgrade

What a durable handle publishes when it gives its lock up. `lock` runs the durable sync on the way
from Reserved, Pending or Exclusive to Shared or None, but only when `synced_since_write` says that
xSync was called after the last write. A write clears the flag once its bytes are in the cache; one
that fails halfway has changed the cache and returns before that.
-/

namespace Turbolite

open RangeLocks Runs

/-- The cache as `read_page` sees it with pages of this size. -/
def DiskCache.ofFile (pageSize : Nat) (file : PageMap) (present : Nat → Bool) :
    DiskCache pageSize where
  page p := if present p then (file p).filter (·.length = pageSize) else none
  file p := (file p).filter (·.length = pageSize)
  coherent p d h := by
    split at h
    · exact h
    · cases h
  sized p d h := by
    obtain ⟨-, hlen⟩ := Option.filter_eq_some_iff.mp h
    exact of_decide_eq_true hlen

namespace Downgrade

variable {P H : Type}

/-- A handle and what it shares: the manifest, the cache, the groups pending from local checkpoints,
the lock file, and the manifests put into the backend. -/
structure State (P H : Type) where
  locks : DbLocks.State P H := {}
  readOnly : Bool := false
  pageSize : Nat := 0
  manifest : Manifest := .empty
  file : PageMap := .empty
  present : Nat → Bool := fun _ => false
  dirty : List Nat := []
  pendingGroups : List Nat := []
  pendingPageCount : Nat := 0
  lastSchemaCookie : Option Nat := none
  dirtySinceSync : Bool := false
  syncedSinceWrite : Bool := false
  published : List (Manifest × Backend) := []

/-- What a sync finds around it: the backend, the pages known to be interior or index leaves, the
B-tree walker, the pages it evicts, and the error it meets, if any, before or after the manifest is
put. -/
structure Env where
  cfg : CodecConfig
  backend : Backend
  interiorPages : List Nat := []
  indexPages : List Nat := []
  gcEnabled : Bool := false
  walkAllBtrees : Nat → Nat → (Nat → Option Bytes) → Walk := fun _ _ _ => ⟨[], []⟩
  evicted : List Nat := []
  publishError : Option IoError := none
  persistError : Option IoError := none

/-- The calls of a handle. -/
inductive Event (H : Type) where
  /-- `write_all_at` of one page -/
  | write (page : Nat) (data : Bytes) (fault : Option WriteFault)
  /-- xSync -/
  | sync (env : Env)
  | setLen (size : Nat)
  /-- a call of `lock` of the handle, up to its first call on the lock file -/
  | lock (kind : LockKind) (env : Env)
  /-- the rest of that call, and the calls of other handles -/
  | lockFile (e : DbLocks.Event H)

namespace State

/-! ### Writes -/

/-- The schema cookie of a page 0, if it has one. -/
def cookieOf (page0 : Bytes) : Option Nat :=
  if 28 ≤ page0.length ∧ beU32At page0 24 ≠ 0 then some (beU32At page0 24) else none

/-- The cookie before a write: that of the cached page 0, else that of the page to be written. -/
def captureCookie (s : State P H) (page : Nat) (data : Bytes) : Option Nat :=
  if page = 0 ∧ s.lastSchemaCookie = none then ((s.file 0).bind cookieOf).or (cookieOf data)
  else s.lastSchemaCookie

/-- The page after a write that stopped after `n` bytes. The file was extended first. -/
def tornPage (s : State P H) (page : Nat) (data : Bytes) (n : Nat) : Bytes :=
  data.take n ++ ((s.file page).getD (List.replicate data.length 0)).drop n

/-- `write_all_at`. -/
def write (k : Lifecycle.Handle) (s : State P H) (page : Nat) (data : Bytes)
    (fault : Option WriteFault) : State P H :=
  if s.readOnly then s
  else
    let s := { s with
      pageSize := if s.pageSize = 0 then data.length else s.pageSize
      lastSchemaCookie := s.captureCookie page data }
    match fault with
    | some .encode => s
    | some .extend => s
    | some (.write n) => { s with file := Function.update s.file page (s.tornPage page data n) }
    | none => { s with
        file := Function.update s.file page data
        present := Function.update s.present page true
        dirty := s.dirty.insert page
        dirtySinceSync := true
        syncedSinceWrite := false
        pendingPageCount := max s.pendingPageCount (page + 1)
        manifest := s.manifest.seedGeometry data.length k.pagesPerGroup k.subPagesPerFrame }

/-! ### Syncs -/

/-- What xSync of the handle starts from. -/
def syncInput (s : State P H) (env : Env) : SyncInput where
  cfg := env.cfg
  manifest := s.manifest
  cache := .ofFile s.manifest.pageSize s.file s.present
  backend := env.backend
  dirty := s.dirty.dedup
  pendingGroups := s.pendingGroups
  pendingPageCount := s.pendingPageCount
  lastSchemaCookie := s.lastSchemaCookie
  interiorPages := env.interiorPages
  indexPages := env.indexPages
  gcEnabled := env.gcEnabled
  walkAllBtrees := env.walkAllBtrees
  dirty_nodup := List.nodup_dedup _

/-- `truncate_to_page_count`. -/
def truncate (s : State P H) (n : Nat) : State P H :=
  { s with
    file := fun p => if p < n then s.file p else none
    present := fun p => decide (p < n) && s.present p }

/-- `clear_pages_from_disk`: the bits are cleared and the bytes become a hole. -/
def evict (s : State P H) (pages : List Nat) : State P H :=
  { s with
    file := fun p => if p ∈ pages then (s.file p).map fun _ => List.replicate s.pageSize 0
      else s.file p
    present := fun p => !pages.contains p && s.present p }

/-- The handle after a sync that failed before its manifest was put. -/
def failSync (s : State P H) (i : SyncInput) : State P H :=
  { s with
    manifest := i.snap
    pendingGroups := []
    pendingPageCount := i.vacuum.getD i.pendingPageCount
    lastSchemaCookie := i.cookieAfter }

/-- The handle after its manifest was put. -/
def commitSync (s : State P H) (i : SyncInput) (env : Env) (image : Manifest × Backend) :
    State P H :=
  let s := { s with
    manifest := image.1
    dirty := []
    pendingGroups := []
    pendingPageCount := image.1.pageCount
    lastSchemaCookie := i.cookieAfter
    dirtySinceSync := false
    published := s.published ++ [image] }
  (if 0 < image.1.pageCount ∧ 0 < s.pageSize then s.truncate image.1.pageCount else s).evict
    env.evicted

/-- `sync`. The flag is set before anything else, also when there is nothing to do. -/
def sync (s : State P H) (env : Env) : State P H × IoResult Unit :=
  if s.readOnly then (s, .ok ())
  else
    let s := { s with syncedSinceWrite := true }
    if s.dirty = [] ∧ s.pendingGroups = [] then ({ s with dirtySinceSync := false }, .ok ())
    else
      let i := s.syncInput env
      match env.publishError, i.durableSync with
      | some e, _ => (s.failSync i, .error e)
      | none, .error e => (s.failSync i, .error e)
      | none, .ok none => (s, .ok ())
      | none, .ok (some image) =>
        (s.commitSync i env image, match env.persistError with
          | some e => .error e
          | none => .ok ())

/-- `set_len`. -/
def setLen (s : State P H) (size : Nat) : State P H :=
  if s.pageSize = 0 then s
  else
    let n := (size + s.pageSize - 1) / s.pageSize
    let t := { s with
      manifest := s.manifest.setLen n
      pendingPageCount := n
      dirty := s.dirty.filter (· < n) }
    if n < s.manifest.pageCount then t.truncate n else t

/-! ### Locks -/

/-- A downgrade that publishes. -/
def publishes (s : State P H) (self : H) (kind : LockKind) : Prop :=
  (s.locks.handles self).lock ∈ [LockKind.exclusive, .reserved, .pending] ∧
    kind ∈ [LockKind.shared, .none] ∧ s.syncedSinceWrite = true

instance (s : State P H) (self : H) (kind : LockKind) : Decidable (s.publishes self kind) :=
  inferInstanceAs (Decidable (_ ∧ _ ∧ _))

/-- What `lock` does before it turns to the lock file. -/
def publishOnDowngrade (s : State P H) (self : H) (kind : LockKind) (env : Env) :
    State P H × IoResult Unit :=
  if s.publishes self kind then s.sync env else (s, .ok ())

/-- The handle is not in a call of `lock`. -/
def idle (s : State P H) (self : H) : Prop := (s.locks.handles self).phase = .idle

instance (s : State P H) (self : H) : Decidable (s.idle self) :=
  inferInstanceAs (Decidable (_ = _))

end State

/-! ### One call -/

section

variable {s : State P H} {env : Env}

/-- A sync has something to publish. -/
def State.pending (s : State P H) : Prop := ¬ (s.dirty = [] ∧ s.pendingGroups = [])

/-- What a sync does to the handle. -/
theorem sync_cases (s : State P H) (env : Env) :
    (s.sync env).1 = s ∨
    (s.sync env).1 = { s with syncedSinceWrite := true } ∨
    (¬ s.pending ∧ (s.sync env).1 = { s with syncedSinceWrite := true, dirtySinceSync := false }) ∨
    (s.pending ∧ (s.sync env).1 =
      ({ s with syncedSinceWrite := true } : State P H).failSync (s.syncInput env)) ∨
    (s.readOnly = false ∧ s.pending ∧ ∃ image, (s.syncInput env).durableSync = .ok (some image) ∧
      (s.sync env).1 =
        ({ s with syncedSinceWrite := true } : State P H).commitSync (s.syncInput env) env image) := by
  unfold State.sync
  split
  · exact .inl rfl
  · rename_i hro
    dsimp only
    split
    · rename_i hnone
      exact .inr (.inr (.inl ⟨fun hp => hp hnone, rfl⟩))
    · rename_i hpend
      split
      · exact .inr (.inr (.inr (.inl ⟨hpend, rfl⟩)))
      · exact .inr (.inr (.inr (.inl ⟨hpend, rfl⟩)))
      · exact .inr (.inl rfl)
      · rename_i image _ hok
        exact .inr (.inr (.inr (.inr ⟨Bool.eq_false_iff.mpr hro, hpend, image, hok, rfl⟩)))

/-- Whatever truncation and eviction leave alone. -/
theorem commitSync_fields (s : State P H) (i : SyncInput) (env : Env)
    (image : Manifest × Backend) :
    (s.commitSync i env image).locks = s.locks ∧
    (s.commitSync i env image).readOnly = s.readOnly ∧
    (s.commitSync i env image).dirty = [] ∧
    (s.commitSync i env image).pendingGroups = [] ∧
    (s.commitSync i env image).published = s.published ++ [image] := by
  unfold State.commitSync
  dsimp only
  split <;> exact ⟨rfl, rfl, rfl, rfl, rfl⟩

theorem not_pending_commitSync (s : State P H) (i : SyncInput) (env : Env)
    (image : Manifest × Backend) : ¬ (s.commitSync i env image).pending := by
  obtain ⟨-, -, hdirty, hgroups, -⟩ := commitSync_fields s i env image
  exact fun hp => hp ⟨hdirty, hgroups⟩

/-- A sync changes neither the locks nor the kind of the handle. -/
theorem sync_fields (s : State P H) (env : Env) :
    (s.sync env).1.locks = s.locks ∧ (s.sync env).1.readOnly = s.readOnly := by
  rcases sync_cases s env with h | h | ⟨-, h⟩ | ⟨-, h⟩ | ⟨-, -, image, -, h⟩
  · rw [h]
    exact ⟨rfl, rfl⟩
  · rw [h]
    exact ⟨rfl, rfl⟩
  · rw [h]
    exact ⟨rfl, rfl⟩
  · rw [h]
    exact ⟨rfl, rfl⟩
  · rw [h]
    obtain ⟨hl, hro, -⟩ := commitSync_fields { s with syncedSinceWrite := true } (s.syncInput env)
      env image
    exact ⟨hl, hro⟩

/-- A sync that leaves something to publish published nothing and left the cache alone. -/
theorem pending_sync (s : State P H) (env : Env) (h : (s.sync env).1.pending) :
    s.pending ∧ (s.sync env).1.file = s.file ∧ (s.sync env).1.present = s.present := by
  rcases sync_cases s env with he | he | ⟨hp, he⟩ | ⟨hp, he⟩ | ⟨-, -, image, -, he⟩ <;> rw [he] at h ⊢
  · exact ⟨h, rfl, rfl⟩
  · exact ⟨h, rfl, rfl⟩
  · exact absurd h hp
  · exact ⟨hp, rfl, rfl⟩
  · exact (not_pending_commitSync _ _ _ _ h).elim

/-- What a sync published is its image, and there was something to publish. -/
theorem published_sync (s : State P H) (env : Env)
    (h : (s.sync env).1.published ≠ s.published) :
    s.readOnly = false ∧ s.pending ∧ ∃ image, (s.syncInput env).durableSync = .ok (some image) ∧
      (s.sync env).1.published = s.published ++ [image] := by
  rcases sync_cases s env with he | he | ⟨-, he⟩ | ⟨-, he⟩ | ⟨hro, hp, image, hok, he⟩ <;>
    rw [he] at h ⊢
  · exact absurd rfl h
  · exact absurd rfl h
  · exact absurd rfl h
  · exact absurd rfl h
  · exact ⟨hro, hp, image, hok, (commitSync_fields _ _ _ _).2.2.2.2⟩

theorem setLen_keeps (s : State P H) (size : Nat) :
    (s.setLen size).readOnly = s.readOnly ∧
    (s.setLen size).syncedSinceWrite = s.syncedSinceWrite ∧
    ((s.setLen size).pending → s.pending) ∧
    ∀ p, (∀ v, (s.setLen size).file p = some v → s.file p = some v) ∧
      ((s.setLen size).present p = true → s.present p = true) := by
  have hdirty : ∀ n, s.dirty = [] → s.dirty.filter (fun p => decide (p < n)) = [] := by
    intro n h
    rw [h]
    rfl
  unfold State.setLen
  split
  · exact ⟨rfl, rfl, id, fun p => ⟨fun v => id, id⟩⟩
  · dsimp only
    split
    · refine ⟨rfl, rfl, fun hp hnone => hp ⟨hdirty _ hnone.1, hnone.2⟩, fun p => ⟨fun v hv => ?_, ?_⟩⟩
      · simp only [State.truncate] at hv
        split at hv
        · exact hv
        · cases hv
      · simp [State.truncate]
    · exact ⟨rfl, rfl, fun hp hnone => hp ⟨hdirty _ hnone.1, hnone.2⟩, fun p => ⟨fun v => id, id⟩⟩

end

/-! ### Events -/

variable [DecidableEq H]

/-- An event of the lock file that is not the beginning of a call of the handle, or its end. -/
def isOwnCall (self : H) : DbLocks.Event H → Bool
  | .request h _ => h = self
  | .close h => h = self
  | _ => false

variable [DecidableEq P] (k : Lifecycle.Handle) (proc : H → P) (self : H)

/-- One event; `none` when the handle is busy in a call of `lock`. -/
def step (s : State P H) : Event H → Option (State P H)
  | .write page data fault => if s.idle self then some (s.write k page data fault) else none
  | .sync env => if s.idle self then some (s.sync env).1 else none
  | .setLen size => if s.idle self then some (s.setLen size) else none
  | .lock kind env =>
    if s.idle self then
      match s.publishOnDowngrade self kind env with
      | (s', .error _) => some s'
      | (s', .ok ()) =>
        (DbLocks.step proc s'.locks (.request self kind)).map fun l => { s' with locks := l }
    else none
  | .lockFile e =>
    if isOwnCall self e then none
    else (DbLocks.step proc s.locks e).map fun l => { s with locks := l }

/-! ### What the flag stands for -/

/-- The event put bytes of a write into the cache. -/
def Event.writes : Event H → Bool
  | .write _ _ none => true
  | .write _ _ (some (.write _)) => true
  | _ => false

/-- xSync was called after the last write of the run that led from `s₀` to `s`, and what the cache
holds it held then. -/
def SyncedSinceWrite (s₀ : State P H) (es : List (Event H)) (s : State P H) : Prop :=
  ∃ pre env post m, es = pre ++ .sync env :: post ∧ (∀ e ∈ post, e.writes = false) ∧
    run (step k proc self) s₀ (pre ++ [.sync env]) = some m ∧
    ∀ p, (∀ v, s.file p = some v → m.file p = some v) ∧ (s.present p = true → m.present p = true)

/-- The flag is set and something is to be published: then xSync was called after the last write. -/
def FlagMeans (s₀ : State P H) (es : List (Event H)) (s : State P H) : Prop :=
  s.readOnly = false → s.syncedSinceWrite = true → s.pending → SyncedSinceWrite k proc self s₀ es s

/-- A write that stops halfway does not find an xSync whose pages are still to be published. -/
def Untorn (s : State P H) : Event H → Prop
  | .write _ _ (some (.write _)) => s.syncedSinceWrite = true → ¬ s.pending
  | _ => True

instance (s : State P H) (e : Event H) : Decidable (Untorn s e) :=
  match e with
  | .write _ _ (some (.write _)) => inferInstanceAs (Decidable (_ → ¬ ¬ (_ ∧ _)))
  | .write _ _ (some .encode) => .isTrue trivial
  | .write _ _ (some .extend) => .isTrue trivial
  | .write _ _ none => .isTrue trivial
  | .sync _ => .isTrue trivial
  | .setLen _ => .isTrue trivial
  | .lock _ _ => .isTrue trivial
  | .lockFile _ => .isTrue trivial

/-! ### One event -/

section

variable {k proc self} {s s' : State P H} {env : Env}

/-- A call of `lock` that is accepted: the sync of a downgrade, and the locks after it when it did
not fail. -/
theorem step_lock_cases {kind : LockKind} (h : step k proc self s (.lock kind env) = some s') :
    (∃ e, (s.publishOnDowngrade self kind env).2 = .error e ∧
      s' = (s.publishOnDowngrade self kind env).1) ∨
    ((s.publishOnDowngrade self kind env).2 = .ok () ∧
      ∃ l, s' = { (s.publishOnDowngrade self kind env).1 with locks := l }) := by
  unfold step at h
  dsimp only at h
  split at h
  · split at h
    · rename_i t e heq
      cases h
      exact .inl ⟨e, by rw [heq], by rw [heq]⟩
    · rename_i t heq
      obtain ⟨l, -, rfl⟩ := Option.map_eq_some_iff.mp h
      exact .inr ⟨by rw [heq], l, by rw [heq]⟩
  · cases h

/-- Apart from the locks, the handle after a call of `lock` is the handle after its sync. -/
theorem step_lock_eq {kind : LockKind} (h : step k proc self s (.lock kind env) = some s') :
    ∃ l, s' = { (s.publishOnDowngrade self kind env).1 with locks := l } := by
  rcases step_lock_cases h with ⟨e, -, rfl⟩ | ⟨-, l, rfl⟩
  · exact ⟨_, rfl⟩
  · exact ⟨l, rfl⟩

/-- The events after the last write go on. -/
theorem SyncedSinceWrite.snoc {s₀ : State P H} {es : List (Event H)} {e : Event H}
    (h : SyncedSinceWrite k proc self s₀ es s) (he : e.writes = false)
    (hkeep : ∀ p, (∀ v, s'.file p = some v → s.file p = some v) ∧
      (s'.present p = true → s.present p = true)) :
    SyncedSinceWrite k proc self s₀ (es ++ [e]) s' := by
  obtain ⟨pre, x, post, m, rfl, hpost, hrun, hm⟩ := h
  refine ⟨pre, x, post ++ [e], m, by simp, fun e' he' => ?_, hrun, fun p => ⟨?_, ?_⟩⟩
  · rcases List.mem_append.mp he' with he' | he'
    · exact hpost e' he'
    · rw [List.mem_singleton.mp he']
      exact he
  · exact fun v hv => (hm p).1 v ((hkeep p).1 v hv)
  · exact fun hp => (hm p).2 ((hkeep p).2 hp)

/-! ### Runs -/

/-- An event that is not a write, keeps the flag's meaning and adds nothing to the cache. -/
theorem FlagMeans.snoc {s₀ : State P H} {es : List (Event H)} {e : Event H}
    (h : FlagMeans k proc self s₀ es s) (he : e.writes = false)
    (hro : s'.readOnly = s.readOnly)
    (hflag : s'.syncedSinceWrite = true → s'.pending → s.syncedSinceWrite = true ∧ s.pending ∧
      ∀ p, (∀ v, s'.file p = some v → s.file p = some v) ∧
        (s'.present p = true → s.present p = true)) :
    FlagMeans k proc self s₀ (es ++ [e]) s' := by
  intro hro' hs' hp'
  obtain ⟨hs, hp, hkeep⟩ := hflag hs' hp'
  exact (h (hro ▸ hro') hs hp).snoc he hkeep

/-- A write that reached its end cleared the flag; one that did not left what was to be published. -/
theorem FlagMeans.write {s₀ : State P H} {es : List (Event H)} {page : Nat} {data : Bytes}
    {fault : Option WriteFault} (h : FlagMeans k proc self s₀ es s)
    (hc : Untorn s (.write page data fault)) :
    FlagMeans k proc self s₀ (es ++ [.write page data fault]) (s.write k page data fault) := by
  unfold State.write
  by_cases hro : s.readOnly = true
  · rw [if_pos hro]
    intro hro'
    rw [hro] at hro'
    cases hro'
  · rw [if_neg hro]
    cases fault with
    | none =>
      intro _ hs
      cases hs
    | some f =>
      cases f with
      | encode => exact h.snoc rfl rfl fun hs hp => ⟨hs, hp, fun p => ⟨fun v => id, id⟩⟩
      | extend => exact h.snoc rfl rfl fun hs hp => ⟨hs, hp, fun p => ⟨fun v => id, id⟩⟩
      | write n =>
        intro _ hs hp
        exact absurd hp (hc hs)

theorem FlagMeans.lock {s₀ : State P H} {es : List (Event H)} {kind : LockKind}
    (h : FlagMeans k proc self s₀ es s) (hstep : step k proc self s (.lock kind env) = some s') :
    FlagMeans k proc self s₀ (es ++ [.lock kind env]) s' := by
  obtain ⟨l, rfl⟩ := step_lock_eq hstep
  unfold State.publishOnDowngrade
  split
  · rename_i hpub
    refine h.snoc rfl (sync_fields s env).2 fun _ hp => ?_
    obtain ⟨hpend, hfile, hpresent⟩ := pending_sync s env hp
    refine ⟨hpub.2.2, hpend, fun p => ⟨fun v hv => ?_, fun hv => ?_⟩⟩
    · rw [← hfile]
      exact hv
    · rw [← hpresent]
      exact hv
  · exact h.snoc rfl rfl fun hs hp => ⟨hs, hp, fun p => ⟨fun v => id, id⟩⟩

theorem flagMeans_step {s₀ : State P H} {es : List (Event H)} {e : Event H}
    (hr : run (step k proc self) s₀ es = some s) (h : FlagMeans k proc self s₀ es s)
    (hc : Untorn s e) (hstep : step k proc self s e = some s') :
    FlagMeans k proc self s₀ (es ++ [e]) s' := by
  cases e with
  | write page data fault =>
    simp only [step] at hstep
    split at hstep
    · cases hstep
      exact h.write hc
    · cases hstep
  | sync env =>
    have hrun : run (step k proc self) s₀ (es ++ [.sync env]) = some s' :=
      run_append.mpr ⟨s, hr, run_cons.mpr ⟨s', hstep, rfl⟩⟩
    exact fun _ _ _ => ⟨es, env, [], s', rfl, fun _ he => (List.not_mem_nil he).elim, hrun,
      fun p => ⟨fun v => id, id⟩⟩
  | setLen size =>
    simp only [step] at hstep
    split at hstep
    · cases hstep
      obtain ⟨hro, hflag, hpend, hkeep⟩ := setLen_keeps s size
      exact h.snoc rfl hro fun hs hp => ⟨hflag ▸ hs, hpend hp, hkeep⟩
    · cases hstep
  | lock kind env => exact h.lock hstep
  | lockFile e =>
    simp only [step] at hstep
    split at hstep
    · cases hstep
    · obtain ⟨l, -, rfl⟩ := Option.map_eq_some_iff.mp hstep
      exact h.snoc rfl rfl fun hs hp => ⟨hs, hp, fun p => ⟨fun v => id, id⟩⟩

/-- A downgrade publishes only what xSync was called for: if it put a manifest into the backend, then
xSync came after the last write, and the image was made from a cache that holds nothing it did not
hold then. One whose sync fails leaves the level, the guards and the lock file as they were. -/
theorem downgrade_publishes_only_synced {s₀ : State P H} {es : List (Event H)}
    (h₀ : s₀.syncedSinceWrite = false) (hm : Meets (step k proc self) Untorn s₀ es)
    (hr : run (step k proc self) s₀ es = some s) {kind : LockKind}
    (hstep : step k proc self s (.lock kind env) = some s') :
    (s'.published ≠ s.published → SyncedSinceWrite k proc self s₀ es s ∧
      ∃ image, (s.syncInput env).durableSync = .ok (some image) ∧
        s'.published = s.published ++ [image]) ∧
    ((∃ e, (s.publishOnDowngrade self kind env).2 = .error e) → s'.locks = s.locks) := by
  have hflag : FlagMeans k proc self s₀ es s := by
    refine run_trace_invariant (I := FlagMeans k proc self s₀) ?_ ?_ hm hr
    · intro _ hs
      rw [h₀] at hs
      cases hs
    · intro es s e s' hr hI hc hs
      exact flagMeans_step hr hI hc hs
  constructor
  · intro hpub
    obtain ⟨l, rfl⟩ := step_lock_eq hstep
    unfold State.publishOnDowngrade at hpub ⊢
    split at hpub
    · rename_i hd
      rw [if_pos hd]
      obtain ⟨hro, hpend, image, hok, himage⟩ := published_sync s env hpub
      exact ⟨hflag hro hd.2.2 hpend, image, hok, himage⟩
    · exact absurd rfl hpub
  · rintro ⟨e, he⟩
    rcases step_lock_cases hstep with ⟨e', -, rfl⟩ | ⟨hok, -⟩
    · unfold State.publishOnDowngrade
      split
      · exact (sync_fields s env).1
      · rfl
    · rw [he] at hok
      cases hok

end

/-! ### An example -/

namespace Example

theorem two_pos : 0 < 2 := by decide

/-- A handle with groups of two pages. -/
def handle : Lifecycle.Handle := ⟨2, 1, two_pos⟩

/-- A handle on the example database with page 0 in its cache. -/
def opened : State Unit Unit where
  pageSize := 512
  manifest := ReadPaths.Example.manifest
  file := fun p => if p = 0 then some (ReadPaths.Example.page 1) else none
  present := fun p => p == 0
  pendingPageCount := 2

/-- A plain store that answers every request. -/
def env : Env where
  cfg := .plain
  backend := ReadPaths.Example.backend 2

/-- The store refuses the manifest. -/
def refusedPut : Env := { env with publishError := some (.io .other "put failed") }

/-- The handle goes to Reserved. -/
def reserve : List (Event Unit) :=
  [.lock .shared env, .lockFile (.advance ()), .lockFile (.advance ()), .lockFile (.advance ()),
    .lockFile (.advance ()), .lock .reserved env, .lockFile (.advance ())]

/-- It writes page 0, and the put of its xSync fails. -/
def synced : List (Event Unit) :=
  reserve ++ [.write 0 (ReadPaths.Example.page 7) none, .sync refusedPut]

/-- The page is written again; the write stops after one byte. -/
def torn : List (Event Unit) := synced ++ [.write 0 (ReadPaths.Example.page 8) (some (.write 1))]

/-- Page 0 as a cold reader of the last published manifest finds it. -/
def publishedPage0 (s : State Unit Unit) : Option Bytes :=
  s.published.getLast?.bind fun image => (ReadPaths.coldRead .plain image.1 image.2 0).toOption

/-- The handle after the events, and after it gives its lock up. -/
theorem exists_downgrade (es : List (Event Unit)) (v : Bytes)
    (hbefore : (run (step handle id ()) opened es).map (·.published.length) = some 0)
    (hafter : (run (step handle id ()) opened (es ++ [.lock .none env])).map publishedPage0 =
      some (some v)) :
    ∃ s s', run (step handle id ()) opened es = some s ∧
      step handle id () s (.lock .none env) = some s' ∧ s'.published ≠ s.published ∧
      publishedPage0 s' = some v := by
  obtain ⟨s', hr, hv⟩ := Option.map_eq_some_iff.mp hafter
  obtain ⟨s, hs, hlast⟩ := run_append.mp hr
  obtain ⟨t, hstep, ht⟩ := run_cons.mp hlast
  cases ht
  rw [hs] at hbefore
  have hnone : s.published = [] := List.length_eq_zero_iff.mp (Option.some.inj hbefore)
  refine ⟨s, s', hs, hstep, fun heq => ?_, hv⟩
  rw [publishedPage0, heq, hnone] at hv
  cases hv

end Example

open Turbolite.Downgrade.Example in
/-- The write that was synced is published when the lock goes. -/
theorem synced_page_is_published : ∃ s s', run (step handle id ()) opened synced = some s ∧
    step handle id () s (.lock .none env) = some s' ∧ s'.published ≠ s.published ∧
    publishedPage0 s' = some (ReadPaths.Example.page 7) ∧
    SyncedSinceWrite handle id () opened synced s := by
  obtain ⟨s, s', hr, hstep, hpub, hv⟩ := exists_downgrade synced
    (ReadPaths.Example.page 7) (by decide +kernel) (by decide +kernel)
  have hsynced := downgrade_publishes_only_synced rfl (by decide +kernel) hr hstep
  exact ⟨s, s', hr, hstep, hpub, hv, (hsynced.1 hpub).1⟩

open Turbolite.Downgrade.Example in
/-- The torn page is published too, though no xSync came after it. -/
theorem torn_page_is_published : ∃ s s', run (step handle id ()) opened torn = some s ∧
    step handle id () s (.lock .none env) = some s' ∧ s'.published ≠ s.published ∧
    publishedPage0 s' = some (8 :: List.replicate 511 7) ∧
    ¬ SyncedSinceWrite handle id () opened torn s := by
  obtain ⟨s, s', hr, hstep, hpub, hv⟩ := exists_downgrade torn
    (8 :: List.replicate 511 7) (by decide +kernel) (by decide +kernel)
  refine ⟨s, s', hr, hstep, hpub, hv, ?_⟩
  rintro ⟨pre, x, post, m, hsplit, hpost, -, -⟩
  rcases List.eq_nil_or_concat post with rfl | ⟨init, last, rfl⟩
  · have hlast := (List.append_inj' hsplit rfl).2
    cases hlast
  · rw [List.concat_eq_append, ← List.cons_append, ← List.append_assoc] at hsplit
    have hlast := (List.append_inj' hsplit rfl).2
    cases hlast
    have hmem : Event.write 0 (ReadPaths.Example.page 8) (some (.write 1)) ∈ init.concat
        (.write 0 (ReadPaths.Example.page 8) (some (.write 1))) := by simp
    have hwrites := hpost _ hmem
    cases hwrites

end Downgrade

end Turbolite
