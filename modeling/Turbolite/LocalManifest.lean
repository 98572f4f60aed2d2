import Turbolite.ObjectLifetime
import Turbolite.SharedManifest

/-!
# Turbolite.LocalManifest

The manifest in the cache directory (`persist_manifest_local`), which `assemble` prefers to the one in
the backend. A publisher has four effects: it puts its manifest into the backend, stores it in the
shared cell, persists it in the cache directory, and deletes the objects it replaced. `flush_inner`
persists before it deletes; the durable `sync` deletes before it persists; `compact_overrides_inner`
deletes and does not persist. The process may exit between any two effects and open again.

A local checkpoint also leaves its manifest at the end of its staging log, and `assemble` takes the newest of
these when it is newer than what it has loaded.

As in `ObjectLifetime`, which keys exist is all that matters, and the backend is a set of keys.
-/

namespace Turbolite.LocalManifest

open Runs ObjectLifetime

/-! ### Publishers -/

/-- What a task does to the manifests and the objects. -/
inductive Effect where
  | put
  | store
  /-- the trailer of the staging log -/
  | stage
  | persist
  | delete
  deriving DecidableEq

/-- What a call does, with what it encoded. -/
inductive Task where
  | flush (changeCounter : Nat) (writes : GroupWrites) (plans : Option BundlePlans) (gc : Bool)
  /-- durable sync -/
  | sync (vacuum : Option (Nat × Walk)) (unassigned : List Nat)
      (ppg pendingPageCount changeCounter : Nat) (dbHeader : Option Bytes)
      (rewrites : List Rewrite) (nodup : (rewrites.map (·.gid)).Nodup) (plans : BundlePlans)
      (gc : Bool)
  | compact (rewrites : List Rewrite) (nodup : (rewrites.map (·.gid)).Nodup)
  /-- local checkpoint of these dirty pages, with or without a staging log -/
  | checkpoint (dirty : List Nat) (ppg : Nat) (staging : Bool)
  | setManifest (m : Manifest)

namespace Task

/-- The writer of the backend, if the task is one. -/
def job : Task → Option Job
  | flush changeCounter writes plans _ => some (.flush changeCounter writes plans)
  | sync vacuum unassigned ppg pendingPageCount changeCounter dbHeader rewrites nodup plans _ =>
    some (.sync vacuum unassigned ppg pendingPageCount changeCounter dbHeader rewrites nodup plans)
  | compact rewrites nodup => some (.compact rewrites nodup)
  | checkpoint .. => none
  | setManifest _ => none

/-- The effects in the order of the source. -/
def effects : Task → List Effect
  | flush _ _ _ gc => [.put, .persist, .store] ++ if gc then [.delete] else []
  | sync _ _ _ _ _ _ _ _ _ gc => [.put, .store] ++ (if gc then [.delete] else []) ++ [.persist]
  | compact .. => [.store, .put, .delete]
  | checkpoint _ _ staging => [.store] ++ (if staging then [.stage] else []) ++ [.persist]
  | setManifest _ => [.store, .persist]

/-- A failed persist is only reported. -/
def ignoresPersist : Task → Bool
  | checkpoint .. => true
  | setManifest _ => true
  | _ => false

/-- The task is a flush. -/
def isFlush : Task → Bool
  | flush .. => true
  | _ => false

/-- What the task leaves in the shared cell before it uploads: a sync stores its layout. -/
def snapshot (base : Manifest) (t : Task) : Manifest :=
  match t.job with
  | some job => job.snapshot base
  | none => base

/-- The manifest the task publishes. -/
def manifest (base : Manifest) (t : Task) : Manifest :=
  match t with
  | checkpoint dirty ppg _ => base.localCheckpoint dirty ppg
  | setManifest m => m.detectAndNormalizeStrategy
  | t => match t.job with
    | some job => (job.publication base (job.snapshot base)).manifest
    | none => base

/-- The keys the task uploads before its first effect. -/
def uploads (base : Manifest) (t : Task) : List ObjectKey :=
  match t.job with
  | some job => job.uploads base
  | none => []

/-- The keys whose objects it deletes at its end. -/
def replaced (base : Manifest) (t : Task) : List ObjectKey :=
  match t.job with
  | some job => (job.publication base (job.snapshot base)).replaced
  | none => []

/-- `set_manifest` refuses a downgrade. -/
def goesOn (current : Manifest) : Task → Bool
  | setManifest m => SharedManifest.acceptsManifest current m.detectAndNormalizeStrategy
  | _ => true

end Task

/-! ### Runs -/

/-- A task under way: the manifest it started from, what is uploaded and what is left to do. -/
structure Running where
  base : Manifest
  task : Task
  done : List ObjectKey
  todo : List Effect

/-- What it publishes. -/
def Running.new (r : Running) : Manifest := r.task.manifest r.base

/-- `persisted` is the manifest in the cache directory, `trailers` are those of the staging logs, oldest
first. -/
structure State where
  stored : Option Manifest
  objects : Finset ObjectKey
  shared : Manifest
  persisted : Option Manifest
  trailers : List Manifest := []
  running : Option Running := none

/-- The tasks, their effects, and a restart. -/
inductive Event where
  | start (task : Task)
  | upload (key : ObjectKey)
  /-- the next effect -/
  | effect
  | delete (key : ObjectKey)
  | persistFails
  /-- a staging log is removed -/
  | removeLog (k : Nat)
  /-- the call returns -/
  | stop
  /-- the process exits, and the database is opened again -/
  | restart

/-- An effect of a task that publishes `new`. -/
def State.apply (s : State) (new : Manifest) : Effect → State
  | .put => { s with stored := some new }
  | .store => { s with shared := new }
  | .stage => { s with trailers := s.trailers ++ [new] }
  | .persist => { s with persisted := some new }
  | .delete => s

/-- The manifest `assemble` loads. -/
def State.loaded (s : State) : Manifest :=
  ((s.persisted.or s.stored).getD .empty).detectAndNormalizeStrategy

/-- The manifest it starts from: that of the last staging log with a newer one. The pages of the logs may
raise its page count, which names no object. -/
def State.opened (s : State) : Manifest :=
  match s.trailers.reverse.find? fun t => decide (s.loaded.version < t.version) with
  | some t => t.detectAndNormalizeStrategy
  | none => s.loaded

/-- A stored version that is not older is a conflict. -/
def State.conflict (s : State) (new : Manifest) : Prop := ∃ m ∈ s.stored, new.version ≤ m.version

instance (s : State) (new : Manifest) : Decidable (s.conflict new) :=
  inferInstanceAs (Decidable (∃ m ∈ s.stored, _))

/-- One event; `none` when it cannot happen. One call runs at a time. -/
def step (s : State) : Event → Option State
  | .start task =>
    if s.running = none ∧ task.goesOn s.shared then
      some { s with
        shared := task.snapshot s.shared
        running := some ⟨s.shared, task, [], task.effects⟩ }
    else none
  | .upload key =>
    s.running.bind fun r =>
      if key ∈ r.task.uploads r.base then
        some { s with
          objects := insert key s.objects
          running := some { r with done := key :: r.done } }
      else none
  | .effect =>
    s.running.bind fun r =>
      match r.todo with
      | [] => none
      | e :: todo =>
        if r.task.uploads r.base ⊆ r.done then
          if e = .put ∧ s.conflict r.new then some { s with running := none }
          else some { s.apply r.new e with running := some { r with todo := todo } }
        else none
  | .delete key =>
    s.running.bind fun r =>
      if r.todo.head? = some .delete ∧ key ∈ r.task.replaced r.base then
        some { s with objects := s.objects.erase key }
      else none
  | .persistFails =>
    s.running.bind fun r =>
      if r.todo.head? = some .persist ∧ r.task.ignoresPersist then
        some { s with running := some { r with todo := r.todo.tail } }
      else none
  | .removeLog k => some { s with trailers := s.trailers.eraseIdx k }
  | .stop => some { s with running := none }
  | .restart => some { s with shared := s.opened, running := none }

/-! ### The property and the condition -/

/-- A manifest with its objects. -/
structure Good (objects : Finset ObjectKey) (m : Manifest) : Prop where
  wellKeyed : WellKeyed m
  present : ∀ k ∈ m.referencedKeys, k ∈ objects

/-- The trailers are in the order of their versions, none is ahead of the shared manifest, and one whose
objects may be gone is not newer than the persisted manifest. -/
structure Staged (s : State) : Prop where
  order : s.trailers.Pairwise fun t t' => t.version ≤ t'.version
  shared : ∀ t ∈ s.trailers, t.version ≤ s.shared.version
  good : ∀ t ∈ s.trailers, Good s.objects t ∨ ∃ m, s.persisted = some m ∧ t.version ≤ m.version

/-- Nothing is running, and the manifests name existing objects. -/
structure AtRest (s : State) : Prop where
  running : s.running = none
  shared : Good s.objects s.shared
  stored : ∀ m, s.stored = some m → Good s.objects m
  persisted : ∀ m, s.persisted = some m → Good s.objects m
  staged : Staged s

/-- Only a flush gets to delete objects, and `set_manifest` is given a manifest with its objects, which goes
back behind the shared one only where there are no staging logs. -/
def Cond (s : State) : Event → Prop
  | .delete _ => ∀ r, s.running = some r → r.task.isFlush = true
  | .start (.setManifest m) => Good s.objects m ∧ (m.version < s.shared.version → s.trailers = [])
  | _ => True

/-! ### Manifests with their objects -/

section

variable {objects objects' : Finset ObjectKey} {m m' : Manifest}

theorem Good.of_keys (h : Good objects m) (hv : m'.version = m.version)
    (hk : ∀ s k, m'.keyAt s = some k → m.keyAt s = some k) : Good objects m' where
  wellKeyed :=
    { injective := fun s t k hs ht => h.wellKeyed.injective s t k (hk s k hs) (hk t k ht)
      version := fun s k hs => hv ▸ h.wellKeyed.version s k (hk s k hs) }
  present k hmem := by
    obtain ⟨s, hs⟩ := Manifest.mem_referencedKeys.mp hmem
    exact h.present k (Manifest.mem_referencedKeys.mpr ⟨s, hk s k hs⟩)

theorem Good.mono (h : Good objects m) (hk : ∀ k ∈ m.referencedKeys, k ∈ objects → k ∈ objects') :
    Good objects' m :=
  ⟨h.wellKeyed, fun k hmem => hk k hmem (h.present k hmem)⟩

theorem Good.empty : Good objects .empty := by
  have hnone : ∀ s, Manifest.empty.keyAt s = none := by
    intro s
    cases s <;> rfl
  refine ⟨⟨fun s t k hs => ?_, fun s k hs => ?_⟩, fun k hmem => ?_⟩
  · rw [hnone] at hs
    cases hs
  · rw [hnone] at hs
    cases hs
  · obtain ⟨s, hs⟩ := Manifest.mem_referencedKeys.mp hmem
    rw [hnone] at hs
    cases hs

theorem keyAt_detectAndNormalizeStrategy (m : Manifest) (s : Slot) :
    m.detectAndNormalizeStrategy.keyAt s = m.keyAt s := by
  rw [Manifest.detectAndNormalizeStrategy, Manifest.keyAt_buildPageIndex]
  cases s with
  | override g f =>
    show (((m.subframeOverrides ++ _).getD g ∅).lookup f).map (·.key) = _
    rw [GroupWrites.getD_append_replicate]
    rfl
  | group g => rfl
  | interior c => rfl
  | index c => rfl

theorem Good.detectAndNormalizeStrategy (h : Good objects m) :
    Good objects m.detectAndNormalizeStrategy :=
  h.of_keys (SharedManifest.version_detectAndNormalizeStrategy m) fun s k hs => by
    rw [← keyAt_detectAndNormalizeStrategy]
    exact hs

/-- The snapshot of a sync has the version of its base. -/
theorem Task.version_snapshot (m : Manifest) (t : Task) : (t.snapshot m).version = m.version := by
  cases t with
  | sync vacuum unassigned ppg =>
    show (Manifest.assignNewPagesToGroups _ _ _).version = _
    rw [Manifest.version_assignNewPagesToGroups]
    cases vacuum with
    | none => rfl
    | some w => exact Manifest.version_rewalk ..
  | flush => rfl
  | compact => rfl
  | checkpoint => rfl
  | setManifest => rfl

/-- A task leaves no key in the shared cell that was not there. -/
theorem Good.snapshot (h : Good objects m) (t : Task) : Good objects (t.snapshot m) := by
  cases t with
  | sync vacuum unassigned ppg =>
    refine h.of_keys (Task.version_snapshot ..) fun s k hs => ?_
    · change (Manifest.assignNewPagesToGroups _ _ _).keyAt s = some k at hs
      rw [Manifest.keyAt_assignNewPagesToGroups] at hs
      cases vacuum with
      | none => exact hs
      | some w =>
        dsimp only at hs
        rw [Manifest.keyAt_rewalk] at hs
        cases hs
  | flush => exact h
  | compact => exact h
  | checkpoint => exact h
  | setManifest => exact h

end

/-! ### The manifest of a task -/

section

variable {objects : Finset ObjectKey} {base : Manifest}

/-- The publication of a writer, over the layout it encodes under. -/
theorem Task.publishes (base : Manifest) {t : Task} {job : Job} (hj : t.job = some job) :
    Publishes base (job.publication base (job.snapshot base)) ∧
      t.manifest base = (job.publication base (job.snapshot base)).manifest ∧
      t.uploads base = (job.publication base (job.snapshot base)).uploads.map (·.1) ∧
      t.replaced base = (job.publication base (job.snapshot base)).replaced := by
  refine ⟨Job.publishes fun _ => rfl, ?_, ?_, ?_⟩
  · cases t with
    | checkpoint => cases hj
    | setManifest => cases hj
    | flush => cases hj; rfl
    | sync => cases hj; rfl
    | compact => cases hj; rfl
  · rw [Job.uploads_eq]
    simp only [Task.uploads, hj]
  · simp only [Task.replaced, hj]

/-- The new manifest of a task over a manifest with its objects. -/
structure NewOk (objects : Finset ObjectKey) (base : Manifest) (t : Task) : Prop where
  wellKeyed : WellKeyed (t.manifest base)
  kept : ∀ k ∈ (t.manifest base).referencedKeys, k ∉ t.uploads base → k ∈ objects

theorem Good.newOk (h : Good objects base) {t : Task}
    (hset : ∀ m, t = .setManifest m → Good objects m) : NewOk objects base t := by
  have hgood : ∀ {m}, Good objects m → t.manifest base = m → NewOk objects base t := by
    rintro m hm rfl
    exact ⟨hm.wellKeyed, fun k hk _ => hm.present k hk⟩
  cases hj : t.job with
  | none =>
    cases t with
    | checkpoint dirty ppg staging =>
      obtain ⟨n, gps, idx, heq⟩ := base.localCheckpoint_eq dirty ppg
      have hkeys : Good objects (base.localCheckpoint dirty ppg) :=
        h.of_keys (by rw [heq]) fun s k hs => by rw [heq] at hs; exact hs
      exact hgood hkeys rfl
    | setManifest m => exact hgood (hset m rfl).detectAndNormalizeStrategy rfl
    | flush => cases hj
    | sync => cases hj
    | compact => cases hj
  | some job =>
    obtain ⟨hp, hm, hu, -⟩ := Task.publishes base hj
    refine ⟨?_, fun k hk hup => ?_⟩
    · rw [hm]
      exact h.wellKeyed.publish hp rfl fun _ => rfl
    · rw [hm] at hk
      rw [hu] at hup
      obtain ⟨s, hs⟩ := Manifest.mem_referencedKeys.mp hk
      rcases keyAt_publication hp rfl (fun _ => rfl) hs with hs | ⟨-, hs⟩
      · exact h.present k (Manifest.mem_referencedKeys.mpr ⟨s, hs⟩)
      · exact absurd hs hup

/-- Only `set_manifest` publishes a version behind that of its base. -/
theorem Task.version_le (base : Manifest) {t : Task} (hset : ∀ m, t = .setManifest m →
    base.version ≤ m.version) : base.version ≤ (t.manifest base).version := by
  cases hj : t.job with
  | none =>
    cases t with
    | checkpoint dirty ppg staging =>
      obtain ⟨n, gps, idx, heq⟩ := base.localCheckpoint_eq dirty ppg
      show base.version ≤ (base.localCheckpoint dirty ppg).version
      rw [heq]
    | setManifest m =>
      refine (hset m rfl).trans (Nat.le_of_eq ?_)
      exact (SharedManifest.version_detectAndNormalizeStrategy m).symm
    | flush => cases hj
    | sync => cases hj
    | compact => cases hj
  | some job =>
    obtain ⟨hp, hm, -, -⟩ := Task.publishes base hj
    rw [hm, hp.version]
    exact Nat.le_succ _

/-- What a task replaced is neither named by its manifest nor among its uploads. -/
theorem not_named_replaced (h : WellKeyed base) {t : Task} {k : ObjectKey}
    (hk : k ∈ t.replaced base) : k ∉ (t.manifest base).referencedKeys ∧ k ∉ t.uploads base := by
  cases hj : t.job with
  | none =>
    simp only [Task.replaced, hj] at hk
    cases hk
  | some job =>
    obtain ⟨hp, hm, hu, hr⟩ := Task.publishes base hj
    rw [hr] at hk
    obtain ⟨hnot, v, hle, hkv⟩ := not_referenced_replaced h hp rfl (fun _ => rfl) hk
    refine ⟨hm ▸ hnot, fun hup => ?_⟩
    rw [hu, Job.uploads_eq] at hup
    have hver := hkv.symm.trans (Job.version_of_mem_uploads hup)
    cases hver
    omega

end

/-! ### The invariant -/

/-- What a running task relies on. Of a flush, each effect that is not left to do has been done. -/
structure TaskOk (s : State) (r : Running) : Prop where
  base : WellKeyed r.base
  new : NewOk s.objects r.base r.task
  uploaded : ∀ k ∈ r.done, k ∈ s.objects ∧ k ∈ r.task.uploads r.base
  suffix : r.todo <:+ r.task.effects
  put : r.task.isFlush = true → .put ∉ r.todo → s.stored = some r.new
  persist : r.task.isFlush = true → .persist ∉ r.todo → s.persisted = some r.new
  store : .store ∉ r.todo → s.shared = r.new
  staged : ∀ t ∈ s.trailers, t.version ≤ r.new.version

/-- The shared, the stored and the persisted manifest name objects that exist. -/
structure Inv (s : State) : Prop where
  shared : Good s.objects s.shared
  stored : ∀ m, s.stored = some m → Good s.objects m
  persisted : ∀ m, s.persisted = some m → Good s.objects m
  staged : Staged s
  running : ∀ r, s.running = some r → TaskOk s r

theorem AtRest.inv {s : State} (h : AtRest s) : Inv s where
  shared := h.shared
  stored := h.stored
  persisted := h.persisted
  staged := h.staged
  running r hr := by
    rw [h.running] at hr
    cases hr

theorem TaskOk.good {s : State} {r : Running} (h : TaskOk s r)
    (hdone : r.task.uploads r.base ⊆ r.done) : Good s.objects r.new where
  wellKeyed := h.new.wellKeyed
  present k hk := by
    by_cases hup : k ∈ r.task.uploads r.base
    · exact (h.uploaded k (hdone hup)).1
    · exact h.new.kept k hk hup

/-- A flush that is about to delete has put, persisted and stored its manifest. -/
theorem TaskOk.flushed {s : State} {r : Running} (h : TaskOk s r) (hf : r.task.isFlush = true)
    (hd : r.todo.head? = some .delete) :
    s.stored = some r.new ∧ s.persisted = some r.new ∧ s.shared = r.new := by
  have htodo : r.todo = [.delete] := by
    have hsuf := h.suffix
    cases htask : r.task with
    | flush cc w plans gc =>
      rw [htask, Task.effects] at hsuf
      obtain ⟨pre, hpre⟩ := hsuf
      obtain ⟨rest, hrest⟩ : ∃ rest, r.todo = .delete :: rest := by
        cases ht : r.todo with
        | nil => rw [ht] at hd; cases hd
        | cons e rest =>
          rw [ht] at hd
          cases hd
          exact ⟨rest, rfl⟩
      rw [hrest] at hpre ⊢
      cases gc with
      | true =>
        rcases pre with _ | ⟨a, _ | ⟨b, _ | ⟨c, _ | ⟨d, pre⟩⟩⟩⟩ <;> simp at hpre ⊢
        exact hpre.2.2.2
      | false => rcases pre with _ | ⟨a, _ | ⟨b, _ | ⟨c, _ | ⟨d, pre⟩⟩⟩⟩ <;> simp at hpre
    | sync => rw [htask] at hf; cases hf
    | compact => rw [htask] at hf; cases hf
    | checkpoint => rw [htask] at hf; cases hf
    | setManifest => rw [htask] at hf; cases hf
  have hput := h.put hf
  have hpersist := h.persist hf
  have hstore := h.store
  rw [htodo] at hput hpersist hstore
  exact ⟨hput (by decide), hpersist (by decide), hstore (by decide)⟩

/-! ### Steps -/

/-- Trailers whose objects are gone are behind the persisted manifest. -/
theorem Staged.of_persisted {s s' : State} (h : Staged s) (htrailers : s'.trailers = s.trailers)
    (hshared : s'.shared = s.shared) {m : Manifest} (hm : s'.persisted = some m)
    (hle : ∀ t ∈ s.trailers, t.version ≤ m.version) : Staged s' where
  order := htrailers ▸ h.order
  shared t ht := hshared ▸ h.shared t (htrailers ▸ ht)
  good t ht := .inr ⟨m, hm, hle t (htrailers ▸ ht)⟩

/-- Another manifest in the shared cell. -/
theorem Staged.store {s s' : State} (h : Staged s) (htrailers : s'.trailers = s.trailers)
    (hobjects : s'.objects = s.objects) (hpersisted : s'.persisted = s.persisted)
    (hle : ∀ t ∈ s.trailers, t.version ≤ s'.shared.version) : Staged s' where
  order := htrailers ▸ h.order
  shared t ht := hle t (htrailers ▸ ht)
  good t ht := by
    rw [hobjects, hpersisted]
    exact h.good t (htrailers ▸ ht)

/-- The shared manifest becomes a trailer. -/
theorem Staged.stage {s s' : State} (h : Staged s) (hgood : Good s.objects s.shared)
    (htrailers : s'.trailers = s.trailers ++ [s.shared]) (hobjects : s'.objects = s.objects)
    (hshared : s'.shared = s.shared) (hpersisted : s'.persisted = s.persisted) : Staged s' where
  order := by
    rw [htrailers]
    refine List.pairwise_append.mpr ⟨h.order, List.pairwise_singleton _ _, fun t ht t' ht' => ?_⟩
    rw [List.mem_singleton.mp ht']
    exact h.shared t ht
  shared t ht := by
    rw [htrailers] at ht
    rw [hshared]
    rcases List.mem_append.mp ht with ht | ht
    · exact h.shared t ht
    · rw [List.mem_singleton.mp ht]
  good t ht := by
    rw [htrailers] at ht
    rw [hobjects, hpersisted]
    rcases List.mem_append.mp ht with ht | ht
    · exact h.good t ht
    · rw [List.mem_singleton.mp ht]
      exact .inl hgood

/-- The objects grow. -/
theorem Inv.insertObject {s : State} (h : Inv s) (key : ObjectKey) :
    Inv { s with objects := insert key s.objects } where
  shared := h.shared.mono fun _ _ hk => Finset.mem_insert_of_mem hk
  stored m hm := (h.stored m hm).mono fun _ _ hk => Finset.mem_insert_of_mem hk
  persisted m hm := (h.persisted m hm).mono fun _ _ hk => Finset.mem_insert_of_mem hk
  staged :=
    { h.staged with
      good := fun t ht => (h.staged.good t ht).imp_left fun hgood =>
        hgood.mono fun _ _ hk => Finset.mem_insert_of_mem hk }
  running r hr :=
    have ht := h.running r hr
    { ht with
      new := ⟨ht.new.wellKeyed, fun k hk hup => Finset.mem_insert_of_mem (ht.new.kept k hk hup)⟩
      uploaded := fun k hk =>
        ⟨Finset.mem_insert_of_mem (ht.uploaded k hk).1, (ht.uploaded k hk).2⟩ }

theorem Inv.start {s : State} (h : Inv s) {task : Task}
    (hset : ∀ m, task = .setManifest m →
      Good s.objects m ∧ (m.version < s.shared.version → s.trailers = [])) :
    Inv { s with
      shared := task.snapshot s.shared
      running := some ⟨s.shared, task, [], task.effects⟩ } where
  shared := h.shared.snapshot task
  stored := h.stored
  persisted := h.persisted
  staged := h.staged.store rfl rfl rfl fun t ht => by
    rw [Task.version_snapshot]
    exact h.staged.shared t ht
  running r hr := by
    cases hr
    refine ⟨h.shared.wellKeyed, h.shared.newOk fun m hm => (hset m hm).1,
      fun k hk => absurd hk List.not_mem_nil, List.suffix_refl _, fun hf hnot => ?_,
      fun hf hnot => ?_, fun hnot => ?_, fun t ht => ?_⟩
    · cases task <;> cases hf
      simp [Task.effects] at hnot
    · cases task <;> cases hf
      simp [Task.effects] at hnot
    · cases task <;> simp [Task.effects] at hnot
    · refine (h.staged.shared t ht).trans (Task.version_le s.shared fun m hm => ?_)
      by_contra hback
      have hnone := (hset m hm).2 (Nat.lt_of_not_le hback)
      have ht' : t ∈ s.trailers := ht
      rw [hnone] at ht'
      cases ht'

/-- Only a local checkpoint stages a trailer. -/
theorem Task.eq_checkpoint_of_stage {t : Task} (h : .stage ∈ t.effects) :
    ∃ dirty ppg, t = .checkpoint dirty ppg true := by
  cases t with
  | checkpoint dirty ppg staging =>
    cases staging with
    | true => exact ⟨dirty, ppg, rfl⟩
    | false => simp [effects] at h
  | flush _ _ _ gc => cases gc <;> simp [effects] at h
  | sync _ _ _ _ _ _ _ _ _ gc => cases gc <;> simp [effects] at h
  | compact => simp [effects] at h
  | setManifest => simp [effects] at h

/-- It stages it after it has stored its manifest. -/
theorem Task.store_before_stage {t : Task} {todo rest : List Effect} (hsuf : todo <:+ t.effects)
    (htodo : todo = .stage :: rest) : .store ∉ todo := by
  subst htodo
  obtain ⟨dirty, ppg, rfl⟩ := Task.eq_checkpoint_of_stage (hsuf.subset List.mem_cons_self)
  obtain ⟨pre, hpre⟩ := hsuf
  have hrest : rest = [.persist] := by
    rcases pre with _ | ⟨a, _ | ⟨b, _ | ⟨c, pre⟩⟩⟩ <;> simp [effects] at hpre
    exact hpre.2
  rw [hrest]
  decide

/-- One effect of a task whose uploads are done. -/
theorem Inv.apply {s : State} (h : Inv s) {r : Running} (hr : s.running = some r) {e : Effect}
    {todo : List Effect} (htodo : r.todo = e :: todo)
    (hdone : r.task.uploads r.base ⊆ r.done) :
    Inv { s.apply r.new e with running := some { r with todo := todo } } := by
  have ht := h.running r hr
  have hgood := ht.good hdone
  have hsuf : todo <:+ r.task.effects := ((List.suffix_cons e todo).trans (htodo ▸ ht.suffix))
  have hnot : ∀ {x : Effect}, x ≠ e → x ∉ todo → x ∉ r.todo := by
    intro x hx hmem
    rw [htodo]
    exact fun h => (List.mem_cons.mp h).elim hx hmem
  cases e with
  | put =>
    refine ⟨h.shared, ?_, h.persisted, ⟨h.staged.order, h.staged.shared, h.staged.good⟩, ?_⟩
    · intro m hm
      cases hm
      exact hgood
    · intro r' hr'
      cases hr'
      exact ⟨ht.base, ht.new, ht.uploaded, hsuf, fun _ _ => rfl,
        fun hf hmem => ht.persist hf (hnot (by decide) hmem),
        fun hmem => ht.store (hnot (by decide) hmem), ht.staged⟩
  | store =>
    refine ⟨hgood, h.stored, h.persisted, h.staged.store rfl rfl rfl ht.staged, ?_⟩
    intro r' hr'
    cases hr'
    exact ⟨ht.base, ht.new, ht.uploaded, hsuf,
      fun hf hmem => ht.put hf (hnot (by decide) hmem),
      fun hf hmem => ht.persist hf (hnot (by decide) hmem), fun _ => rfl, ht.staged⟩
  | stage =>
    -- the trailer is what has just been stored
    have hshared : s.shared = r.new := ht.store fun hmem => ?_
    · have htrailers : (s.apply r.new .stage).trailers = s.trailers ++ [s.shared] := by
        rw [hshared]
        rfl
      refine ⟨h.shared, h.stored, h.persisted, h.staged.stage h.shared htrailers rfl rfl rfl,
        fun r' hr' => ?_⟩
      cases hr'
      refine ⟨ht.base, ht.new, ht.uploaded, hsuf,
        fun hf hmem => ht.put hf (hnot (by decide) hmem),
        fun hf hmem => ht.persist hf (hnot (by decide) hmem),
        fun hmem => ht.store (hnot (by decide) hmem), fun t hmem => ?_⟩
      rcases List.mem_append.mp hmem with hmem | hmem
      · exact ht.staged t hmem
      · rw [List.mem_singleton.mp hmem]
        exact Nat.le_refl _
    · exact absurd hmem (Task.store_before_stage ht.suffix htodo)
  | persist =>
    refine ⟨h.shared, h.stored, ?_, h.staged.of_persisted rfl rfl rfl ht.staged, ?_⟩
    · intro m hm
      cases hm
      exact hgood
    · intro r' hr'
      cases hr'
      exact ⟨ht.base, ht.new, ht.uploaded, hsuf,
        fun hf hmem => ht.put hf (hnot (by decide) hmem), fun _ _ => rfl,
        fun hmem => ht.store (hnot (by decide) hmem), ht.staged⟩
  | delete =>
    refine ⟨h.shared, h.stored, h.persisted,
      ⟨h.staged.order, h.staged.shared, h.staged.good⟩, ?_⟩
    intro r' hr'
    cases hr'
    exact ⟨ht.base, ht.new, ht.uploaded, hsuf,
      fun hf hmem => ht.put hf (hnot (by decide) hmem),
      fun hf hmem => ht.persist hf (hnot (by decide) hmem),
      fun hmem => ht.store (hnot (by decide) hmem), ht.staged⟩

/-- A flush deletes what no manifest names any more. -/
theorem Inv.eraseObject {s : State} (h : Inv s) {r : Running} (hr : s.running = some r)
    (hf : r.task.isFlush = true) (hd : r.todo.head? = some .delete) {key : ObjectKey}
    (hk : key ∈ r.task.replaced r.base) : Inv { s with objects := s.objects.erase key } := by
  have ht := h.running r hr
  obtain ⟨hstored, hpersisted, hshared⟩ := ht.flushed hf hd
  obtain ⟨hnot, hup⟩ := not_named_replaced ht.base hk
  have herase : ∀ {m}, Good s.objects m → m = r.new → Good (s.objects.erase key) m := by
    rintro m hm rfl
    exact hm.mono fun k hmem hin => Finset.mem_erase.mpr ⟨fun he => hnot (he ▸ hmem), hin⟩
  refine ⟨herase h.shared hshared, fun m hm => herase (h.stored m hm) ?_,
    fun m hm => herase (h.persisted m hm) ?_,
    h.staged.of_persisted rfl rfl hpersisted ht.staged, fun r' hr' => ?_⟩
  · exact Option.some.inj (hm.symm.trans hstored)
  · exact Option.some.inj (hm.symm.trans hpersisted)
  · cases hr.symm.trans hr'
    exact { ht with
      new := ⟨ht.new.wellKeyed, fun k hmem hk' =>
        Finset.mem_erase.mpr ⟨fun he => hnot (he ▸ hmem), ht.new.kept k hmem hk'⟩⟩
      uploaded := fun k hmem => ⟨Finset.mem_erase.mpr
        ⟨fun he => hup (he ▸ (ht.uploaded k hmem).2), (ht.uploaded k hmem).1⟩,
        (ht.uploaded k hmem).2⟩ }

theorem Inv.stop {s : State} (h : Inv s) : Inv { s with running := none } :=
  ⟨h.shared, h.stored, h.persisted, ⟨h.staged.order, h.staged.shared, h.staged.good⟩,
    fun r hr => by cases hr⟩

theorem Inv.removeLog {s : State} (h : Inv s) (k : Nat) :
    Inv { s with trailers := s.trailers.eraseIdx k } where
  shared := h.shared
  stored := h.stored
  persisted := h.persisted
  staged :=
    { order := h.staged.order.sublist (List.eraseIdx_sublist ..)
      shared := fun t ht => h.staged.shared t (List.mem_of_mem_eraseIdx ht)
      good := fun t ht => h.staged.good t (List.mem_of_mem_eraseIdx ht) }
  running r hr :=
    { h.running r hr with
      staged := fun t ht => (h.running r hr).staged t (List.mem_of_mem_eraseIdx ht) }

theorem Inv.loaded {s : State} (h : Inv s) : Good s.objects s.loaded := by
  refine Good.detectAndNormalizeStrategy ?_
  cases hp : s.persisted with
  | some m => exact h.persisted m hp
  | none =>
    cases hs : s.stored with
    | some m => exact h.stored m hs
    | none => exact Good.empty

/-- What a restart opens: what it loads, or a trailer that is newer. -/
theorem State.opened_cases (s : State) :
    ((∀ t ∈ s.trailers, t.version ≤ s.loaded.version) ∧ s.opened = s.loaded) ∨
      ∃ t older newer, s.trailers = older ++ t :: newer ∧ s.loaded.version < t.version ∧
        (∀ t' ∈ newer, t'.version ≤ s.loaded.version) ∧ s.opened = t.detectAndNormalizeStrategy := by
  unfold State.opened
  cases hfind : s.trailers.reverse.find? fun t => decide (s.loaded.version < t.version) with
  | none =>
    refine .inl ⟨fun t ht => ?_, rfl⟩
    have hnot := List.find?_eq_none.mp hfind t (List.mem_reverse.mpr ht)
    simpa using hnot
  | some t =>
    obtain ⟨hnewer, as, bs, heq, has⟩ := List.find?_eq_some_iff_append.mp hfind
    refine .inr ⟨t, bs.reverse, as.reverse, ?_, by simpa using hnewer, fun t' ht' => ?_, rfl⟩
    · have hrev := congrArg List.reverse heq
      simpa using hrev
    · have hnot := has t' (List.mem_reverse.mp ht')
      simpa using hnot

/-- What is opened has its objects, and no trailer is ahead of it. -/
theorem Inv.opened {s : State} (h : Inv s) :
    Good s.objects s.opened ∧ ∀ t ∈ s.trailers, t.version ≤ s.opened.version := by
  rcases s.opened_cases with ⟨hall, heq⟩ | ⟨t, older, newer, htrailers, hlt, hnewer, heq⟩
  · rw [heq]
    exact ⟨h.loaded, hall⟩
  · have hmem : t ∈ s.trailers := htrailers ▸ List.mem_append_right _ List.mem_cons_self
    have hgood : Good s.objects t := by
      refine (h.staged.good t hmem).resolve_right ?_
      rintro ⟨m, hm, hle⟩
      unfold State.loaded at hlt
      rw [SharedManifest.version_detectAndNormalizeStrategy, hm] at hlt
      exact absurd hlt (Nat.not_lt.mpr hle)
    rw [heq, SharedManifest.version_detectAndNormalizeStrategy]
    refine ⟨hgood.detectAndNormalizeStrategy, fun t' ht' => ?_⟩
    have horder := h.staged.order
    rw [htrailers] at horder ht'
    rcases List.mem_append.mp ht' with hold | hnew
    · exact (List.pairwise_append.mp horder).2.2 t' hold t List.mem_cons_self
    · rcases List.mem_cons.mp hnew with rfl | hnew
      · exact Nat.le_refl _
      · exact (hnewer t' hnew).trans hlt.le

theorem Inv.restart {s : State} (h : Inv s) : Inv { s with shared := s.opened, running := none } :=
  ⟨h.opened.1, h.stored, h.persisted, h.staged.store rfl rfl rfl h.opened.2, fun r hr => by cases hr⟩

theorem inv_step {s s' : State} {e : Event} (h : Inv s) (hc : Cond s e)
    (hs : step s e = some s') : Inv s' := by
  cases e with
  | start task =>
    simp only [step] at hs
    split at hs
    · cases hs
      refine h.start fun m hm => ?_
      subst hm
      exact hc
    · cases hs
  | upload key =>
    obtain ⟨r, hr, hs⟩ := Option.bind_eq_some_iff.mp hs
    split at hs
    · rename_i hkey
      cases hs
      have ht := (h.insertObject key).running r hr
      refine ⟨(h.insertObject key).shared, (h.insertObject key).stored,
        (h.insertObject key).persisted, ?_, fun r' hr' => ?_⟩
      · exact ⟨h.staged.order, h.staged.shared, (h.insertObject key).staged.good⟩
      cases hr'
      refine { ht with uploaded := fun k hk => ?_ }
      rcases List.mem_cons.mp hk with rfl | hk
      · exact ⟨Finset.mem_insert_self .., hkey⟩
      · exact ht.uploaded k hk
    · cases hs
  | effect =>
    obtain ⟨r, hr, hs⟩ := Option.bind_eq_some_iff.mp hs
    split at hs
    · cases hs
    · rename_i e todo htodo
      split at hs
      · rename_i hdone
        split at hs
        · cases hs
          exact h.stop
        · cases hs
          exact h.apply hr htodo hdone
      · cases hs
  | delete key =>
    obtain ⟨r, hr, hs⟩ := Option.bind_eq_some_iff.mp hs
    split at hs
    · rename_i hd
      cases hs
      exact h.eraseObject hr (hc r hr) hd.1 hd.2
    · cases hs
  | persistFails =>
    obtain ⟨r, hr, hs⟩ := Option.bind_eq_some_iff.mp hs
    split at hs
    · rename_i hign
      cases hs
      have ht := h.running r hr
      have hnf : r.task.isFlush = true → False := by
        intro hf
        have hi := hign.2
        cases htask : r.task <;> rw [htask] at hf hi
        · cases hi
        · cases hf
        · cases hf
        · cases hf
        · cases hf
      refine ⟨h.shared, h.stored, h.persisted, ⟨h.staged.order, h.staged.shared, h.staged.good⟩,
        fun r' hr' => ?_⟩
      cases hr'
      refine ⟨ht.base, ht.new, ht.uploaded, (List.tail_suffix _).trans ht.suffix,
        fun hf => (hnf hf).elim, fun hf => (hnf hf).elim, fun hmem => ht.store fun hstore => hmem ?_,
        ht.staged⟩
      -- what failed is not the store
      obtain ⟨rest, htodo⟩ : ∃ rest, r.todo = .persist :: rest := by
        cases htodo : r.todo with
        | nil =>
          rw [htodo] at hstore
          cases hstore
        | cons e rest =>
          have hhead := hign.1
          rw [htodo] at hhead
          cases hhead
          exact ⟨rest, rfl⟩
      rw [htodo] at hstore ⊢
      rcases List.mem_cons.mp hstore with hstore | hstore
      · cases hstore
      · exact hstore
    · cases hs
  | removeLog k =>
    cases hs
    exact h.removeLog k
  | stop =>
    cases hs
    exact h.stop
  | restart =>
    cases hs
    exact h.restart

/-! ### Runs -/

namespace Example

/-- Version 1 of a database of one page, with its manifest in the cache directory. -/
def start : State where
  stored := some ObjectLifetime.Example.manifest
  objects := {.pageGroup 0 1}
  shared := ObjectLifetime.Example.manifest
  persisted := some ObjectLifetime.Example.manifest

theorem good : Good start.objects ObjectLifetime.Example.manifest :=
  ⟨ObjectLifetime.Example.atRest.wellKeyed, by decide⟩

theorem atRest : AtRest start where
  running := rfl
  shared := good
  stored m hm := by
    cases hm
    exact good
  persisted m hm := by
    cases hm
    exact good
  staged := ⟨List.Pairwise.nil, fun t ht => (by cases ht), fun t ht => by cases ht⟩

/-- The group is rewritten. -/
def rewrites : List Rewrite := [⟨0, [1], none⟩]

/-- A database without bundles. -/
def noBundles : BundlePlans where
  interior := ⟨[], [], by decide⟩
  index := ⟨[], [], by decide⟩
  encode _ _ _ := []

/-- A flush that goes as far as its deletions; the process exits and opens the database again. -/
def flushed : List Event :=
  [.start (.flush 0 (.ofRewrites rewrites (by decide)) none true), .upload (.pageGroup 0 2), .effect,
    .effect, .effect, .delete (.pageGroup 0 1), .restart]

/-- A durable sync that goes as far. -/
def synced : List Event :=
  [.start (.sync none [] 4 1 0 none rewrites (by decide) noBundles true), .upload (.pageGroup 0 2),
    .effect, .effect, .delete (.pageGroup 0 1), .restart]

end Example

end Turbolite.LocalManifest
