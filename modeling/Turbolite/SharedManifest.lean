import Turbolite.Checkpoint
import Turbolite.Lib.Runs
import Turbolite.Lib.SharedCell
import Turbolite.Writers

/-!
# Turbolite.SharedManifest

The shared manifest (`shared_manifest`) as its writers use it: each loads it, works on a copy and stores
the copy, without a lock that spans the three (`flush_lock` and `replay_gate` order some of the stores,
none of them the loads). A run interleaves the loads and stores of any number of updates in any order.
`no_lost_update` says when every finished update is still there in the end.

`finished` and `clock` record what happened and are read by no step.
-/

namespace Turbolite.SharedManifest

open Runs SharedCell

/-! ### The updates -/

/-- What updates the shared manifest. -/
inductive Kind where
  /-- `flush_inner` with the objects it encodes -/
  | flush (changeCounter : Nat) (w : GroupWrites) (plans : Option BundlePlans)
  /-- local checkpoint of these dirty pages -/
  | checkpoint (dirty : List Nat) (ppg : Nat)
  | setLen (newPageCount : Nat)
  | replay (r : Replay)
  | setManifest (m : Manifest)
  /-- `update_replay_cursor` -/
  | replayCursor (cursor : ReplayCursor)
  /-- `manifest_bytes_with_replay_cursor_at_least` -/
  | cursorAtLeast (changeCounter : Nat)
  /-- `manifest_bytes_with_exact_replay_cursor` -/
  | cursorExact (changeCounter : Nat)
  /-- `manifest_bytes_with_replay_cursor_anchor`, with the checksum it computes -/
  | cursorAnchor (seq epoch : Nat) (writerId : String) (anchor : Manifest → Bytes)

/-- `set_manifest` goes on: not a downgrade, or the same version with a newer replay cursor. -/
def acceptsManifest (current m : Manifest) : Bool :=
  !(decide (0 < m.version) && decide (0 < current.version) && decide (m.version ≤ current.version)) ||
    (decide (m.version = current.version) && decide (current.changeCounter < m.changeCounter))

/-- The update goes on after its load. -/
def Kind.goesOn (current : Manifest) : Kind → Bool
  | .setManifest m => acceptsManifest current m.detectAndNormalizeStrategy
  | _ => true

/-- An update under way: what it is and what it has read. `set_len` reads the page count and the group
size before it copies the manifest. -/
structure Running where
  kind : Kind
  oldPageCount : Nat
  ppg : Nat
  loaded : Manifest

/-- What the update stores. -/
def Running.stored (u : Running) : Manifest :=
  match u.kind with
  | .flush cc w plans => (flushPublication u.loaded cc w plans).manifest
  | .checkpoint dirty ppg => u.loaded.localCheckpoint dirty ppg
  | .setLen n => u.loaded.setLenFrom u.oldPageCount u.ppg n
  | .replay r => r.postManifest u.loaded
  | .setManifest m => m.detectAndNormalizeStrategy
  | .replayCursor cursor => { u.loaded with cursor := cursor }
  | .cursorAtLeast n => { u.loaded with changeCounter := max u.loaded.changeCounter n }
  | .cursorExact n => { u.loaded with changeCounter := n }
  | .cursorAnchor seq epoch writerId anchor =>
    let m := { u.loaded with
      cursor := { u.loaded.cursor with lastAppliedSeq := seq, epoch := epoch }
      writerId := writerId
      changeCounter := seq }
    { m with cursor := { m.cursor with baseObjectChecksum := anchor m } }

/-! ### Runs -/

/-- The shared manifest and the updates under way. -/
structure State where
  shared : Manifest
  clock : Nat := 0
  running : HMap Nat Running := ∅
  finished : List (Update Manifest) := []

/-- The loads and stores of the updates. -/
inductive Event where
  /-- an update starts and loads the manifest -/
  | load (kind : Kind)
  /-- `set_len` reads the group size, and then the manifest -/
  | readPpg (id : Nat)
  | reload (id : Nat)
  | store (id : Nat)
  /-- an update fails, or finds nothing to do -/
  | stop (id : Nat)

/-- `set_len` is the only update that loads more than once. -/
def Running.isSetLen (u : Running) : Bool :=
  match u.kind with
  | .setLen _ => true
  | _ => false

/-- One event; `none` when it cannot happen. An update is identified by the time it started. -/
def step (s : State) : Event → Option State
  | .load kind =>
    if kind.goesOn s.shared then
      some { s with
        clock := s.clock + 1
        running := s.running.insert s.clock
          ⟨kind, s.shared.pageCount, s.shared.pagesPerGroup, s.shared⟩ }
    else some { s with clock := s.clock + 1 }
  | .readPpg id =>
    (s.running.lookup id).bind fun u =>
      if u.isSetLen then
        some { s with running := s.running.insert id { u with ppg := s.shared.pagesPerGroup } }
      else none
  | .reload id =>
    (s.running.lookup id).bind fun u =>
      if u.isSetLen then some { s with running := s.running.insert id { u with loaded := s.shared } }
      else none
  | .store id =>
    (s.running.lookup id).map fun u =>
      { s with
        shared := u.stored
        running := s.running.erase id
        finished := s.finished ++ [⟨id, u.loaded, u.stored⟩] }
  | .stop id => (s.running.lookup id).map fun _ => { s with running := s.running.erase id }

/-! ### No lost update -/

/-- What the updates are about. -/
inductive Field where
  | pageCount
  | layout
  | objectKeys
  | cursor
  deriving DecidableEq

/-- Two manifests agree on a field. -/
def Same : Field → Manifest → Manifest → Prop
  | .pageCount, a, b => a.pageCount = b.pageCount
  | .layout, a, b => a.strategy = b.strategy ∧ a.groupPages = b.groupPages
  | .objectKeys, a, b => a.pageGroupKeys = b.pageGroupKeys ∧ a.frameTables = b.frameTables ∧
      a.subframeOverrides = b.subframeOverrides ∧ a.interiorChunkKeys = b.interiorChunkKeys ∧
      a.indexChunkKeys = b.indexChunkKeys
  | .cursor, a, b => a.cursor = b.cursor ∧ a.changeCounter = b.changeCounter ∧
      a.writerId = b.writerId

instance (f : Field) (a b : Manifest) : Decidable (Same f a b) := by
  cases f <;> unfold Same <;> infer_instance

theorem same_equivalence (f : Field) : Equivalence (Same f) := by
  cases f <;> refine ⟨fun a => ?_, fun {a b} h => ?_, fun {a b c} h h' => ?_⟩ <;> simp_all [Same]

/-- When a store is safe: it loses no update (`StoreKeeps`), the version is as it was loaded, and
`set_manifest` does not carry version 0 over a versioned manifest. -/
def Safe (s : State) : Event → Prop
  | .store id => ∀ u, s.running.lookup id = some u →
      StoreKeeps Same s.finished s.shared ⟨id, u.loaded, u.stored⟩ ∧
      s.shared.version = u.loaded.version ∧
      ∀ m, u.kind = .setManifest m → m.version = 0 → u.loaded.version = 0
  | _ => True

/-- A running `set_manifest` passed its check against what it loaded. -/
def Checked (s : State) : Prop :=
  ∀ id u m, s.running.lookup id = some u → u.kind = .setManifest m →
    acceptsManifest u.loaded m.detectAndNormalizeStrategy = true

/-- No update that has finished is lost, as long as every store was checked. -/
structure Inv (s : State) : Prop where
  noLost : NoLost Same s.finished s.shared
  checked : Checked s

/-! ### Versions -/

theorem version_detectAndNormalizeStrategy (m : Manifest) :
    m.detectAndNormalizeStrategy.version = m.version := by
  rw [Manifest.detectAndNormalizeStrategy, Manifest.version_buildPageIndex]
  rfl

/-- What `set_manifest` accepts is not older, unless it has no version. -/
theorem version_le_of_accepts {current m : Manifest} (h : acceptsManifest current m = true)
    (h0 : m.version = 0 → current.version = 0) : current.version ≤ m.version := by
  simp only [acceptsManifest, Bool.or_eq_true, Bool.not_eq_true', Bool.and_eq_false_iff,
    Bool.and_eq_true, decide_eq_true_eq, decide_eq_false_iff_not] at h
  rcases h with ((hm | hc) | hle) | ⟨heq, -⟩
  · have hz : m.version = 0 := by omega
    rw [h0 hz]
    exact Nat.zero_le _
  · omega
  · omega
  · exact heq.ge

/-- No update stores a version below the one it loaded. -/
theorem Running.version_le_stored {u : Running}
    (hset : ∀ m, u.kind = .setManifest m →
      acceptsManifest u.loaded m.detectAndNormalizeStrategy = true ∧
        (m.version = 0 → u.loaded.version = 0)) :
    u.loaded.version ≤ u.stored.version := by
  unfold Running.stored
  split
  · show _ ≤ (flushManifest _ _ _ _).buildPageIndex.version
    rw [Manifest.version_buildPageIndex]
    exact Nat.le_succ _
  · obtain ⟨n, gps, idx, heq⟩ := u.loaded.localCheckpoint_eq _ _
    rw [heq]
  · obtain ⟨n, gps, idx, heq⟩ := u.loaded.setLenFrom_eq _ _ _
    rw [heq]
  · exact Nat.le_succ _
  · rename_i m hkind
    obtain ⟨hacc, h0⟩ := hset m hkind
    refine version_le_of_accepts hacc fun hz => h0 ?_
    rwa [version_detectAndNormalizeStrategy] at hz
  all_goals exact le_rfl

/-! ### Steps -/

theorem Checked.erase {s : State} (h : Checked s) (id : Nat) (shared : Manifest)
    (finished : List (Update Manifest)) :
    Checked { s with shared := shared, running := s.running.erase id, finished := finished } := by
  intro i u m hi
  by_cases hid : i = id
  · rw [hid, AList.lookup_erase] at hi
    cases hi
  · rw [AList.lookup_erase_ne hid] at hi
    exact h i u m hi

theorem Checked.insert {s : State} (h : Checked s) (id clock : Nat) {u : Running}
    (hu : ∀ m, u.kind = .setManifest m →
      acceptsManifest u.loaded m.detectAndNormalizeStrategy = true) :
    Checked { s with clock := clock, running := s.running.insert id u } := by
  intro i v m hi hkind
  by_cases hid : i = id
  · rw [hid, AList.lookup_insert] at hi
    cases hi
    exact hu m hkind
  · rw [AList.lookup_insert_ne hid] at hi
    exact h i v m hi hkind

theorem Running.kind_ne_of_isSetLen {u : Running} (h : u.isSetLen = true) (m : Manifest) :
    u.kind ≠ .setManifest m := by
  intro hkind
  rw [Running.isSetLen, hkind] at h
  cases h

/-- One event: the invariant is kept and the version does not go down. -/
theorem step_inv {s s' : State} {e : Event} (h : Inv s) (hsafe : Safe s e) (hs : step s e = some s') :
    Inv s' ∧ s.shared.version ≤ s'.shared.version := by
  cases e with
  | load kind =>
    simp only [step] at hs
    split at hs
    · rename_i hgo
      cases hs
      refine ⟨⟨h.noLost, h.checked.insert _ _ fun m hkind => ?_⟩, le_rfl⟩
      obtain rfl : kind = .setManifest m := hkind
      exact hgo
    · cases hs
      exact ⟨⟨h.noLost, h.checked⟩, le_rfl⟩
  | readPpg id =>
    obtain ⟨u, hu, hs⟩ := Option.bind_eq_some_iff.mp hs
    split at hs
    · rename_i hset
      cases hs
      refine ⟨⟨h.noLost, h.checked.insert _ _ fun m hkind => ?_⟩, le_rfl⟩
      exact absurd hkind (Running.kind_ne_of_isSetLen hset m)
    · cases hs
  | reload id =>
    obtain ⟨u, hu, hs⟩ := Option.bind_eq_some_iff.mp hs
    split at hs
    · rename_i hset
      cases hs
      refine ⟨⟨h.noLost, h.checked.insert _ _ fun m hkind => ?_⟩, le_rfl⟩
      exact absurd hkind (Running.kind_ne_of_isSetLen hset m)
    · cases hs
  | store id =>
    obtain ⟨u, hu, rfl⟩ := Option.map_eq_some_iff.mp hs
    obtain ⟨hkeeps, hver, h0⟩ := hsafe u hu
    refine ⟨⟨h.noLost.store same_equivalence hkeeps, h.checked.erase id _ _⟩, ?_⟩
    rw [hver]
    exact Running.version_le_stored fun m hkind => ⟨h.checked id u m hu hkind, h0 m hkind⟩
  | stop id =>
    obtain ⟨u, hu, rfl⟩ := Option.map_eq_some_iff.mp hs
    exact ⟨⟨h.noLost, h.checked.erase id s.shared s.finished⟩, le_rfl⟩

/-! ### Runs -/

/-- From a manifest no update is working on: after every run whose stores are safe every finished
update is in the shared manifest, or an update of the same field that started later is; and no part of
the run lowers the version. -/
theorem no_lost_update {m : Manifest} {es₁ es₂ : List Event} {s₁ s₂ : State}
    (h₁ : run step { shared := m } es₁ = some s₁) (h₂ : run step s₁ es₂ = some s₂)
    (hsafe : Meets step Safe { shared := m } (es₁ ++ es₂)) :
    NoLost Same s₂.finished s₂.shared ∧ s₁.shared.version ≤ s₂.shared.version := by
  have hinit : Inv { shared := m } := ⟨NoLost.nil m, fun id u _ hu => by simp at hu⟩
  have hstep : ∀ s e s', Inv s → Safe s e → step s e = some s' →
      Inv s' ∧ s.shared.version ≤ s'.shared.version := fun _ _ _ hi hc hs => step_inv hi hc hs
  obtain ⟨hinv, hle⟩ := run_invariant_monotone hstep hinit hsafe h₁ h₂
  exact ⟨hinv.noLost, hle⟩

namespace Example

/-- Two pages in one group. -/
def manifest : Manifest where
  version := 1
  pageCount := 2
  pageSize := 512
  pagesPerGroup := 4
  pageGroupKeys := [some (.pageGroup 0 1)]

/-- A flush that rewrites the group. -/
def flush : Kind := .flush 0 (.ofRewrites [⟨0, [], none⟩] (List.nodup_singleton 0)) none

/-- A local checkpoint of a page past the end. -/
def checkpoint : Kind := .checkpoint [2] 4

/-- The update that loaded the manifest. -/
def loading (kind : Kind) (m : Manifest) : Running := ⟨kind, m.pageCount, m.pagesPerGroup, m⟩

/-- After the checkpoint alone. -/
def checkpointed : State where
  shared := (loading checkpoint manifest).stored
  clock := 1
  finished := [⟨0, manifest, (loading checkpoint manifest).stored⟩]

/-- After the checkpoint and then the flush. -/
def flushed : State where
  shared := (loading flush checkpointed.shared).stored
  clock := 2
  finished := checkpointed.finished ++
    [⟨1, checkpointed.shared, (loading flush checkpointed.shared).stored⟩]

theorem safe_store {s : State} {id : Nat} {kind : Kind} {m : Manifest}
    (hu : s.running.lookup id = some (loading kind m)) (hcell : s.shared = m)
    (hlast : ∀ u ∈ s.finished, u.start < id) (hset : ∀ m, kind ≠ .setManifest m) :
    Safe s (.store id) := by
  intro u hu'
  obtain rfl := Option.some.inj (hu.symm.trans hu')
  refine ⟨?_, congrArg Manifest.version hcell, fun m hkind => absurd hkind (hset m)⟩
  rw [hcell]
  exact StoreKeeps.of_latest same_equivalence hlast

end Example

/-- One after the other, the checkpoint and the flush are both there. -/
theorem checkpoint_then_flush : NoLost Same Example.flushed.finished Example.flushed.shared ∧
    Example.checkpointed.shared.version ≤ Example.flushed.shared.version := by
  have h₁ : run step { shared := Example.manifest } [.load Example.checkpoint, .store 0] =
      some Example.checkpointed := rfl
  have h₂ : run step Example.checkpointed [.load Example.flush, .store 1] =
      some Example.flushed := rfl
  refine no_lost_update h₁ h₂ (.cons trivial rfl (.cons (m := Example.checkpointed) ?_ rfl
    (.cons trivial rfl ⟨?_, fun _ _ => trivial⟩)))
  · exact Example.safe_store rfl rfl (fun u hu => absurd hu List.not_mem_nil) fun m h => by cases h
  · refine Example.safe_store rfl rfl (fun u hu => ?_) fun m h => by cases h
    rw [List.mem_singleton.mp hu]
    exact Nat.zero_lt_one

/-- A checkpoint between the snapshot and the store of a flush: the page count it stored is gone. -/
theorem flush_loses_checkpoint : ∃ s, run step { shared := Example.manifest }
    [.load Example.flush, .load Example.checkpoint, .store 1, .store 0] = some s ∧
      s.running = ∅ ∧ s.finished.length = 2 ∧ ¬ NoLost Same s.finished s.shared := by
  refine ⟨_, rfl, rfl, rfl, fun h => ?_⟩
  have hchanges : ¬ Same .pageCount Example.manifest
      (Example.loading Example.checkpoint Example.manifest).stored := by decide
  rcases h ⟨1, Example.manifest, _⟩ (List.mem_cons_self ..) .pageCount hchanges with
    hin | ⟨u, hu, hlt, -⟩
  · exact absurd hin (by decide)
  · -- no update started after the checkpoint
    obtain rfl | rfl : u = _ ∨ u = _ := by simpa using hu
    · exact absurd hlt (by decide)
    · exact absurd hlt (by decide)

end Turbolite.SharedManifest
