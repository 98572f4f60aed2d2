import Turbolite.ReplayCursor
import Turbolite.ReplaySequence
import Turbolite.SharedManifest

/-!
# Turbolite.CursorFencing

The position of the replay cursor, its sequence and its lease epoch, in the shared manifest. Three calls
bring a position of their own: a follower's update, an anchored publish and an installed manifest. All
the others work on a copy of the manifest and store its cursor with it. The calls overlap in any way.

The first two are checked on load, against the sequence only, and an installed manifest is checked
against the version and the change counter. So the position never moves back when the calls bring no
older epoch, an installed manifest no older sequence, and no store has been overtaken.
-/

namespace Turbolite.CursorFencing

open Runs

/-- Sequence and epoch. -/
def position (m : Manifest) : Nat × Nat := (m.cursor.lastAppliedSeq, m.cursor.epoch)

/-! ### The calls -/

/-- The calls that write the manifest. -/
inductive Op where
  /-- `update_replay_cursor` -/
  | updateReplayCursor (cursor : ReplayCursor)
  /-- `manifest_bytes_with_replay_cursor_anchor`, with the checksum it computes -/
  | publish (lastAppliedSeq epoch : Nat) (writerId : String) (anchor : Manifest → Bytes)
  | setManifest (m : Manifest)
  /-- `finalize` of a replay handle -/
  | finalize (pageSize : Nat) (r : ReplayHandle pageSize)
  /-- `flush_inner` with the objects it encodes -/
  | flush (changeCounter : Nat) (w : GroupWrites) (plans : Option BundlePlans)
  /-- the durable `sync`, which has encoded under an earlier manifest -/
  | sync (snap : Manifest) (ppg pendingPageCount changeCounter : Nat) (dbHeader : Option Bytes)
      (w : GroupWrites) (plans : BundlePlans)
  /-- local checkpoint, `set_len`, compaction, rotation, the change counter: no cursor of their own -/
  | other (edit : Manifest → Manifest) (keeps : ∀ m, (edit m).cursor = m.cursor)

namespace Op

/-- The call goes on after its load. -/
def accepts (loaded : Manifest) : Op → Bool
  | updateReplayCursor cursor => (loaded.validateReplayCursorUpdate cursor).isOk
  | publish seq epoch writerId _ => (loaded.validateReplayCursorPublish seq epoch writerId).isOk
  | setManifest m => SharedManifest.acceptsManifest loaded m.detectAndNormalizeStrategy
  | _ => true

/-- What the call stores. -/
def stored (loaded : Manifest) : Op → Manifest
  | updateReplayCursor cursor => loaded.withReplayCursor cursor
  | publish seq epoch writerId anchor => loaded.withReplayCursorAnchor seq epoch writerId anchor
  | setManifest m => m.detectAndNormalizeStrategy
  | finalize _ r => r.postManifest loaded
  | flush changeCounter w plans => (flushPublication loaded changeCounter w plans).manifest
  | sync snap ppg pendingPageCount changeCounter dbHeader w plans =>
    (syncPublication snap loaded ppg pendingPageCount changeCounter dbHeader w plans).manifest
  | other edit _ => edit loaded

/-- The position a call brings. -/
def brings : Op → Option (Nat × Nat)
  | updateReplayCursor cursor => some (cursor.lastAppliedSeq, cursor.epoch)
  | publish seq epoch _ _ => some (seq, epoch)
  | setManifest m => some (position m)
  | _ => none

/-- The call replaces the manifest as a whole. -/
def isSetManifest : Op → Bool
  | setManifest _ => true
  | _ => false

end Op

/-! ### Positions -/

theorem cursor_buildPageIndex (m : Manifest) : m.buildPageIndex.cursor = m.cursor := by
  obtain ⟨st, idx, h⟩ := m.buildPageIndex_eq
  rw [h]

theorem cursor_detectAndNormalizeStrategy (m : Manifest) :
    m.detectAndNormalizeStrategy.cursor = m.cursor := by
  rw [Manifest.detectAndNormalizeStrategy, cursor_buildPageIndex]
  rfl

theorem cursor_postManifest {pageSize : Nat} (r : ReplayHandle pageSize) (m : Manifest) :
    (r.postManifest m).cursor = m.cursor := by
  obtain ⟨gps, keys, fts, ovs, st, idx, hmoved⟩ :=
    m.setReplayPageCount_eq m.pageCount (r.newPageCount m)
  unfold ReplayHandle.postManifest
  split
  · rw [hmoved]
  · rfl

/-- The position a call brings, else the one it has loaded. -/
theorem Op.position_stored (op : Op) (loaded : Manifest) :
    position (op.stored loaded) = op.brings.getD (position loaded) := by
  cases op with
  | updateReplayCursor cursor => rfl
  | publish seq epoch writerId anchor => rfl
  | setManifest m =>
    simp only [stored, position, cursor_detectAndNormalizeStrategy]
    rfl
  | finalize pageSize r =>
    simp only [stored, position, cursor_postManifest]
    rfl
  | flush changeCounter w plans =>
    simp only [stored, position, flushPublication, cursor_buildPageIndex]
    rfl
  | sync snap ppg pendingPageCount changeCounter dbHeader w plans =>
    simp only [stored, position, syncPublication, cursor_buildPageIndex]
    rfl
  | other edit keeps =>
    simp only [stored, position, keeps]
    rfl

/-- The checks on the sequence. -/
theorem Op.seq_le_of_accepts {op : Op} {loaded : Manifest} (h : op.accepts loaded = true)
    (hset : op.isSetManifest = false) {p : Nat × Nat} (hp : p ∈ op.brings) :
    loaded.cursor.lastAppliedSeq ≤ p.1 := by
  cases op with
  | updateReplayCursor cursor =>
    cases hp
    cases hv : loaded.validateReplayCursorUpdate cursor with
    | ok u => exact Manifest.le_of_validateReplayCursorUpdate hv
    | error e => simp [accepts, hv, Except.isOk, Except.toBool] at h
  | publish seq epoch writerId anchor =>
    cases hp
    cases hv : loaded.validateReplayCursorPublish seq epoch writerId with
    | ok u => exact (Manifest.validateReplayCursorPublish_eq_ok.mp hv).1
    | error e => simp [accepts, hv, Except.isOk, Except.toBool] at h
  | setManifest m => cases hset
  | finalize | flush | sync | other => cases hp

/-! ### Runs -/

/-- A call under way, and the manifest it has loaded. -/
structure Running where
  op : Op
  loaded : Manifest

/-- A call that brought an epoch and was accepted while `current` was the epoch. -/
structure Accepted where
  epoch : Nat
  current : Nat

/-- The shared manifest and the calls under way. -/
structure State where
  shared : Manifest
  running : Nat → Option Running := fun _ => none
  accepted : List Accepted := []

/-- The steps of a call. -/
inductive Event where
  /-- a call loads the manifest and checks its arguments -/
  | load (id : Nat) (op : Op)
  | store (id : Nat)
  /-- the call fails, or finds nothing to do -/
  | stop (id : Nat)

/-- One event; `none` when it cannot happen. A refused call is over. -/
def step (s : State) : Event → Option State
  | .load id op =>
    if (s.running id).isSome then none
    else if op.accepts s.shared then
      some { s with
        running := Function.update s.running id (some ⟨op, s.shared⟩)
        accepted := (op.brings.map fun p => ⟨p.2, s.shared.cursor.epoch⟩).toList ++ s.accepted }
    else some s
  | .store id => (s.running id).map fun u =>
    { s with shared := u.op.stored u.loaded, running := Function.update s.running id none }
  | .stop id => (s.running id).map fun _ => { s with running := Function.update s.running id none }

/-- When an event does not move the cursor back. A call that is accepted brings no older epoch, and an
installed manifest no older sequence. When a call stores, the position has not moved past both what it
has loaded and what it brings. -/
def Safe (s : State) : Event → Prop
  | .load _ op => op.accepts s.shared = true → ∀ p ∈ op.brings,
      s.shared.cursor.epoch ≤ p.2 ∧
        (op.isSetManifest = true → s.shared.cursor.lastAppliedSeq ≤ p.1)
  | .store id => ∀ u, s.running id = some u →
      position s.shared ≤ position u.loaded ⊔ u.op.brings.getD (position u.loaded)
  | .stop _ => True

/-- What every reachable state keeps. -/
structure Inv (s : State) : Prop where
  /-- no call under way brings a position behind the one it has loaded -/
  ahead : ∀ id u, s.running id = some u →
    position u.loaded ≤ u.op.brings.getD (position u.loaded)
  fenced : ∀ a ∈ s.accepted, a.current ≤ a.epoch

section

variable {s s' : State}

theorem Inv.erase (h : Inv s) (id : Nat) (m : Manifest) :
    Inv { s with shared := m, running := Function.update s.running id none } where
  ahead id' u hu := by
    simp only [Function.update_apply] at hu
    split at hu
    · cases hu
    · exact h.ahead id' u hu
  fenced := h.fenced

/-- A safe call that is accepted brings a position that is not behind. -/
theorem ahead_of_accepts {op : Op} (hacc : op.accepts s.shared = true)
    (hsafe : ∀ p ∈ op.brings, s.shared.cursor.epoch ≤ p.2 ∧
      (op.isSetManifest = true → s.shared.cursor.lastAppliedSeq ≤ p.1)) :
    position s.shared ≤ op.brings.getD (position s.shared) := by
  cases hb : op.brings with
  | none => exact le_rfl
  | some p =>
    have hp : p ∈ op.brings := hb
    obtain ⟨hepoch, hset⟩ := hsafe p hp
    have hseq : s.shared.cursor.lastAppliedSeq ≤ p.1 := by
      cases hkind : op.isSetManifest with
      | true => exact hset hkind
      | false => exact Op.seq_le_of_accepts hacc hkind hp
    exact ⟨hseq, hepoch⟩

/-- One event: the invariant is kept, and the position does not move back. -/
theorem step_inv {e : Event} (h : Inv s) (hsafe : Safe s e) (hs : step s e = some s') :
    Inv s' ∧ position s.shared ≤ position s'.shared := by
  cases e with
  | load id op =>
    simp only [step] at hs
    split at hs
    · cases hs
    · split at hs
      · rename_i hacc
        cases hs
        refine ⟨⟨?_, ?_⟩, le_rfl⟩
        · intro id' u hu
          simp only [Function.update_apply] at hu
          split at hu
          · cases hu
            exact ahead_of_accepts hacc (hsafe hacc)
          · exact h.ahead id' u hu
        · intro a ha
          simp only [List.mem_append, Option.mem_toList, Option.map_eq_some_iff] at ha
          cases ha with
          | inl hnew =>
            obtain ⟨p, hp, rfl⟩ := hnew
            exact (hsafe hacc p hp).1
          | inr hold => exact h.fenced a hold
      · cases hs
        exact ⟨h, le_rfl⟩
  | store id =>
    obtain ⟨u, hu, rfl⟩ := Option.map_eq_some_iff.mp hs
    refine ⟨h.erase id _, ?_⟩
    have hle := hsafe u hu
    -- what the call brings is not behind what it has loaded
    rw [sup_eq_right.mpr (h.ahead id u hu), ← u.op.position_stored] at hle
    exact hle
  | stop id =>
    obtain ⟨u, -, rfl⟩ := Option.map_eq_some_iff.mp hs
    exact ⟨h.erase id _, le_rfl⟩

end

/-- In every run whose events are safe no part of the run moves the sequence or the epoch of the shared
manifest back, and no call that was accepted brought an older epoch. -/
theorem cursor_fencing {m : Manifest} {es₁ es₂ : List Event} {s₁ s₂ : State}
    (h₁ : run step { shared := m } es₁ = some s₁) (h₂ : run step s₁ es₂ = some s₂)
    (hsafe : Meets step Safe { shared := m } (es₁ ++ es₂)) :
    s₁.shared.cursor.lastAppliedSeq ≤ s₂.shared.cursor.lastAppliedSeq ∧
      s₁.shared.cursor.epoch ≤ s₂.shared.cursor.epoch ∧
      ∀ a ∈ s₂.accepted, a.current ≤ a.epoch := by
  have hinit : Inv { shared := m } := ⟨by simp, by simp⟩
  have hstep : ∀ s e s', Inv s → Safe s e → step s e = some s' →
      Inv s' ∧ position s.shared ≤ position s'.shared := fun _ _ _ hi hc hs => step_inv hi hc hs
  obtain ⟨hinv, hle⟩ := run_invariant_monotone hstep hinit hsafe h₁ h₂
  exact ⟨hle.1, hle.2, hinv.fenced⟩

namespace Example

/-- A published base of four pages. -/
def manifest : Manifest where
  version := 7
  pageCount := 4
  pageSize := 512
  pagesPerGroup := 4

/-- A checksum of 32 bytes. -/
def checksum : Bytes := List.replicate 32 0xAB

/-- The writer publishes sequence 3 under epoch 11. -/
def publish : List Event := [.load 0 (.publish 3 11 "writer-a" fun _ => checksum), .store 0]

/-- The follower records sequence 4 under an epoch. -/
def update (epoch : Nat) : List Event := [.load 0 (.updateReplayCursor ⟨4, checksum, epoch⟩), .store 0]

/-- The state after the publish. -/
def published : State := (run step { shared := manifest } publish).getD { shared := manifest }

/-- The state after an update at an epoch. -/
def updated (epoch : Nat) : State := (run step published (update epoch)).getD published

theorem meets_publish : Meets step Safe { shared := manifest } (publish ++ update 11) := by
  refine Meets.cons ?_ rfl <| Meets.cons ?_ rfl <| Meets.cons ?_ rfl <| Meets.cons ?_ rfl trivial
  · intro _ p hp
    cases hp
    decide
  · intro u hu
    cases hu
    decide
  · intro _ p hp
    cases hp
    decide
  · intro u hu
    cases hu
    decide

end Example

/-- A follower's update under the epoch of the base. -/
theorem update_same_epoch :
    Example.published.shared.cursor.lastAppliedSeq ≤
        (Example.updated 11).shared.cursor.lastAppliedSeq ∧
      Example.published.shared.cursor.epoch ≤ (Example.updated 11).shared.cursor.epoch ∧
      ∀ a ∈ (Example.updated 11).accepted, a.current ≤ a.epoch :=
  have h₁ : run step { shared := Example.manifest } Example.publish = some Example.published := rfl
  have h₂ : run step Example.published (Example.update 11) = some (Example.updated 11) := rfl
  cursor_fencing h₁ h₂ Example.meets_publish

/-- An update under an older epoch is accepted, and the epoch goes back. -/
theorem older_epoch_accepted : ∃ s₁ s₂,
    run step { shared := Example.manifest } Example.publish = some s₁ ∧
      run step s₁ (Example.update 10) = some s₂ ∧ s₁.shared.cursor.epoch = 11 ∧
      s₂.shared.cursor.epoch = 10 :=
  ⟨_, _, rfl, rfl, rfl, rfl⟩

end Turbolite.CursorFencing
