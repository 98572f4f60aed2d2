import Mathlib.Data.Finset.Basic
import Mathlib.Logic.Function.Basic
import Turbolite.Lib.Runs
import Turbolite.Writers

/-!
# Turbolite.ObjectLifetime

Objects of the backend under concurrent writers and collectors. A writer (flush, durable sync,
override compaction, key rotation) uploads its objects one by one, builds its manifest, checks the
stored version (`put_manifest`), stores the manifest and deletes what it replaced. A collector (`gc`)
reads the stored manifest, lists the objects and deletes those the manifest does not name. Every party
may stop between any two steps. Which keys exist is all that matters here, so the backend is a set of
keys.

Nothing in the code keeps a collector away from objects that are uploaded and not yet named, and the
version check of `put_manifest` is a read followed by a write. `Cond` is what the other steps have to
respect for the stored manifest to name existing objects only (`no_dangling_objects`).
-/

namespace Turbolite.ObjectLifetime

open Runs

/-! ### Writers -/

/-- The work of one writer, with what it encoded. -/
inductive Job where
  | flush (changeCounter : Nat) (writes : GroupWrites) (plans : Option BundlePlans)
  | sync (vacuum : Option (Nat × Walk)) (unassigned : List Nat)
      (ppg pendingPageCount changeCounter : Nat) (dbHeader : Option Bytes)
      (rewrites : List Rewrite) (nodup : (rewrites.map (·.gid)).Nodup) (plans : BundlePlans)
  | compact (rewrites : List Rewrite) (nodup : (rewrites.map (·.gid)).Nodup)
  | rotate (recode : Nat → Bytes × Option (List FrameEntry))
      (recodeInterior recodeIndex : Nat → Bytes)

/-- The manifest the job encodes its objects under. A sync that detects a VACUUM drops every key,
and gives groups to new pages first. -/
def Job.snapshot (base : Manifest) : Job → Manifest
  | .sync vacuum unassigned ppg .. =>
    let m := match vacuum with
      | some (livePageCount, walk) => base.rewalk livePageCount walk ppg
      | none => base
    m.assignNewPagesToGroups unassigned ppg
  | _ => base

/-- What the job publishes; `current` is the shared manifest after the upload. -/
def Job.publication (base current : Manifest) : Job → Publication
  | .flush changeCounter writes plans => flushPublication base changeCounter writes plans
  | .sync vacuum unassigned ppg pendingPageCount changeCounter dbHeader rewrites nodup plans =>
    let snap := (Job.sync vacuum unassigned ppg pendingPageCount changeCounter dbHeader rewrites
      nodup plans).snapshot base
    let p := syncPublication snap current ppg pendingPageCount changeCounter dbHeader
      (.ofRewrites rewrites nodup) plans
    match vacuum with
    | some _ => { p with replaced := base.referencedKeys ++ p.replaced }
    | none => p
  | .compact rewrites nodup => compactPublication base current (.ofRewrites rewrites nodup)
  | .rotate recode recodeInterior recodeIndex =>
    rotatePublication base recode recodeInterior recodeIndex

/-- The keys the job uploads. They are chosen before the manifest is read again. -/
def Job.uploads (base : Manifest) (job : Job) : List ObjectKey :=
  (job.publication base base).uploads.map (·.1)

/-- Where a writer stands. `current` is the shared manifest its new one was built from. -/
inductive Phase where
  | uploading (done : List ObjectKey)
  | built (current : Manifest)
  | checked (current : Manifest)
  | published (current : Manifest)

/-- A writer: the manifest it started from, its job and where it is. -/
structure Writer where
  base : Manifest
  job : Job
  phase : Phase

/-- Objects the writer has uploaded and no stored manifest of its names yet. -/
def Writer.uploaded (w : Writer) : List ObjectKey :=
  match w.phase with
  | .uploading done => done
  | .built _ | .checked _ => w.job.uploads w.base
  | .published _ => []

/-- Objects the writer is going to delete. -/
def Writer.pending (w : Writer) : List ObjectKey :=
  match w.phase with
  | .published current => (w.job.publication w.base current).replaced
  | _ => []

/-! ### Collectors and the backend -/

/-- Where a `gc` stands: it has read the manifest, or it has its list of orphans. -/
inductive Collector where
  | read (live : Manifest)
  | listed (orphans : Finset ObjectKey)

/-- The stored manifest, the objects, and who is writing and collecting. -/
structure State where
  stored : Option Manifest
  objects : Finset ObjectKey
  writers : Nat → Option Writer
  collectors : Nat → Option Collector

/-- The stored manifest; a backend without one counts as empty. -/
def State.current (s : State) : Manifest := s.stored.getD Manifest.empty

/-- One writer changes. -/
def State.setWriter (s : State) (id : Nat) (w : Option Writer) : State :=
  { s with writers := Function.update s.writers id w }

/-- One collector changes. -/
def State.setCollector (s : State) (id : Nat) (c : Option Collector) : State :=
  { s with collectors := Function.update s.collectors id c }

/-- The steps of writers and collectors. -/
inductive Event where
  | start (id : Nat) (base : Manifest) (job : Job)
  | upload (id : Nat) (key : ObjectKey)
  | build (id : Nat) (current : Manifest)
  | check (id : Nat)
  | put (id : Nat)
  | delete (id : Nat) (key : ObjectKey)
  | stop (id : Nat)
  | gcRead (id : Nat)
  | gcList (id : Nat)
  | gcDelete (id : Nat) (key : ObjectKey)
  | gcStop (id : Nat)

/-- A rotation starts from the stored manifest, the others from the one their process has. -/
def canStart (s : State) (base : Manifest) : Job → Prop
  | .rotate .. => s.stored = some base
  | _ => True

instance (s : State) (base : Manifest) (job : Job) : Decidable (canStart s base job) :=
  match job with
  | .rotate .. => inferInstanceAs (Decidable (s.stored = some base))
  | .flush .. | .sync .. | .compact .. => inferInstanceAs (Decidable True)

/-- The next state; none where the step does not apply. -/
def step (s : State) : Event → Option State
  | .start id base job =>
    if s.writers id = none ∧ canStart s base job then
      some (s.setWriter id (some ⟨base, job, .uploading []⟩))
    else none
  | .upload id key =>
    match s.writers id with
    | some ⟨base, job, .uploading done⟩ =>
      if key ∈ job.uploads base then
        some { s.setWriter id (some ⟨base, job, .uploading (key :: done)⟩) with
          objects := insert key s.objects }
      else none
    | _ => none
  | .build id current =>
    match s.writers id with
    | some ⟨base, job, .uploading done⟩ =>
      if job.uploads base ⊆ done then some (s.setWriter id (some ⟨base, job, .built current⟩))
      else none
    | _ => none
  | .check id =>
    match s.writers id with
    | some ⟨base, job, .built current⟩ =>
      -- a stored version that is not older is a conflict, and the writer gives up
      if ∃ m ∈ s.stored, (job.publication base current).manifest.version ≤ m.version then
        some (s.setWriter id none)
      else some (s.setWriter id (some ⟨base, job, .checked current⟩))
    | _ => none
  | .put id =>
    match s.writers id with
    | some ⟨base, job, .checked current⟩ =>
      some { s.setWriter id (some ⟨base, job, .published current⟩) with
        stored := some (job.publication base current).manifest }
    | _ => none
  | .delete id key =>
    match s.writers id with
    | some w => if key ∈ w.pending then some { s with objects := s.objects.erase key } else none
    | none => none
  | .stop id => some (s.setWriter id none)
  | .gcRead id =>
    if (s.collectors id).isNone then some (s.setCollector id (some (.read s.current))) else none
  | .gcList id =>
    match s.collectors id with
    | some (.read live) =>
      some (s.setCollector id (some (.listed
        (s.objects.filter fun k => k ≠ .manifest ∧ k ∉ live.referencedKeys))))
    | _ => none
  | .gcDelete id key =>
    match s.collectors id with
    | some (.listed orphans) =>
      if key ∈ orphans then some { s with objects := s.objects.erase key } else none
    | _ => none
  | .gcStop id => some (s.setCollector id none)

/-! ### The property and the condition -/

/-- Every object the stored manifest names exists. -/
def NoDangling (s : State) : Prop := ∀ m, s.stored = some m → ∀ k ∈ m.referencedKeys, k ∈ s.objects

/-- A backend at rest: nobody is at work, and the stored manifest names existing objects. -/
structure AtRest (s : State) : Prop where
  writers : ∀ id, s.writers id = none
  collectors : ∀ id, s.collectors id = none
  wellKeyed : WellKeyed s.current
  present : ∀ k ∈ s.current.referencedKeys, k ∈ s.objects

/-- What the steps have to respect. A writer stores its manifest while the manifest it started from
is still the stored one, key for key, and the shared manifest kept its keys during the upload; by then
no collector has taken its objects for orphans. A collector lists the objects while the manifest it
read is the stored one, and leaves the objects of a writer alone that can still publish. -/
def Cond (s : State) : Event → Prop
  | .put id => ∀ w current, s.writers id = some w → w.phase = .checked current →
      w.base.version = s.current.version ∧ SameKeys w.base s.current ∧
      SameKeys current (w.job.snapshot w.base) ∧
      ∀ c orphans, s.collectors c = some (.listed orphans) → ∀ k ∈ w.uploaded, k ∉ orphans
  | .gcList id => ∀ live, s.collectors id = some (.read live) → live = s.current
  | .gcDelete _ key => ∀ id w, s.writers id = some w → s.current.version ≤ w.base.version →
      key ∉ w.uploaded
  | _ => True

/-! ### What a job publishes -/

theorem Job.uploads_eq (base current : Manifest) (job : Job) :
    (job.publication base current).uploads.map (·.1) = job.uploads base := by
  cases job with
  | sync vacuum => cases vacuum <;> rfl
  | flush | compact | rotate => rfl

theorem Job.publishes {base current : Manifest} {job : Job}
    (h : SameKeys current (job.snapshot base)) : Publishes base (job.publication base current) := by
  cases job with
  | flush changeCounter writes plans => exact flushPublication_publishes ..
  | compact rewrites nodup => exact compactPublication_publishes h rfl
  | rotate recode recodeInterior recodeIndex => exact rotatePublication_publishes ..
  | sync vacuum unassigned ppg pending changeCounter dbHeader rewrites nodup plans =>
    have hsync := syncPublication_publishes h ppg pending changeCounter dbHeader
      (GroupWrites.ofRewrites_frames rewrites nodup) plans
    cases vacuum with
    | none =>
      refine hsync.congr ?_ fun s => ?_
      · exact (Manifest.version_assignNewPagesToGroups ..).symm
      · exact (Manifest.keyAt_assignNewPagesToGroups ..).symm
    | some walk =>
      refine hsync.of_cleared ?_ fun s => ?_
      · exact ((Manifest.version_assignNewPagesToGroups ..).trans
          (Manifest.version_rewalk ..)).symm
      · exact (Manifest.keyAt_assignNewPagesToGroups ..).trans (Manifest.keyAt_rewalk ..)

theorem Job.version_of_mem_uploads {base : Manifest} {job : Job} {k : ObjectKey}
    (hk : k ∈ job.uploads base) : k.version? = some (base.version + 1) := by
  have hpub : Publishes base (job.publication base (job.snapshot base)) :=
    Job.publishes fun s => rfl
  rw [← Job.uploads_eq base (job.snapshot base)] at hk
  rw [← hpub.version]
  exact hpub.slots.fresh k hk

/-! ### The invariant -/

/-- What a writer relies on: its uploads are its own and stay as long as it can publish, and what it is
about to delete is old and no longer named. -/
structure WriterOk (current : Manifest) (objects : Finset ObjectKey) (w : Writer) : Prop where
  own : ∀ k ∈ w.uploaded, k ∈ w.job.uploads w.base
  present : current.version ≤ w.base.version → ∀ k ∈ w.uploaded, k ∈ objects
  pending : ∀ k ∈ w.pending, k ∉ current.referencedKeys ∧
    ∃ v ≤ current.version, k.version? = some v

/-- An orphan is not named. -/
def CollectorOk (current : Manifest) : Collector → Prop
  | .read _ => True
  | .listed orphans => ∀ k ∈ orphans, k ∉ current.referencedKeys

/-- Every referenced object exists, and no writer or collector will remove one. -/
structure Inv (s : State) : Prop where
  wellKeyed : WellKeyed s.current
  present : ∀ k ∈ s.current.referencedKeys, k ∈ s.objects
  writers : ∀ id w, s.writers id = some w → WriterOk s.current s.objects w
  collectors : ∀ id c, s.collectors id = some c → CollectorOk s.current c

theorem AtRest.inv {s : State} (h : AtRest s) : Inv s where
  wellKeyed := h.wellKeyed
  present := h.present
  writers id w hw := by rw [h.writers id] at hw; cases hw
  collectors id c hc := by rw [h.collectors id] at hc; cases hc

theorem Inv.noDangling {s : State} (h : Inv s) : NoDangling s := by
  intro m hm k hk
  have hcur : s.current = m := by rw [State.current, hm]; rfl
  exact h.present k (hcur ▸ hk)

theorem update_eq_some {α : Type} {f : Nat → Option α} {i j : Nat} {o : Option α} {a : α}
    (h : Function.update f i o j = some a) : (j = i ∧ o = some a) ∨ f j = some a := by
  rw [Function.update_apply] at h
  split at h
  · rename_i hji
    exact .inl ⟨hji, h⟩
  · exact .inr h

theorem Inv.setWriter {s : State} (h : Inv s) (id : Nat) {o : Option Writer}
    (ho : ∀ w, o = some w → WriterOk s.current s.objects w) : Inv (s.setWriter id o) where
  wellKeyed := h.wellKeyed
  present := h.present
  writers j w hw := by
    rcases update_eq_some hw with ⟨-, hw⟩ | hw
    · exact ho w hw
    · exact h.writers j w hw
  collectors := h.collectors

theorem Inv.setCollector {s : State} (h : Inv s) (id : Nat) {o : Option Collector}
    (ho : ∀ c, o = some c → CollectorOk s.current c) : Inv (s.setCollector id o) where
  wellKeyed := h.wellKeyed
  present := h.present
  writers := h.writers
  collectors j c hc := by
    rcases update_eq_some hc with ⟨-, hc⟩ | hc
    · exact ho c hc
    · exact h.collectors j c hc

/-- A new object disturbs nobody. -/
theorem Inv.insertObject {s : State} (h : Inv s) (key : ObjectKey) :
    Inv { s with objects := insert key s.objects } where
  wellKeyed := h.wellKeyed
  present k hk := Finset.mem_insert_of_mem (h.present k hk)
  writers id w hw :=
    have hok := h.writers id w hw
    { own := hok.own
      present := fun hv k hk => Finset.mem_insert_of_mem (hok.present hv k hk)
      pending := hok.pending }
  collectors := h.collectors

/-- An object that is neither named nor waiting for its manifest can go. -/
theorem Inv.eraseObject {s : State} (h : Inv s) {key : ObjectKey}
    (href : key ∉ s.current.referencedKeys)
    (hup : ∀ id w, s.writers id = some w → s.current.version ≤ w.base.version → key ∉ w.uploaded) :
    Inv { s with objects := s.objects.erase key } where
  wellKeyed := h.wellKeyed
  present k hk := Finset.mem_erase.mpr ⟨fun he => href (he ▸ hk), h.present k hk⟩
  writers id w hw :=
    have hok := h.writers id w hw
    { own := hok.own
      present := fun hv k hk =>
        Finset.mem_erase.mpr ⟨fun he => hup id w hw hv (he ▸ hk), hok.present hv k hk⟩
      pending := hok.pending }
  collectors := h.collectors

/-! ### Storing a manifest -/

/-- Storing the manifest of a writer that started from the stored one. -/
theorem Inv.put {s : State} (h : Inv s) {id : Nat} {base current : Manifest} {job : Job}
    (hw : s.writers id = some ⟨base, job, .checked current⟩) (hc : Cond s (.put id)) :
    Inv { s.setWriter id (some ⟨base, job, .published current⟩) with
      stored := some (job.publication base current).manifest } := by
  obtain ⟨hv, hk, hcur, horphans⟩ := hc _ current hw rfl
  have hp : Publishes base (job.publication base current) := Job.publishes hcur
  have hok := h.writers id _ hw
  have hups : (job.publication base current).uploads.map (·.1) = job.uploads base :=
    Job.uploads_eq ..
  have hage : ∀ k v, k.version? = some v → v ≤ s.current.version →
      k ∉ (job.publication base current).uploads.map (·.1) := by
    intro k v hkv hle hmem
    rw [hups] at hmem
    have := (Job.version_of_mem_uploads hmem).symm.trans hkv
    cases this
    have : base.version = s.current.version := hv
    omega
  have hver : (job.publication base current).manifest.version = s.current.version + 1 := by
    rw [hp.version, show base.version = s.current.version from hv]
  refine ⟨h.wellKeyed.publish hp hv hk, fun k hmem => ?_, fun j w hj => ?_, fun j c hj => ?_⟩
  · obtain ⟨t, ht⟩ := Manifest.mem_referencedKeys.mp hmem
    rcases keyAt_publication hp hv hk ht with ht | ⟨-, hup⟩
    · exact h.present k (Manifest.mem_referencedKeys.mpr ⟨t, ht⟩)
    · rw [hups] at hup
      exact hok.present (Nat.le_of_eq hv.symm) k hup
  · rcases update_eq_some hj with ⟨-, hj⟩ | hj
    · -- the writer itself: nothing waits any more, the replaced keys do
      cases hj
      refine ⟨fun k hmem => absurd hmem List.not_mem_nil,
        fun _ k hmem => absurd hmem List.not_mem_nil, fun k hmem => ?_⟩
      obtain ⟨hnot, v, hle, hkv⟩ := not_referenced_replaced h.wellKeyed hp hv hk hmem
      exact ⟨hnot, v, hver ▸ Nat.le_succ_of_le hle, hkv⟩
    · have hoj := h.writers j w hj
      refine ⟨hoj.own, fun hle => hoj.present ?_, fun k hmem => ?_⟩
      · have hle' : s.current.version + 1 ≤ w.base.version := hver ▸ hle
        omega
      · obtain ⟨hnot, v, hle, hkv⟩ := hoj.pending k hmem
        exact ⟨not_referenced_publish hp hv hk hnot (hage k v hkv hle),
          v, hver ▸ Nat.le_succ_of_le hle, hkv⟩
  · have hoj := h.collectors j c hj
    cases c with
    | read live => trivial
    | listed orphans =>
      intro k hmem
      refine not_referenced_publish hp hv hk (hoj k hmem) fun hup => ?_
      rw [hups] at hup
      exact horphans j orphans hj k hup hmem

/-! ### The other steps -/

section

variable {s : State} {id : Nat} {base current : Manifest} {job : Job} {done : List ObjectKey}
  {key : ObjectKey}

/-- A writer that starts has nothing to show yet. -/
theorem Inv.start (h : Inv s) (id : Nat) (base : Manifest) (job : Job) :
    Inv (s.setWriter id (some ⟨base, job, .uploading []⟩)) := by
  refine h.setWriter id fun w hw => ?_
  cases hw
  exact ⟨fun k hk => absurd hk List.not_mem_nil, fun _ k hk => absurd hk List.not_mem_nil,
    fun k hk => absurd hk List.not_mem_nil⟩

theorem Inv.upload (h : Inv s) (hw : s.writers id = some ⟨base, job, .uploading done⟩)
    (hkey : key ∈ job.uploads base) :
    Inv (State.setWriter { s with objects := insert key s.objects } id
      (some ⟨base, job, .uploading (key :: done)⟩)) := by
  have hok := h.writers id _ hw
  refine (h.insertObject key).setWriter id fun w hw' => ?_
  cases hw'
  refine ⟨fun k hk => ?_, fun hv k hk => ?_, fun k hk => absurd hk List.not_mem_nil⟩
  · rcases List.mem_cons.mp hk with rfl | hk
    · exact hkey
    · exact hok.own k hk
  · rcases List.mem_cons.mp hk with rfl | hk
    · exact Finset.mem_insert_self ..
    · exact Finset.mem_insert_of_mem (hok.present hv k hk)

/-- All objects are there when the manifest is built. -/
theorem Inv.build (h : Inv s) (hw : s.writers id = some ⟨base, job, .uploading done⟩)
    (hsub : ∀ k ∈ job.uploads base, k ∈ done) (current : Manifest) :
    Inv (s.setWriter id (some ⟨base, job, .built current⟩)) := by
  have hok := h.writers id _ hw
  refine h.setWriter id fun w hw' => ?_
  cases hw'
  exact ⟨fun k hk => hk, fun hv k hk => hok.present hv k (hsub k hk),
    fun k hk => absurd hk List.not_mem_nil⟩

theorem Inv.check (h : Inv s) (hw : s.writers id = some ⟨base, job, .built current⟩) :
    Inv (s.setWriter id (some ⟨base, job, .checked current⟩)) := by
  have hok := h.writers id _ hw
  refine h.setWriter id fun w hw' => ?_
  cases hw'
  exact ⟨hok.own, hok.present, fun k hk => absurd hk List.not_mem_nil⟩

/-- A writer deletes what it has replaced. An upload of a writer that can still publish is newer than
anything stored, so it is none of these. -/
theorem Inv.delete (h : Inv s) {w : Writer} (hw : s.writers id = some w) (hkey : key ∈ w.pending) :
    Inv { s with objects := s.objects.erase key } := by
  obtain ⟨hnot, v, hle, hkv⟩ := (h.writers id w hw).pending key hkey
  refine h.eraseObject hnot fun j w' hw' hv' hup => ?_
  have hown := Job.version_of_mem_uploads ((h.writers j w' hw').own key hup)
  rw [hkv] at hown
  cases hown
  omega

end

/-! ### Runs -/

theorem inv_step {s s' : State} {e : Event} (h : Inv s) (hc : Cond s e)
    (hs : step s e = some s') : Inv s' := by
  cases e with
  | start id base job =>
    simp only [step] at hs
    split at hs
    · cases hs
      exact h.start id base job
    · cases hs
  | upload id key =>
    simp only [step] at hs
    split at hs
    · rename_i base job done hw
      split at hs
      · rename_i hkey
        cases hs
        exact h.upload hw hkey
      · cases hs
    · cases hs
  | build id current =>
    simp only [step] at hs
    split at hs
    · rename_i base job done hw
      split at hs
      · rename_i hsub
        cases hs
        exact h.build hw (fun k hk => hsub hk) current
      · cases hs
    · cases hs
  | check id =>
    simp only [step] at hs
    split at hs
    · rename_i base job current hw
      split at hs
      · cases hs
        exact h.setWriter id fun w hw' => by cases hw'
      · cases hs
        exact h.check hw
    · cases hs
  | put id =>
    simp only [step] at hs
    split at hs
    · rename_i base job current hw
      cases hs
      exact h.put hw hc
    · cases hs
  | delete id key =>
    simp only [step] at hs
    split at hs
    · rename_i w hw
      split at hs
      · rename_i hkey
        cases hs
        exact h.delete hw hkey
      · cases hs
    · cases hs
  | stop id =>
    cases hs
    exact h.setWriter id fun w hw => by cases hw
  | gcRead id =>
    simp only [step] at hs
    split at hs
    · cases hs
      refine h.setCollector id fun c hc' => ?_
      cases hc'
      trivial
    · cases hs
  | gcList id =>
    simp only [step] at hs
    split at hs
    · rename_i live hlive
      cases hs
      obtain rfl := hc live hlive
      refine h.setCollector id fun c hc' => ?_
      cases hc'
      intro k hk
      exact (Finset.mem_filter.mp hk).2.2
    · cases hs
  | gcDelete id key =>
    simp only [step] at hs
    split at hs
    · rename_i orphans horphans
      split at hs
      · rename_i hkey
        cases hs
        exact h.eraseObject (h.collectors id _ horphans key hkey) hc
      · cases hs
    · cases hs
  | gcStop id =>
    cases hs
    exact h.setCollector id fun c hc' => by cases hc'

/-- In every run of writers and collectors whose steps meet `Cond`, the stored manifest names existing
objects only. -/
theorem no_dangling_objects {s s' : State} {es : List Event} (h : AtRest s)
    (hm : Meets step Cond s es) (hr : run step s es = some s') : NoDangling s' :=
  (run_invariant (fun _ _ _ hi hc hs => inv_step hi hc hs) h.inv hm hr).noDangling

/-! ### A flush and a collector -/

namespace Example

/-- Version 1 of a database of one page. -/
def manifest : Manifest :=
  { version := 1, pageCount := 1, pageSize := 512, pagesPerGroup := 4,
    pageGroupKeys := [some (.pageGroup 0 1)] }

/-- One group, and nobody at work. -/
def start : State where
  stored := some manifest
  objects := {.pageGroup 0 1}
  writers _ := none
  collectors _ := none

/-- The flush of group 0. -/
def flushJob : Job :=
  .flush 0 (.ofRewrites [⟨0, [1], none⟩] (by decide)) none

theorem keyAt_manifest (s : Slot) (k : ObjectKey) (h : manifest.keyAt s = some k) :
    s = .group 0 ∧ k = .pageGroup 0 1 := by
  cases s with
  | group g =>
    cases g with
    | zero => cases h; exact ⟨rfl, rfl⟩
    | succ g => cases h
  | interior c => cases h
  | index c => cases h
  | override g f => cases h

theorem atRest : AtRest start where
  writers _ := rfl
  collectors _ := rfl
  wellKeyed :=
    { injective := fun s t k hs ht => by
        rw [(keyAt_manifest s k hs).1, (keyAt_manifest t k ht).1]
      version := fun s k hs => by
        rw [(keyAt_manifest s k hs).2]
        exact ⟨1, Nat.le_refl 1, rfl⟩ }
  present := by decide

/-- The collector starts after the flush has stored its manifest. -/
def inOrder : List Event :=
  [.start 0 manifest flushJob, .upload 0 (.pageGroup 0 2), .build 0 manifest, .check 0, .put 0,
    .gcRead 0, .gcList 0, .delete 0 (.pageGroup 0 1), .gcDelete 0 (.pageGroup 0 1)]

/-- The collector lists the objects between the upload and the new manifest. -/
def overlapping : List Event :=
  [.start 0 manifest flushJob, .upload 0 (.pageGroup 0 2), .gcRead 0, .gcList 0, .build 0 manifest,
    .check 0, .put 0, .gcDelete 0 (.pageGroup 0 2)]

end Example

/-- The condition is met by a collector that starts once the manifest is stored. -/
theorem collected_after_flush :
    ∃ s', run step Example.start Example.inOrder = some s' ∧ s'.objects = {.pageGroup 0 2} ∧
      NoDangling s' := by
  have hm : Meets step Cond Example.start Example.inOrder := by
    refine Meets.cons trivial rfl (Meets.cons trivial rfl (Meets.cons trivial rfl
      (Meets.cons trivial rfl (Meets.cons ?_ rfl (Meets.cons trivial rfl (Meets.cons ?_ rfl
        (Meets.cons trivial rfl (Meets.cons ?_ rfl trivial))))))))
    · intro w current hw hphase
      cases Option.some.inj hw
      cases hphase
      exact ⟨rfl, fun _ => rfl, fun _ => rfl, fun c orphans hc => by cases hc⟩
    · intro live hlive
      cases Option.some.inj hlive
      rfl
    · -- the only writer has published
      intro id w hw hv hmem
      by_cases hid : id = 0
      · subst hid
        cases Option.some.inj hw
        cases hmem
      · simp [Example.start, State.setWriter, State.setCollector, hid] at hw
  obtain ⟨s', hr, ho⟩ : ∃ s', run step Example.start Example.inOrder = some s' ∧
      s'.objects = {.pageGroup 0 2} := ⟨_, rfl, by decide⟩
  exact ⟨s', hr, ho, no_dangling_objects Example.atRest hm hr⟩

/-- A collector that lists between upload and publication deletes an object the stored manifest
names. -/
theorem collected_during_flush :
    ¬ ∀ (s s' : State) (es : List Event), AtRest s → run step s es = some s' → NoDangling s' := by
  intro hall
  have hrun : ∃ s', run step Example.start Example.overlapping = some s' ∧
      s'.stored = some (Example.flushJob.publication Example.manifest Example.manifest).manifest ∧
      s'.objects = {.pageGroup 0 1} := ⟨_, rfl, rfl, by decide⟩
  obtain ⟨s', hr, hm, ho⟩ := hrun
  have hdangling := hall _ _ _ Example.atRest hr _ hm (.pageGroup 0 2) (by decide)
  rw [ho] at hdangling
  exact absurd hdangling (by decide)

end Turbolite.ObjectLifetime
