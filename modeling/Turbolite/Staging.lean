import Mathlib.Data.List.Induction
import Turbolite.Manifest

/-!
# Turbolite.Staging

The staging log of `staging.rs`: a checkpoint in `LocalThenFlush` mode appends page images to a
log named by a sequence number, closes it with a manifest trailer and queues it; a flush reads the
queued logs back and merges them in queue order.

A log is kept as its records rather than as bytes: the header's page size, the complete page
records in the order they were appended, and the trailer.
-/

namespace Turbolite

/-- One `{version}.log` file. -/
structure StagingLog where
  version : Nat
  pageSize : Nat
  records : List (Nat × Bytes) := []
  trailer : Option Manifest := none
  deriving DecidableEq

/-- A checkpoint waiting for upload. The path of its log is `{version}.log`. -/
structure PendingFlush where
  version : Nat
  pageSize : Nat
  deriving DecidableEq, Repr

/-- The staging directory: version to log file. -/
abbrev StagingDir := HMap Nat StagingLog

namespace StagingLog

/-- `StagingWriter::append`. -/
def append (log : StagingLog) (pageNum : Nat) (data : Bytes) : StagingLog :=
  { log with records := log.records ++ [(pageNum, data)] }

/-- `StagingWriter::append_manifest`. -/
def appendManifest (log : StagingLog) (m : Manifest) : StagingLog := { log with trailer := some m }

/-- `read_staging_log`: the last record of a page wins; an unsupported page size in the header
reads as an empty log. -/
def read (log : StagingLog) : HMap Nat Bytes :=
  if Manifest.isValidPageSize log.pageSize then
    log.records.foldl (fun pages r => pages.insert r.1 r.2) ∅
  else ∅

theorem lookup_foldl_records {rs : List (Nat × Bytes)} {pages : HMap Nat Bytes} {p : Nat} {d : Bytes}
    (h : (rs.foldl (fun pages r => pages.insert r.1 r.2) pages).lookup p = some d) :
    (p, d) ∈ rs ∨ pages.lookup p = some d := by
  induction rs generalizing pages with
  | nil => exact .inr h
  | cons r rs ih =>
    rcases ih h with hmem | hp
    · exact .inl (List.mem_cons_of_mem r hmem)
    · by_cases hr : p = r.1
      · rw [hr, AList.lookup_insert] at hp
        cases hp
        exact .inl (hr ▸ List.mem_cons_self ..)
      · rw [AList.lookup_insert_ne hr] at hp
        exact .inr hp

theorem mem_records_of_read {log : StagingLog} {p : Nat} {d : Bytes}
    (h : log.read.lookup p = some d) : (p, d) ∈ log.records := by
  unfold read at h
  split at h
  · rcases lookup_foldl_records h with hmem | hnone
    · exact hmem
    · cases hnone
  · cases h

/-- An appended image is the one that is read. -/
theorem lookup_read_append {log : StagingLog} (h : Manifest.isValidPageSize log.pageSize = true)
    (p q : Nat) (d : Bytes) :
    (log.append p d).read.lookup q = if q = p then some d else log.read.lookup q := by
  simp only [read, append, h, if_true, List.foldl_append, List.foldl_cons, List.foldl_nil]
  split
  · rename_i hq
    rw [hq, AList.lookup_insert]
  · rename_i hq
    rw [AList.lookup_insert_ne hq]

/-- Two logs hold an image of one page. -/
def Shares (a b : StagingLog) : Prop := ∃ p, p ∈ a.read ∧ p ∈ b.read

@[simp] theorem append_version (log : StagingLog) (p : Nat) (d : Bytes) :
    (log.append p d).version = log.version := rfl

@[simp] theorem appendManifest_version (log : StagingLog) (m : Manifest) :
    (log.appendManifest m).version = log.version := rfl

end StagingLog

/-- Step 1 of `flush_inner`: read every queued log and `extend` one map with them in order. -/
def mergeStaged (dir : StagingDir) (flushes : List PendingFlush) : IoResult (HMap Nat Bytes) :=
  flushes.foldlM (fun staged f =>
    match dir.lookup f.version with
    | none => .error (.io .notFound s!"staging log {f.version}.log")
    | some log => .ok (log.read ∪ staged)) ∅

/-- The image of a page in the last log of `logs` that holds it. -/
def lastImage (logs : List StagingLog) (p : Nat) : Option Bytes :=
  logs.reverse.findSome? (fun log => log.read.lookup p)

/-! ### What a merge reads -/

theorem lookup_union_orElse (s t : HMap Nat Bytes) (p : Nat) :
    (s ∪ t).lookup p = (s.lookup p).or (t.lookup p) := by
  by_cases h : p ∈ s
  · rw [AList.lookup_union_left h]
    obtain ⟨b, hb⟩ := Option.isSome_iff_exists.mp (AList.lookup_isSome.mpr h)
    rw [hb, Option.some_or]
  · rw [AList.lookup_union_right h, AList.lookup_eq_none.mpr h, Option.none_or]

theorem lastImage_append (logs : List StagingLog) (log : StagingLog) (p : Nat) :
    lastImage (logs ++ [log]) p = (log.read.lookup p).or (lastImage logs p) := by
  unfold lastImage
  rw [List.reverse_append, List.reverse_singleton, List.singleton_append, List.findSome?_cons]
  cases log.read.lookup p <;> rfl

theorem lastImage_append_list (xs ys : List StagingLog) (p : Nat) :
    lastImage (xs ++ ys) p = (lastImage ys p).or (lastImage xs p) := by
  unfold lastImage
  rw [List.reverse_append, List.findSome?_append]

@[simp] theorem lastImage_singleton (log : StagingLog) (p : Nat) :
    lastImage [log] p = log.read.lookup p := by
  have h := lastImage_append [] log p
  rw [List.nil_append] at h
  rw [h]
  exact Option.or_none

theorem lastImage_eq_none {logs : List StagingLog} {p : Nat} :
    lastImage logs p = none ↔ ∀ l ∈ logs, l.read.lookup p = none := by
  simp [lastImage, List.findSome?_eq_none_iff]

/-- A merge that succeeds resolved every entry, and the last log of the queue wins. -/
theorem mergeStaged_spec {dir : StagingDir} {flushes : List PendingFlush} {staged : HMap Nat Bytes}
    (h : mergeStaged dir flushes = .ok staged) :
    ∃ logs : List StagingLog, flushes.map (fun f => dir.lookup f.version) = logs.map some ∧
      ∀ p, staged.lookup p = lastImage logs p := by
  induction flushes using List.reverseRecOn generalizing staged with
  | nil =>
    simp only [mergeStaged, List.foldlM_nil] at h
    cases h
    exact ⟨[], rfl, fun p => rfl⟩
  | append_singleton fs f ih =>
    simp only [mergeStaged, List.foldlM_append, List.foldlM_cons, List.foldlM_nil] at h
    cases hm : mergeStaged dir fs with
    | error e => rw [mergeStaged] at hm; rw [hm] at h; cases h
    | ok acc =>
      obtain ⟨logs, hres, hlook⟩ := ih hm
      rw [mergeStaged] at hm
      rw [hm] at h
      cases hf : dir.lookup f.version with
      | none => simp only [hf] at h; cases h
      | some log =>
        simp only [hf] at h
        cases h
        refine ⟨logs ++ [log], by simp [hres, hf], fun p => ?_⟩
        rw [lookup_union_orElse, lastImage_append, hlook]

/-- The image `lastImage` picks, and why it picks it. -/
theorem lastImage_eq_some {logs : List StagingLog} {p : Nat} {b : Bytes} :
    lastImage logs p = some b ↔
      ∃ pre log post, logs = pre ++ log :: post ∧ log.read.lookup p = some b ∧
        ∀ l ∈ post, l.read.lookup p = none := by
  induction logs using List.reverseRecOn with
  | nil => simp [lastImage]
  | append_singleton ls l ih =>
    rw [lastImage_append]
    cases hl : l.read.lookup p with
    | some c =>
      simp only [Option.some_or, Option.some.injEq]
      constructor
      · rintro rfl
        exact ⟨ls, l, [], rfl, hl, by simp⟩
      · rintro ⟨pre, log, post, heq, hlog, hpost⟩
        rcases List.eq_nil_or_concat post with rfl | ⟨post', x, rfl⟩
        · obtain ⟨-, h2⟩ := List.append_inj' heq rfl
          obtain rfl : l = log := by simpa using h2
          exact Option.some.inj (hl.symm.trans hlog)
        · rw [List.concat_eq_append, ← List.cons_append, ← List.append_assoc] at heq
          obtain ⟨-, h2⟩ := List.append_inj' heq rfl
          obtain rfl : l = x := by simpa using h2
          have := hpost l (by simp)
          rw [hl] at this
          cases this
    | none =>
      rw [Option.none_or, ih]
      constructor
      · rintro ⟨pre, log, post, rfl, hlog, hpost⟩
        refine ⟨pre, log, post ++ [l], by simp, hlog, fun x hx => ?_⟩
        rcases List.mem_append.mp hx with hx | hx
        · exact hpost x hx
        · rw [List.mem_singleton.mp hx, hl]
      · rintro ⟨pre, log, post, heq, hlog, hpost⟩
        rcases List.eq_nil_or_concat post with rfl | ⟨post', x, rfl⟩
        · obtain ⟨-, h2⟩ := List.append_inj' heq rfl
          obtain rfl : l = log := by simpa using h2
          rw [hl] at hlog
          cases hlog
        · rw [List.concat_eq_append, ← List.cons_append, ← List.append_assoc] at heq
          obtain ⟨h1, -⟩ := List.append_inj' heq rfl
          exact ⟨pre, log, post', h1, hlog, fun y hy => hpost y (by simp [hy])⟩

/-- Removing the consumed logs leaves every other log where it was. -/
theorem lookup_foldl_erase {fs : List PendingFlush} {dir : StagingDir} {v : Nat}
    (hv : v ∉ fs.map (·.version)) :
    (fs.foldl (fun d f => d.erase f.version) dir).lookup v = dir.lookup v := by
  induction fs generalizing dir with
  | nil => rfl
  | cons f fs ih =>
    simp only [List.map_cons, List.mem_cons, not_or] at hv
    rw [List.foldl_cons, ih hv.2, AList.lookup_erase_ne hv.1]

end Turbolite
