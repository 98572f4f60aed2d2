import Turbolite.Storage
import Turbolite.Lib.Checked
import Turbolite.Lib.Extents
import Mathlib.Data.List.Chain

/-!
# Turbolite.FrameRuns

How a worker reads the base frames of a batch (`prefetch.rs`). `coalesced_frame_runs` joins frames that
follow each other both in the table and in the object; a run is one range read, and its frames are cut out
of what was read by their own offsets. The table is not trusted: entries may leave gaps, overlap or end
past a `u64`. `coalesced_reads` compares a batch with a range read for every frame.
-/

namespace Turbolite

open Blocks Results Checked Extents

/-- The end of a frame in its object. -/
def FrameEntry.end? (e : FrameEntry) : Option Nat := add? 64 e.offset e.len

namespace FrameRuns

/-! ### Runs -/

/-- The frame starts where the last frame of the last run ends, and follows it in the table. -/
def extendsRun (table : List FrameEntry) (runs : List (List Nat)) (frameIdx : Nat)
    (entry : FrameEntry) : Option Bool :=
  match runs.getLast?.bind List.getLast? with
  | none => some false
  | some prevIdx =>
    match table[prevIdx]? with
    | none => some false
    | some prev =>
      if prevIdx + 1 = frameIdx then prev.end?.map fun prevEnd => prevEnd == entry.offset
      else some false

/-- One requested frame. A frame that is not in the table is left out. -/
def pushFrame (table : List FrameEntry) (runs : List (List Nat)) (frameIdx : Nat) :
    Option (List (List Nat)) :=
  match table[frameIdx]? with
  | none => some runs
  | some entry => do
    let _ ← entry.end?
    if ← extendsRun table runs frameIdx entry then
      some (runs.dropLast ++ [runs.getLast?.getD [] ++ [frameIdx]])
    else some (runs ++ [[frameIdx]])

/-- `coalesced_frame_runs`. -/
def coalescedFrameRuns (frames : List Nat) (table : List FrameEntry) : Option (List (List Nat)) :=
  frames.foldlM (pushFrame table) []

/-! ### Reads -/

/-- Why a batch is given up; each has a counter of its own. -/
inductive BatchError where
  | decodeError
  | missingObject
  | fetchError
  /-- an index outside the run or the table -/
  | panic
  deriving DecidableEq, Repr

/-- `range_get`, with the length checked. -/
def readRange (b : Backend) (key : ObjectKey) (start len : Nat) : Except BatchError Bytes :=
  match b.rangeGet key start len with
  | .error _ => .error .fetchError
  | .ok none => .error .missingObject
  | .ok (some bytes) => .ok bytes

/-- A frame of a run, cut out of the bytes from `start` on. -/
def cutFrame (table : List FrameEntry) (start : Nat) (rangeBytes : Bytes) (frameIdx : Nat) :
    Except BatchError (Nat × Bytes) := do
  let entry ← orFail .panic table[frameIdx]?
  let startInRun ← orFail .decodeError (sub? entry.offset start)
  let stop ← orFail .decodeError (add? 64 startInRun entry.len)
  let bytes ← orFail .decodeError (slice? rangeBytes startInRun stop)
  .ok (frameIdx, bytes)

/-- One range read for a run. -/
def fetchRun (b : Backend) (key : ObjectKey) (table : List FrameEntry) (run : List Nat) :
    Except BatchError (List (Nat × Bytes)) := do
  let first ← orFail .panic (run.head?.bind (table[·]?))
  let last ← orFail .panic (run.getLast?.bind (table[·]?))
  let totalLen ← orFail .decodeError (last.end?.bind (sub? · first.offset))
  if 2 ^ 32 ≤ totalLen then .error .decodeError
  else
    let rangeBytes ← readRange b key first.offset totalLen
    run.mapM (cutFrame table first.offset rangeBytes)

/-- The base frames of a batch. -/
def fetchFrames (b : Backend) (key : ObjectKey) (table : List FrameEntry) (frames : List Nat) :
    Except BatchError (List (Nat × Bytes)) :=
  match coalescedFrameRuns frames table with
  | none => .error .decodeError
  | some runs => do
    let pieces ← runs.mapM (fetchRun b key table)
    .ok pieces.flatten

/-- A range read for one frame. -/
def fetchAlone (b : Backend) (key : ObjectKey) (table : List FrameEntry) (frameIdx : Nat) :
    Except BatchError (Nat × Bytes) := do
  let entry ← orFail .panic table[frameIdx]?
  let bytes ← readRange b key entry.offset entry.len
  .ok (frameIdx, bytes)

/-! ### What the runs are -/

/-- Frame `j` comes after frame `i`, in the table and in the object. -/
def Follows (table : List FrameEntry) (i j : Nat) : Prop :=
  j = i + 1 ∧ ∃ e e', table[i]? = some e ∧ table[j]? = some e' ∧ e.offset + e.len = e'.offset

/-- A run that can be read at once. -/
structure IsRun (table : List FrameEntry) (run : List Nat) : Prop where
  nonempty : run ≠ []
  contiguous : run.IsChain (Follows table)
  fits : ∀ i ∈ run, ∃ e, table[i]? = some e ∧ e.offset + e.len < 2 ^ 64

/-- The frame is in the table, and its end is not a `u64`. -/
def Overflows (table : List FrameEntry) (i : Nat) : Prop :=
  ∃ e, table[i]? = some e ∧ 2 ^ 64 ≤ e.offset + e.len

section Runs

variable {table : List FrameEntry} {runs runs' : List (List Nat)} {frames : List Nat} {i : Nat}

theorem end?_eq_some {e : FrameEntry} {n : Nat} :
    e.end? = some n ↔ e.offset + e.len < 2 ^ 64 ∧ n = e.offset + e.len := add?_eq_some

theorem end?_eq_none {e : FrameEntry} : e.end? = none ↔ 2 ^ 64 ≤ e.offset + e.len := by
  unfold FrameEntry.end? add?
  split
  · rename_i h
    exact iff_of_false (fun hn => by cases hn) (Nat.not_le_of_lt h)
  · rename_i h
    exact iff_of_true rfl (Nat.le_of_not_lt h)

/-- A frame goes to the end of a run, or starts one. -/
theorem isRun_singleton {e : FrameEntry} (he : table[i]? = some e) (hfit : e.offset + e.len < 2 ^ 64) :
    IsRun table [i] where
  nonempty := by simp
  contiguous := List.isChain_singleton i
  fits j hj := by
    obtain rfl := List.mem_singleton.mp hj
    exact ⟨e, he, hfit⟩

theorem IsRun.push {run : List Nat} {e : FrameEntry} (h : IsRun table run) (he : table[i]? = some e)
    (hfit : e.offset + e.len < 2 ^ 64) (hlast : ∀ j ∈ run.getLast?, Follows table j i) :
    IsRun table (run ++ [i]) where
  nonempty := by simp
  contiguous := by
    refine List.isChain_append.mpr ⟨h.contiguous, List.isChain_singleton i, fun j hj k hk => ?_⟩
    obtain rfl : i = k := by simpa using hk
    exact hlast j hj
  fits j hj := by
    rcases List.mem_append.mp hj with hj | hj
    · exact h.fits j hj
    · obtain rfl := List.mem_singleton.mp hj
      exact ⟨e, he, hfit⟩

/-- Whether a frame extends the last run is known, and it does only where it follows its last frame. -/
theorem extendsRun_spec {e : FrameEntry} (hruns : ∀ run ∈ runs, IsRun table run)
    (he : table[i]? = some e) : ∃ b, extendsRun table runs i e = some b ∧ (b = true →
      ∃ init run, runs = init ++ [run] ∧ ∀ j ∈ run.getLast?, Follows table j i) := by
  rcases List.eq_nil_or_concat runs with rfl | ⟨init, run, rfl⟩
  · exact ⟨false, rfl, fun h => by cases h⟩
  · have hrun := hruns run (by simp)
    obtain hnil | ⟨pre, prev, rfl⟩ := List.eq_nil_or_concat run
    · exact absurd hnil hrun.nonempty
    · obtain ⟨e', he', hfit⟩ := hrun.fits prev (by simp)
      unfold extendsRun
      simp only [List.concat_eq_append, List.getLast?_append, List.getLast?_singleton, Option.some_or,
        Option.bind_some, he']
      by_cases hnext : prev + 1 = i
      · rw [if_pos hnext, end?_eq_some.mpr ⟨hfit, rfl⟩]
        refine ⟨_, rfl, fun h => ⟨init, _, rfl, fun j hj => ?_⟩⟩
        obtain rfl : prev = j := by simpa using hj
        exact ⟨hnext.symm, e', e, he', he, by simpa using h⟩
      · rw [if_neg hnext]
        exact ⟨false, rfl, fun h => by cases h⟩

/-- What a requested frame does to runs that are runs. -/
theorem pushFrame_spec (hruns : ∀ run ∈ runs, IsRun table run) :
    (pushFrame table runs i = none ∧ Overflows table i) ∨
      ∃ runs', pushFrame table runs i = some runs' ∧ ¬ Overflows table i ∧
        (∀ run ∈ runs', IsRun table run) ∧
        runs'.flatten = runs.flatten ++ [i].filter (· < table.length) := by
  unfold pushFrame
  cases he : table[i]? with
  | none =>
    have hout : ¬ i < table.length := by simpa using he
    refine .inr ⟨runs, rfl, ?_, hruns, by simp [hout]⟩
    rintro ⟨e, he', -⟩
    rw [he] at he'
    cases he'
  | some e =>
    have hin : i < table.length := (List.getElem?_eq_some_iff.mp he).1
    by_cases hfit : e.offset + e.len < 2 ^ 64
    · have hover : ¬ Overflows table i := by
        rintro ⟨e', he', hge⟩
        obtain rfl := Option.some.inj (he.symm.trans he')
        omega
      obtain ⟨b, hb, hfollows⟩ := extendsRun_spec hruns he
      simp only [end?_eq_some.mpr ⟨hfit, rfl⟩, hb, Option.bind_eq_bind, Option.bind_some]
      cases b with
      | false =>
        refine .inr ⟨runs ++ [[i]], by simp, hover, fun run hrun => ?_, by simp [hin]⟩
        rcases List.mem_append.mp hrun with hrun | hrun
        · exact hruns run hrun
        · obtain rfl := List.mem_singleton.mp hrun
          exact isRun_singleton he hfit
      | true =>
        obtain ⟨init, run, rfl, hlast⟩ := hfollows rfl
        refine .inr ⟨init ++ [run ++ [i]], by simp, hover, fun run' hrun' => ?_, by simp [hin]⟩
        rcases List.mem_append.mp hrun' with hrun' | hrun'
        · exact hruns run' (List.mem_append_left _ hrun')
        · obtain rfl := List.mem_singleton.mp hrun'
          exact (hruns run (by simp)).push he hfit hlast
    · simp only [end?_eq_none.mpr (Nat.le_of_not_lt hfit), Option.bind_eq_bind, Option.bind_none]
      exact .inl ⟨trivial, e, he, Nat.le_of_not_lt hfit⟩

/-- What the requested frames do to runs that are runs. -/
theorem foldlM_pushFrame_spec (frames : List Nat) (hruns : ∀ run ∈ runs, IsRun table run) :
    (frames.foldlM (pushFrame table) runs = none ∧ ∃ i ∈ frames, Overflows table i) ∨
      ∃ runs', frames.foldlM (pushFrame table) runs = some runs' ∧ (∀ i ∈ frames, ¬ Overflows table i) ∧
        (∀ run ∈ runs', IsRun table run) ∧
        runs'.flatten = runs.flatten ++ frames.filter (· < table.length) := by
  induction frames generalizing runs with
  | nil => exact .inr ⟨runs, rfl, by simp, hruns, by simp⟩
  | cons i frames ih =>
    rw [List.foldlM_cons]
    rcases pushFrame_spec (i := i) hruns with ⟨hnone, hover⟩ | ⟨mid, hmid, hfits, hruns', hflat⟩
    · rw [hnone]
      exact .inl ⟨rfl, i, List.mem_cons_self, hover⟩
    · simp only [hmid, Option.bind_eq_bind, Option.bind_some]
      rcases ih hruns' with ⟨hnone, j, hj, hover⟩ | ⟨runs', hsome, hrest, hall, hflat'⟩
      · exact .inl ⟨hnone, j, List.mem_cons_of_mem i hj, hover⟩
      · refine .inr ⟨runs', hsome, ?_, hall, ?_⟩
        · rintro j (_ | ⟨_, hj⟩)
          · exact hfits
          · exact hrest j hj
        · rw [hflat', hflat, List.append_assoc, ← List.filter_append]
          rfl

end Runs

/-! ### One read for a run -/

/-- Offset and length of a frame. -/
def extentAt (table : List FrameEntry) (i : Nat) : Nat × Nat :=
  (table[i]?.map fun e => (e.offset, e.len)).getD (0, 0)

/-- The bytes of the frames of a run. -/
def totalLen (table : List FrameEntry) (run : List Nat) : Nat := (run.map fun i => (extentAt table i).2).sum

section Reads

variable {table : List FrameEntry} {run rest : List Nat} {i : Nat} {b : Backend} {key : ObjectKey}
  {pieces : List (Nat × Bytes)}

theorem extentAt_eq {e : FrameEntry} (he : table[i]? = some e) : extentAt table i = (e.offset, e.len) := by
  rw [extentAt, he]
  rfl

/-- The frames of a run lie end to end. -/
theorem tiles_of_isChain (h : (i :: rest).IsChain (Follows table)) :
    Tiles (extentAt table i).1 ((i :: rest).map (extentAt table))
      ((extentAt table i).1 + totalLen table (i :: rest)) := by
  induction rest generalizing i with
  | nil => exact ⟨rfl, by simp [Tiles, totalLen]⟩
  | cons j rest ih =>
    obtain ⟨hfollows, hrest⟩ := List.isChain_cons_cons.mp h
    obtain ⟨-, e, e', he, he', hadj⟩ := hfollows
    have hstart : (extentAt table i).1 + (extentAt table i).2 = (extentAt table j).1 := by
      rw [extentAt_eq he, extentAt_eq he']
      exact hadj
    have htotal : totalLen table (i :: j :: rest) = (extentAt table i).2 + totalLen table (j :: rest) := by
      simp [totalLen]
    refine ⟨rfl, ?_⟩
    rw [htotal, ← Nat.add_assoc, hstart]
    exact ih hrest

/-- A run ends within a `u64`. -/
theorem IsRun.stop_lt (h : IsRun table (i :: rest)) :
    (extentAt table i).1 + totalLen table (i :: rest) < 2 ^ 64 := by
  obtain ⟨l, hl⟩ : ∃ l, (i :: rest).getLast? = some l := ⟨_, List.getLast?_cons⟩
  obtain ⟨e, he, hfit⟩ := h.fits l (List.mem_of_getLast? hl)
  have hmem : ((i :: rest).map (extentAt table)).getLast? = some (extentAt table l) := by
    rw [List.getLast?_map, hl]
    rfl
  have htiles := (tiles_of_isChain h.contiguous).last (extentAt table l) hmem
  rw [extentAt_eq he] at htiles
  rw [← htiles]
  exact hfit

theorem readRange_eq {data : Bytes} (hd : b.objects key = some data) (start len : Nat) :
    readRange b key start len =
      if Whole data (start, len) then .ok (cut data (start, len)) else .error .fetchError := by
  unfold readRange Backend.rangeGet
  simp only [hd]
  by_cases hw : Whole data (start, len)
  · have hlen : ((data.drop start).take len).length = len := hw
    rw [if_pos hw, if_pos hlen]
    rfl
  · have hlen : ¬ ((data.drop start).take len).length = len := hw
    rw [if_neg hw, if_neg hlen]

theorem readRange_missing (hd : b.objects key = none) (start len : Nat) :
    readRange b key start len = .error .missingObject := by
  unfold readRange Backend.rangeGet
  rw [hd]

/-- What a run asks for. -/
theorem fetchRun_eq (h : IsRun table (i :: rest)) : fetchRun b key table (i :: rest) =
    if 2 ^ 32 ≤ totalLen table (i :: rest) then .error .decodeError
    else readRange b key (extentAt table i).1 (totalLen table (i :: rest)) >>= fun rangeBytes =>
      (i :: rest).mapM (cutFrame table (extentAt table i).1 rangeBytes) := by
  obtain ⟨e, he, -⟩ := h.fits i List.mem_cons_self
  obtain ⟨l, hl⟩ : ∃ l, (i :: rest).getLast? = some l := ⟨_, List.getLast?_cons⟩
  obtain ⟨e', he', hfit⟩ := h.fits l (List.mem_of_getLast? hl)
  have hlast : e'.offset + e'.len = e.offset + totalLen table (i :: rest) := by
    have hmem : ((i :: rest).map (extentAt table)).getLast? = some (extentAt table l) := by
      rw [List.getLast?_map, hl]
      rfl
    have htiles := (tiles_of_isChain h.contiguous).last (extentAt table l) hmem
    rw [extentAt_eq he', extentAt_eq he] at htiles
    exact htiles
  have hend : e'.end? = some (e'.offset + e'.len) := end?_eq_some.mpr ⟨hfit, rfl⟩
  have hsub : sub? (e'.offset + e'.len) e.offset = some (totalLen table (i :: rest)) := by
    rw [sub?, hlast, if_pos (Nat.le_add_right ..), Nat.add_sub_cancel_left]
  unfold fetchRun
  simp only [List.head?_cons, hl, Option.bind_some, he, he', hend, hsub, orFail_some, ok_bind,
    extentAt_eq he]

/-- A frame of a run that is read is cut out as it is in the object. -/
theorem cutFrame_eq {data : Bytes} {start len : Nat} (hin : table[i]?.isSome)
    (hlow : start ≤ (extentAt table i).1)
    (hhigh : (extentAt table i).1 + (extentAt table i).2 ≤ start + len) (hword : start + len < 2 ^ 64)
    (hwhole : Whole data (start, len)) :
    cutFrame table start (cut data (start, len)) i = .ok (i, cut data (extentAt table i)) := by
  obtain ⟨e, he⟩ := Option.isSome_iff_exists.mp hin
  rw [extentAt_eq he] at hlow hhigh ⊢
  dsimp only at hlow hhigh
  have hsub : sub? e.offset start = some (e.offset - start) := if_pos hlow
  have hadd : add? 64 (e.offset - start) e.len = some (e.offset - start + e.len) := add?_of_lt (by omega)
  have hslice : slice? (cut data (start, len)) (e.offset - start) (e.offset - start + e.len) =
      some (cut data (e.offset, e.len)) := by
    rw [slice?_add (by rw [hwhole]; dsimp only; omega), ← cut_cut hlow hhigh]
    rfl
  unfold cutFrame
  simp only [he, hsub, hadd, hslice, orFail_some, ok_bind]

theorem fetchAlone_eq {data : Bytes} (hd : b.objects key = some data) (hin : table[i]?.isSome) :
    fetchAlone b key table i =
      if Whole data (extentAt table i) then .ok (i, cut data (extentAt table i)) else .error .fetchError := by
  obtain ⟨e, he⟩ := Option.isSome_iff_exists.mp hin
  unfold fetchAlone
  simp only [he, orFail_some, ok_bind, readRange_eq hd, extentAt_eq he]
  split <;> rfl

/-- The read of a run gives what the reads of its frames give, unless the run is too long for one read. -/
theorem fetchRun_eq_ok (h : IsRun table run) : fetchRun b key table run = .ok pieces ↔
    totalLen table run < 2 ^ 32 ∧ run.mapM (fetchAlone b key table) = .ok pieces := by
  cases run with
  | nil => exact absurd rfl h.nonempty
  | cons i rest =>
    rw [fetchRun_eq h]
    by_cases hlong : 2 ^ 32 ≤ totalLen table (i :: rest)
    · rw [if_pos hlong]
      refine iff_of_false (fun hr => by cases hr) fun hr => ?_
      omega
    · rw [if_neg hlong, and_iff_right (Nat.lt_of_not_le hlong)]
      have hin : ∀ j ∈ i :: rest, table[j]?.isSome := by
        intro j hj
        obtain ⟨e, he, -⟩ := h.fits j hj
        rw [he]
        rfl
      cases hd : b.objects key with
      | none =>
        rw [readRange_missing hd, error_bind, List.mapM_cons]
        obtain ⟨e, he, -⟩ := h.fits i List.mem_cons_self
        have halone : fetchAlone b key table i = .error .missingObject := by
          unfold fetchAlone
          simp only [he, orFail_some, ok_bind, readRange_missing hd, error_bind]
        rw [halone]
        exact iff_of_false (fun hr => by cases hr) fun hr => by cases hr
      | some data =>
        have htiles := tiles_of_isChain h.contiguous
        have hword := h.stop_lt
        have hbounds := htiles.bounds
        have hwhole : Whole data ((extentAt table i).1, totalLen table (i :: rest)) ↔
            ∀ x ∈ (i :: rest).map (extentAt table), Whole data x := by
          rw [← htiles.whole_iff, Nat.add_sub_cancel_left]
        rw [readRange_eq hd]
        by_cases hall : Whole data ((extentAt table i).1, totalLen table (i :: rest))
        · rw [if_pos hall, ok_bind]
          have hframes := hwhole.mp hall
          refine Eq.congr_left (mapM_congr (List.map_congr_left fun j hj => ?_))
          have hj' : extentAt table j ∈ (i :: rest).map (extentAt table) := List.mem_map_of_mem hj
          obtain ⟨hlow, hhigh⟩ := hbounds _ hj'
          rw [cutFrame_eq (hin j hj) hlow hhigh hword hall, fetchAlone_eq hd (hin j hj),
            if_pos (hframes _ hj')]
        · rw [if_neg hall, error_bind]
          refine iff_of_false (fun hr => by cases hr) fun hr => hall (hwhole.mpr fun x hx => ?_)
          obtain ⟨j, hj, rfl⟩ := List.mem_map.mp hx
          obtain ⟨piece, -, hpiece⟩ := ok_of_mapM hr hj
          rw [fetchAlone_eq hd (hin j hj)] at hpiece
          by_contra hnot
          rw [if_neg hnot] at hpiece
          cases hpiece

/-- The reads of the runs give what the reads of their frames give. -/
theorem mapM_fetchRun_eq_ok {runs : List (List Nat)} (h : ∀ run ∈ runs, IsRun table run) :
    (∃ parts, runs.mapM (fetchRun b key table) = .ok parts ∧ parts.flatten = pieces) ↔
      (∀ run ∈ runs, totalLen table run < 2 ^ 32) ∧
        runs.flatten.mapM (fetchAlone b key table) = .ok pieces := by
  induction runs generalizing pieces with
  | nil => simp [pure, Except.pure, eq_comm]
  | cons run runs ih =>
    have hrun := h run List.mem_cons_self
    have htail := fun r hr => h r (List.mem_cons_of_mem run hr)
    rw [List.flatten_cons, List.mapM_append, List.forall_mem_cons]
    constructor
    · rintro ⟨parts, hparts, rfl⟩
      rw [List.mapM_cons] at hparts
      obtain ⟨first, hfirst, hparts⟩ := bind_eq_ok.mp hparts
      obtain ⟨others, hothers, hparts⟩ := bind_eq_ok.mp hparts
      cases hparts
      obtain ⟨hshort, halone⟩ := (fetchRun_eq_ok hrun).mp hfirst
      obtain ⟨hshorts, halones⟩ := (ih htail).mp ⟨others, hothers, rfl⟩
      rw [halone, halones]
      exact ⟨⟨hshort, hshorts⟩, rfl⟩
    · rintro ⟨⟨hshort, hshorts⟩, hall⟩
      obtain ⟨first, hfirst, hall⟩ := bind_eq_ok.mp hall
      obtain ⟨others, hothers, hall⟩ := bind_eq_ok.mp hall
      cases hall
      obtain ⟨parts, hparts, rfl⟩ := (ih htail).mpr ⟨hshorts, hothers⟩
      refine ⟨first :: parts, ?_, rfl⟩
      rw [List.mapM_cons, (fetchRun_eq_ok hrun).mpr ⟨hshort, hfirst⟩, hparts]
      rfl

end Reads

/-- Coalescing refuses a request for a frame whose end overflows and no other. Its runs are the requested
frames of the table in order, each run is contiguous, and reading the runs gives what a read of each frame
gives, as far as a run is not too long for one read. -/
theorem coalesced_reads (frames : List Nat) (table : List FrameEntry) :
    (coalescedFrameRuns frames table = none ↔ ∃ i ∈ frames, Overflows table i) ∧
    ∀ runs, coalescedFrameRuns frames table = some runs →
      runs.flatten = frames.filter (· < table.length) ∧
      (∀ run ∈ runs, run ≠ [] ∧ run.IsChain (Follows table)) ∧
      (∀ b key, ∀ run ∈ runs, ∀ pieces, fetchRun b key table run = .ok pieces ↔
        totalLen table run < 2 ^ 32 ∧ run.mapM (fetchAlone b key table) = .ok pieces) ∧
      ∀ b key pieces, fetchFrames b key table frames = .ok pieces ↔
        (∀ run ∈ runs, totalLen table run < 2 ^ 32) ∧
          (frames.filter (· < table.length)).mapM (fetchAlone b key table) = .ok pieces := by
  have hempty : ∀ run ∈ ([] : List (List Nat)), IsRun table run := by simp
  rcases foldlM_pushFrame_spec frames hempty with
    ⟨hnone, hover⟩ | ⟨runs, hsome, hfits, hruns, hflat⟩
  · have hc : coalescedFrameRuns frames table = none := hnone
    exact ⟨iff_of_true hc hover, fun runs hr => by rw [hc] at hr; cases hr⟩
  · have hc : coalescedFrameRuns frames table = some runs := hsome
    rw [List.flatten_nil, List.nil_append] at hflat
    refine ⟨iff_of_false (fun hn => by rw [hc] at hn; cases hn) ?_, fun runs' hr => ?_⟩
    · rintro ⟨i, hi, hover⟩
      exact hfits i hi hover
    · obtain rfl := Option.some.inj (hc.symm.trans hr)
      refine ⟨hflat, fun run hrun => ⟨(hruns run hrun).nonempty, (hruns run hrun).contiguous⟩,
        fun b key run hrun pieces => fetchRun_eq_ok (hruns run hrun), fun b key pieces => ?_⟩
      rw [← hflat, ← mapM_fetchRun_eq_ok hruns]
      unfold fetchFrames
      rw [hc]
      constructor
      · intro hf
        obtain ⟨parts, hparts, hf⟩ := bind_eq_ok.mp hf
        exact ⟨parts, hparts, Except.ok.inj hf⟩
      · rintro ⟨parts, hparts, rfl⟩
        exact bind_eq_ok.mpr ⟨parts, hparts, rfl⟩

namespace Example

/-- Two frames of 2 GiB, end to end. -/
def halves : List FrameEntry :=
  [⟨0, 2 ^ 31⟩, ⟨2 ^ 31, 2 ^ 31⟩]

/-- The object whose frames are fetched. -/
def object : ObjectKey :=
  .pageGroup 0 1

/-- The object is there in full. -/
def backend : Backend where
  objects := fun key => if key = object then some (List.replicate (2 ^ 32) 0) else none

theorem whole_halves {e : Nat × Nat} (h : e.1 + e.2 ≤ 2 ^ 32) :
    Whole (List.replicate (2 ^ 32) (0 : UInt8)) e := by
  simp only [Whole, cut, List.length_take, List.length_drop, List.length_replicate]
  omega

end Example

open Example in
/-- Two frames that follow each other are one run, which is too long for one read: each frame can be read, and
the run cannot. -/
theorem long_run_unread :
    coalescedFrameRuns [0, 1] halves = some [[0, 1]] ∧
      (∀ i ∈ [0, 1], ∃ piece, fetchAlone backend object halves i = .ok piece) ∧
      ∀ pieces, fetchRun backend object halves [0, 1] ≠ .ok pieces := by
  have hobject : backend.objects object = some (List.replicate (2 ^ 32) 0) := by
    simp only [backend, if_true]
  refine ⟨by decide, fun i hi => ?_, fun pieces hread => ?_⟩
  · have hin : halves[i]?.isSome ∧ (extentAt halves i).1 + (extentAt halves i).2 ≤ 2 ^ 32 := by
      revert i
      decide
    exact ⟨_, (fetchAlone_eq hobject hin.1).trans (if_pos (whole_halves hin.2))⟩
  · have hrun : IsRun halves [0, 1] := by
      refine (isRun_singleton (e := ⟨0, 2 ^ 31⟩) rfl (by decide)).push (e := ⟨2 ^ 31, 2 ^ 31⟩) rfl (by decide) ?_
      intro j hj
      obtain rfl : 0 = j := by simpa using hj
      exact ⟨rfl, _, _, rfl, rfl, rfl⟩
    exact absurd ((fetchRun_eq_ok hrun).mp hread).1 (by decide)

end FrameRuns

end Turbolite
