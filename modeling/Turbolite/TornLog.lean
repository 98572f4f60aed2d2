import Turbolite.StagingFile
import Turbolite.Lib.Blocks

/-!
# Turbolite.TornLog

A staging log that was cut off anywhere (`staging.rs`). `read_staging_log` keeps the complete page
records of any prefix of a log, as long as no page number is the magic value; `read_staging_manifest`
fails where the cut left a page body or the trailer incomplete. `tornSafe_iff` says which prefixes both
of them read.
-/

namespace Turbolite

open Blocks

/-! ### What a prefix holds -/

/-- The last image of a page among the records. -/
def lastWrite (rs : List (Nat × Bytes)) (p : Nat) : Option Bytes :=
  (rs.reverse.find? fun r => r.1 = p).map (·.2)

namespace StagingLog

variable (toVec : Manifest → Bytes) (log : StagingLog) (n : Nat)

/-- What the types of the writer promise: a `u32` page size, `u64` page numbers, pages of the log's size
and a trailer whose length is a `u64`. -/
structure Writable : Prop where
  pageSize : log.pageSize < 2 ^ 32
  records : ∀ r ∈ log.records, r.2.length = log.pageSize ∧ r.1 < 2 ^ 64
  trailer : ∀ m, log.trailer = some m → (toVec m).length < 2 ^ 64

/-- The first `n` bytes of the file. -/
def cut : Bytes := (log.fileBytes toVec).take n

/-- The size of a page record. -/
def recordSize : Nat := 8 + log.pageSize

/-- The page records that are complete in the first `n` bytes. -/
def completeRecords : List (Nat × Bytes) := log.records.take ((n - 4) / log.recordSize)

/-- The trailer is there, to its last byte. -/
def TrailerComplete : Prop := log.trailer.isSome ∧ (log.fileBytes toVec).length ≤ n

instance : Decidable (log.TrailerComplete toVec n) := inferInstanceAs (Decidable (_ ∧ _))

/-- Both readers succeed: one with the last image of every page whose record is complete, the other with
the trailer if it is complete and with nothing otherwise. -/
structure TornSafe : Prop where
  pages : ∀ p, (readStagingLog (log.cut toVec n)).lookup p = lastWrite (log.completeRecords n) p
  trailer : readStagingManifest (log.cut toVec n) =
    .ok (if log.TrailerComplete toVec n then log.trailer.map toVec else none)

/-! ### When both readers are right -/

/-- What follows the complete page records. -/
def tail : Bytes :=
  (log.cut toVec n).drop (4 + (log.completeRecords n).length * log.recordSize)

/-- A marker and a length larger than the whole file. -/
def Overlong (fileLen : Nat) (bytes : Bytes) : Prop :=
  16 ≤ bytes.length ∧ ofLeBytes (bytes.take 8) = manifestMagic ∧
    fileLen < ofLeBytes ((bytes.drop 8).take 8)

/-- No complete record has the magic value for a page number, and what follows the records is the whole
trailer, or too short for a marker, or has an overlong length. A log with another page size than the
supported ones must not be complete in anything. -/
def Clean : Prop :=
  n < 4 ∨
    if Manifest.isValidPageSize log.pageSize then
      (∀ r ∈ log.completeRecords n, r.1 ≠ manifestMagic) ∧
        (log.TrailerComplete toVec n ∨ (log.tail toVec n).length < 8 ∨
          Overlong (log.cut toVec n).length (log.tail toVec n))
    else log.completeRecords n = [] ∧ ¬ log.TrailerComplete toVec n

end StagingLog

/-! ### The last image -/

theorem lastWrite_append (rs : List (Nat × Bytes)) (r : Nat × Bytes) (p : Nat) :
    lastWrite (rs ++ [r]) p = if p = r.1 then some r.2 else lastWrite rs p := by
  unfold lastWrite
  rw [List.reverse_append, List.reverse_singleton, List.singleton_append, List.find?_cons]
  by_cases hp : p = r.1
  · simp [hp]
  · simp [hp, Ne.symm hp]

theorem lookup_foldl_lastWrite (rs : List (Nat × Bytes)) (p : Nat) :
    (rs.foldl (fun pages r => pages.insert r.1 r.2) (∅ : HMap Nat Bytes)).lookup p = lastWrite rs p := by
  induction rs using List.reverseRecOn with
  | nil => rfl
  | append_singleton rs r ih =>
    rw [List.foldl_append, lastWrite_append, List.foldl_cons, List.foldl_nil]
    split
    · rename_i hp
      rw [hp, AList.lookup_insert]
    · rename_i hp
      rw [AList.lookup_insert_ne hp, ih]

theorem lastWrite_isSome {rs : List (Nat × Bytes)} {r : Nat × Bytes} (hr : r ∈ rs) :
    (lastWrite rs r.1).isSome := by
  unfold lastWrite
  rw [Option.isSome_map, List.find?_isSome]
  exact ⟨r, List.mem_reverse.mpr hr, by simp⟩

/-! ### The readers -/

section Scans

variable {ps fileLen : Nat} {rest : Bytes} {rs : List (Nat × Bytes)} {pages : HMap Nat Bytes}

/-- Where the loop of `read_staging_log` ends. -/
def Ends (ps : Nat) (rest : Bytes) : Prop :=
  rest.length < 8 + ps ∨ ofLeBytes (rest.take 8) = manifestMagic

theorem scanRecords_of_ends (h : Ends ps rest) : scanRecords ps rest pages = pages := by
  rw [scanRecords]
  split
  · rfl
  · dsimp only
    split
    · rfl
    · rename_i hmagic
      rw [if_pos]
      rw [List.length_drop]
      have := h.resolve_right hmagic
      omega

theorem scanRecords_records (rest : Bytes) (pages : HMap Nat Bytes)
    (h : ∀ r ∈ rs, r.2.length = ps ∧ r.1 < 2 ^ 64 ∧ r.1 ≠ manifestMagic) :
    scanRecords ps (rs.flatMap recordBytes ++ rest) pages =
      scanRecords ps rest (rs.foldl (fun pages r => pages.insert r.1 r.2) pages) := by
  induction rs generalizing pages with
  | nil => rfl
  | cons r rs ih =>
    obtain ⟨hlen, hlt, hmagic⟩ := h r List.mem_cons_self
    have hbytes : (r :: rs).flatMap recordBytes ++ rest =
        leBytes 8 r.1 ++ (r.2 ++ (rs.flatMap recordBytes ++ rest)) := by
      simp only [List.flatMap_cons, recordBytes, List.append_assoc]
    rw [hbytes, scanRecords, take_recordBytes hlt, drop_recordBytes]
    simp only [List.length_append, length_leBytes, if_neg hmagic, List.drop_left' hlen,
      List.take_left' hlen]
    rw [if_neg (by omega), if_neg (by omega), List.foldl_cons]
    exact ih _ fun r' hr' => h r' (List.mem_cons_of_mem r hr')

/-- The magic value is never taken for a page number. -/
theorem lookup_scanRecords_magic (ps : Nat) (rest : Bytes) (pages : HMap Nat Bytes) :
    (scanRecords ps rest pages).lookup manifestMagic = pages.lookup manifestMagic := by
  fun_induction scanRecords ps rest pages with
  | case1 => rfl
  | case2 => rfl
  | case3 => rfl
  | case4 rest pages _ body pageNum hmagic _ ih =>
    rw [ih, AList.lookup_insert_ne (Ne.symm hmagic)]

/-- The reader of the trailer on what follows the page records. -/
theorem scanTrailer_of_short (h : rest.length < 8) : scanTrailer ps fileLen rest = .ok none := by
  rw [scanTrailer, if_pos h]

theorem scanTrailer_of_torn (h8 : 8 ≤ rest.length) (hlt : rest.length < 8 + ps)
    (hmagic : ofLeBytes (rest.take 8) ≠ manifestMagic) :
    scanTrailer ps fileLen rest = .error unexpectedEof := by
  rw [scanTrailer, if_neg (by omega)]
  dsimp only
  rw [if_neg hmagic, if_pos (by rw [List.length_drop]; omega)]

/-- After a marker: nothing is found exactly when the length is there and overlong. -/
theorem scanTrailer_eq_none_iff (h8 : 8 ≤ rest.length)
    (hmagic : ofLeBytes (rest.take 8) = manifestMagic) :
    scanTrailer ps fileLen rest = .ok none ↔ StagingLog.Overlong fileLen rest := by
  unfold StagingLog.Overlong
  rw [scanTrailer, if_neg (by omega)]
  dsimp only
  rw [if_pos hmagic, List.length_drop]
  by_cases h16 : rest.length - 8 < 8
  · rw [if_pos h16]
    exact iff_of_false (fun h => by cases h) fun h => absurd h.1 (by omega)
  · rw [if_neg h16]
    by_cases hover : fileLen < ofLeBytes ((rest.drop 8).take 8)
    · rw [if_pos hover]
      exact iff_of_true rfl ⟨by omega, hmagic, hover⟩
    · rw [if_neg hover]
      refine iff_of_false (fun h => ?_) fun h => hover h.2.2
      split at h
      · cases h
      · cases h

end Scans

/-! ### The bytes of a prefix -/

namespace StagingLog

variable {toVec : Manifest → Bytes} {log : StagingLog} {n : Nat}

/-- The bytes of the trailer, if there is one. -/
def trailerPart (toVec : Manifest → Bytes) (log : StagingLog) : Bytes :=
  match log.trailer with
  | some m => trailerBytes (toVec m)
  | none => []

theorem fileBytes_eq : log.fileBytes toVec =
    leBytes 4 log.pageSize ++ (log.records.flatMap recordBytes ++ log.trailerPart toVec) := rfl

theorem recordSize_pos (log : StagingLog) : 0 < log.recordSize := Nat.lt_of_lt_of_le (by decide)
  (Nat.le_add_right 8 log.pageSize)

theorem Writable.uniform (h : log.Writable toVec) {rs : List (Nat × Bytes)} (hrs : rs ⊆ log.records) :
    Uniform log.recordSize (rs.map recordBytes) := by
  intro bytes hbytes
  obtain ⟨r, hr, rfl⟩ := List.mem_map.mp hbytes
  rw [recordBytes, List.length_append, length_leBytes, (h.records r (hrs hr)).1]
  rfl

theorem Writable.length_flatMap (h : log.Writable toVec) {rs : List (Nat × Bytes)}
    (hrs : rs ⊆ log.records) : (rs.flatMap recordBytes).length = rs.length * log.recordSize := by
  rw [List.flatMap_def, length_flatten_of_uniform (h.uniform hrs), List.length_map]

theorem completeRecords_subset : log.completeRecords n ⊆ log.records := List.take_subset _ _

theorem length_completeRecords :
    (log.completeRecords n).length = min ((n - 4) / log.recordSize) log.records.length :=
  List.length_take

/-- The complete records are at the front of the file. -/
theorem Writable.take_body (h : log.Writable toVec) :
    (log.records.flatMap recordBytes ++ log.trailerPart toVec).take
      ((log.completeRecords n).length * log.recordSize) =
      (log.completeRecords n).flatMap recordBytes := by
  have hle : (log.completeRecords n).length ≤ log.records.length := by
    rw [length_completeRecords]
    exact Nat.min_le_right ..
  have htake : log.records.take (log.completeRecords n).length = log.completeRecords n := by
    rw [length_completeRecords, completeRecords]
    exact (List.take_eq_take_min ..).symm
  rw [List.take_append_of_le_length, List.flatMap_def, take_flatten_of_uniform
    (h.uniform fun _ hr => hr), ← List.map_take, htake, ← List.flatMap_def]
  rw [h.length_flatMap fun _ hr => hr]
  exact Nat.mul_le_mul_right _ hle

theorem complete_le (h4 : 4 ≤ n) : 4 + (log.completeRecords n).length * log.recordSize ≤ n := by
  have hmul : (log.completeRecords n).length * log.recordSize ≤ (n - 4) / log.recordSize * log.recordSize := by
    refine Nat.mul_le_mul_right _ ?_
    rw [length_completeRecords]
    exact Nat.min_le_left ..
  have hdiv := Nat.div_mul_le_self (n - 4) log.recordSize
  omega

/-- Header, complete records, and the rest. -/
theorem Writable.cut_eq (h : log.Writable toVec) (h4 : 4 ≤ n) : log.cut toVec n =
    leBytes 4 log.pageSize ++ ((log.completeRecords n).flatMap recordBytes ++ log.tail toVec n) := by
  have hle : 4 + (log.completeRecords n).length * log.recordSize ≤ n := complete_le h4
  have hfront : (log.cut toVec n).take (4 + (log.completeRecords n).length * log.recordSize) =
      leBytes 4 log.pageSize ++ (log.completeRecords n).flatMap recordBytes := by
    unfold cut
    rw [List.take_take, Nat.min_eq_left hle, fileBytes_eq, ← h.take_body]
    have hlen := length_leBytes 4 log.pageSize
    rw [List.take_append, hlen, Nat.add_sub_cancel_left, List.take_of_length_le (by omega)]
  calc log.cut toVec n
      = (log.cut toVec n).take (4 + (log.completeRecords n).length * log.recordSize) ++
          log.tail toVec n := (List.take_append_drop ..).symm
    _ = _ := by rw [hfront, List.append_assoc]

/-- All records are complete, or what follows them is shorter than one more. -/
theorem Writable.tail_eq (h : log.Writable toVec) (h4 : 4 ≤ n) :
    log.tail toVec n = (log.trailerPart toVec).take (n - 4 - log.records.length * log.recordSize) ∧
        log.completeRecords n = log.records ∨
      (log.tail toVec n).length < log.recordSize ∧ ¬ log.TrailerComplete toVec n := by
  have hsize := recordSize_pos log
  have hlen : (log.completeRecords n).length = _ := length_completeRecords
  by_cases hall : log.records.length ≤ (n - 4) / log.recordSize
  · refine .inl ⟨?_, List.take_of_length_le hall⟩
    rw [Nat.min_eq_right hall] at hlen
    have hfull : (log.records.flatMap recordBytes).length = log.records.length * log.recordSize :=
      h.length_flatMap fun _ hr => hr
    rw [tail, hlen, cut, fileBytes_eq, List.drop_take, ← List.append_assoc, List.drop_left']
    · rw [Nat.sub_sub]
    · rw [List.length_append, length_leBytes, hfull]
  · rw [Nat.min_eq_left (Nat.le_of_not_le hall)] at hlen
    have hmod := Nat.div_add_mod (n - 4) log.recordSize
    have hlt := Nat.mod_lt (n - 4) hsize
    refine .inr ⟨?_, fun hcomplete => hall ?_⟩
    · rw [tail, hlen, List.length_drop, cut, List.length_take, Nat.mul_comm]
      omega
    · rw [Nat.le_div_iff_mul_le hsize, ← h.length_flatMap fun _ hr => hr]
      have hle := hcomplete.2
      rw [fileBytes_eq, List.length_append, List.length_append, length_leBytes] at hle
      omega

theorem trailerPart_of_none (ht : log.trailer = none) : log.trailerPart toVec = [] := by
  rw [trailerPart, ht]

/-- The loop of `read_staging_log` stops at what follows the complete records. -/
theorem Writable.ends_tail (h : log.Writable toVec) (h4 : 4 ≤ n) :
    Ends log.pageSize (log.tail toVec n) := by
  rcases h.tail_eq h4 with ⟨htail, -⟩ | ⟨hlt, -⟩
  · by_cases h8 : (log.tail toVec n).length < 8
    · exact .inl (Nat.lt_of_lt_of_le h8 (Nat.le_add_right ..))
    · refine .inr ?_
      cases ht : log.trailer with
      | none =>
        rw [htail, trailerPart_of_none ht, List.take_nil] at h8
        exact absurd (by decide) h8
      | some m =>
        rw [htail, List.length_take] at h8
        rw [htail, List.take_take, Nat.min_eq_left (by omega), trailerPart, ht]
        exact take_recordBytes (by decide) _ _
  · exact .inl hlt

/-- A complete trailer is all that follows the records. -/
theorem Writable.tail_of_complete (h : log.Writable toVec) (h4 : 4 ≤ n) {m : Manifest}
    (hm : log.trailer = some m) (hcomplete : log.TrailerComplete toVec n) :
    log.tail toVec n = trailerBytes (toVec m) ∧ (toVec m).length ≤ (log.cut toVec n).length := by
  have hcut : log.cut toVec n = log.fileBytes toVec := List.take_of_length_le hcomplete.2
  have hpart : log.trailerPart toVec = trailerBytes (toVec m) := by rw [trailerPart, hm]
  have hlen : (log.fileBytes toVec).length = 4 + (log.records.length * log.recordSize +
      (log.trailerPart toVec).length) := by
    rw [fileBytes_eq, List.length_append, List.length_append, length_leBytes,
      h.length_flatMap fun _ hr => hr]
  have hle := hcomplete.2
  rcases h.tail_eq h4 with ⟨htail, -⟩ | ⟨-, hno⟩
  · refine ⟨?_, ?_⟩
    · rw [htail, List.take_of_length_le (by omega), hpart]
    · rw [hcut, hlen, hpart, trailerBytes]
      simp only [List.length_append, length_leBytes]
      omega
  · exact absurd hcomplete hno

/-! ### Both readers on a prefix -/

theorem length_cut (toVec : Manifest → Bytes) (log : StagingLog) (n : Nat) :
    (log.cut toVec n).length = min n (log.fileBytes toVec).length := List.length_take

theorem four_le_length_fileBytes (toVec : Manifest → Bytes) (log : StagingLog) :
    4 ≤ (log.fileBytes toVec).length := by
  rw [fileBytes_eq, List.length_append, length_leBytes]
  exact Nat.le_add_right ..

/-- The page size is read back from the header. -/
theorem Writable.header (h : log.Writable toVec) (h4 : 4 ≤ n) :
    ¬ (log.cut toVec n).length < 4 ∧ ofLeBytes ((log.cut toVec n).take 4) = log.pageSize ∧
      (log.cut toVec n).drop 4 =
        (log.completeRecords n).flatMap recordBytes ++ log.tail toVec n := by
  have hlen := four_le_length_fileBytes toVec log
  refine ⟨?_, ?_, ?_⟩
  · rw [length_cut]
    omega
  · rw [h.cut_eq h4, List.take_left' (length_leBytes 4 _)]
    exact ofLeBytes_leBytes (Nat.lt_of_lt_of_eq h.pageSize (by decide))
  · rw [h.cut_eq h4, List.drop_left' (length_leBytes 4 _)]

theorem Writable.readStagingLog_cut (h : log.Writable toVec) (h4 : 4 ≤ n) :
    readStagingLog (log.cut toVec n) = if Manifest.isValidPageSize log.pageSize then
      scanRecords log.pageSize ((log.completeRecords n).flatMap recordBytes ++ log.tail toVec n) ∅
      else ∅ := by
  obtain ⟨hlen, hsize, hdrop⟩ := h.header h4
  rw [readStagingLog, if_neg hlen, hsize, hdrop]

theorem Writable.readStagingManifest_cut (h : log.Writable toVec) (h4 : 4 ≤ n) :
    readStagingManifest (log.cut toVec n) = if Manifest.isValidPageSize log.pageSize then
      scanTrailer log.pageSize (log.cut toVec n).length
        ((log.completeRecords n).flatMap recordBytes ++ log.tail toVec n)
      else .ok none := by
  obtain ⟨hlen, hsize, hdrop⟩ := h.header h4
  rw [readStagingManifest, if_neg hlen, hsize, hdrop]

/-- A prefix without a header has nothing to read. -/
theorem tornSafe_of_lt (h4 : n < 4) : log.TornSafe toVec n := by
  have hlen : (log.cut toVec n).length < 4 := by
    rw [length_cut]
    omega
  have hrecords : log.completeRecords n = [] := by
    rw [completeRecords, Nat.sub_eq_zero_of_le (by omega), Nat.zero_div, List.take_zero]
  have hno : ¬ log.TrailerComplete toVec n := fun hcomplete => by
    have := hcomplete.2
    have := four_le_length_fileBytes toVec log
    omega
  refine ⟨fun p => ?_, ?_⟩
  · rw [readStagingLog, if_pos hlen, hrecords]
    rfl
  · rw [readStagingManifest, if_pos hlen, if_neg hno]

/-- A log with an unsupported page size reads as an empty one. -/
theorem Writable.tornSafe_iff_of_unsupported (h : log.Writable toVec) (h4 : 4 ≤ n)
    (hps : Manifest.isValidPageSize log.pageSize ≠ true) : log.TornSafe toVec n ↔
      log.completeRecords n = [] ∧ ¬ log.TrailerComplete toVec n := by
  have hlog := h.readStagingLog_cut h4
  have hmanifest := h.readStagingManifest_cut h4
  rw [if_neg hps] at hlog hmanifest
  constructor
  · intro hsafe
    refine ⟨?_, fun hcomplete => ?_⟩
    · by_contra hne
      obtain ⟨r, hr⟩ := List.exists_mem_of_ne_nil _ hne
      have hpage := hsafe.pages r.1
      rw [hlog, AList.lookup_empty] at hpage
      have hsome := lastWrite_isSome hr
      rw [← hpage] at hsome
      cases hsome
    · have htrailer := hsafe.trailer
      rw [hmanifest, if_pos hcomplete, Except.ok.injEq] at htrailer
      have hsome := hcomplete.1
      rw [← Option.isSome_map, ← htrailer] at hsome
      cases hsome
  · rintro ⟨hrecords, hno⟩
    refine ⟨fun p => ?_, ?_⟩
    · rw [hlog, hrecords]
      rfl
    · rw [hmanifest, if_neg hno]

section Supported

variable (h : log.Writable toVec) (h4 : 4 ≤ n)
  (hps : Manifest.isValidPageSize log.pageSize = true)

include h h4 hps

/-- The pages of a prefix are right exactly when no record looks like a trailer. -/
theorem pages_iff :
    (∀ p, (readStagingLog (log.cut toVec n)).lookup p = lastWrite (log.completeRecords n) p) ↔
      ∀ r ∈ log.completeRecords n, r.1 ≠ manifestMagic := by
  rw [h.readStagingLog_cut h4, if_pos hps]
  constructor
  · intro hpages r hr heq
    have hpage := hpages manifestMagic
    rw [lookup_scanRecords_magic, AList.lookup_empty, ← heq] at hpage
    have hsome := lastWrite_isSome hr
    rw [← hpage] at hsome
    cases hsome
  · intro hmagic p
    rw [scanRecords_records _ _ fun r hr =>
        ⟨(h.records r (completeRecords_subset hr)).1, (h.records r (completeRecords_subset hr)).2,
          hmagic r hr⟩,
      scanRecords_of_ends (h.ends_tail h4)]
    exact lookup_foldl_lastWrite _ p

/-- The trailer of a prefix, when no record looks like one. -/
theorem trailer_iff (hmagic : ∀ r ∈ log.completeRecords n, r.1 ≠ manifestMagic) :
    readStagingManifest (log.cut toVec n) =
        .ok (if log.TrailerComplete toVec n then log.trailer.map toVec else none) ↔
      log.TrailerComplete toVec n ∨ (log.tail toVec n).length < 8 ∨
        Overlong (log.cut toVec n).length (log.tail toVec n) := by
  rw [h.readStagingManifest_cut h4, if_pos hps, scanTrailer_records _ fun r hr =>
    ⟨(h.records r (completeRecords_subset hr)).1, (h.records r (completeRecords_subset hr)).2,
      hmagic r hr⟩]
  by_cases hcomplete : log.TrailerComplete toVec n
  · refine iff_of_true ?_ (.inl hcomplete)
    obtain ⟨m, hm⟩ := Option.isSome_iff_exists.mp hcomplete.1
    obtain ⟨htail, hle⟩ := h.tail_of_complete h4 hm hcomplete
    rw [if_pos hcomplete, htail, hm, Option.map_some]
    exact scanTrailer_trailer hle (h.trailer m hm)
  · rw [if_neg hcomplete, or_iff_right hcomplete]
    by_cases h8 : (log.tail toVec n).length < 8
    · exact iff_of_true (scanTrailer_of_short h8) (.inl h8)
    · rw [or_iff_right h8]
      by_cases hmark : ofLeBytes ((log.tail toVec n).take 8) = manifestMagic
      · exact scanTrailer_eq_none_iff (by omega) hmark
      · have hlt := (h.ends_tail h4).resolve_right hmark
        rw [scanTrailer_of_torn (by omega) hlt hmark]
        exact iff_of_false (fun heq => by cases heq) fun hover => hmark hover.2.1

end Supported

/-- Exactly the clean prefixes are read back, whatever the pages and their numbers are. -/
theorem tornSafe_iff (log : StagingLog) (h : log.Writable toVec) (n : Nat) :
    log.TornSafe toVec n ↔ log.Clean toVec n := by
  unfold Clean
  by_cases h4 : n < 4
  · exact iff_of_true (tornSafe_of_lt h4) (.inl h4)
  · rw [or_iff_right h4]
    by_cases hps : Manifest.isValidPageSize log.pageSize = true
    · rw [if_pos hps]
      constructor
      · intro hsafe
        have hmagic := (pages_iff h (by omega) hps).mp hsafe.pages
        exact ⟨hmagic, (trailer_iff h (by omega) hps hmagic).mp hsafe.trailer⟩
      · rintro ⟨hmagic, htrailer⟩
        exact ⟨(pages_iff h (by omega) hps).mpr hmagic,
          (trailer_iff h (by omega) hps hmagic).mpr htrailer⟩
    · rw [if_neg hps]
      exact h.tornSafe_iff_of_unsupported (by omega) hps

/-! ### Two pages, cut off -/

namespace Example

/-- Two records and no trailer. -/
def twoPages : StagingLog where
  version := 1
  pageSize := 512
  records := [(0, List.replicate 512 7), (1, List.replicate 512 8)]

/-- No trailer is ever written. -/
def noTrailer : Manifest → Bytes := fun _ => []

theorem writable : twoPages.Writable noTrailer where
  pageSize := by decide
  records := by
    intro r hr
    rcases List.mem_cons.mp hr with rfl | hr
    · exact ⟨List.length_replicate, by decide⟩
    · rw [List.mem_singleton.mp hr]
      exact ⟨List.length_replicate, by decide⟩
  trailer _ hm := by cases hm

end Example

/-- A cut inside the second page number keeps the first page and finds no trailer. -/
theorem cut_page_number_is_safe : Example.twoPages.TornSafe Example.noTrailer 529 := by
  refine (tornSafe_iff Example.twoPages Example.writable 529).mpr (.inr ⟨fun r hr => ?_, ?_⟩)
  · have hrecords : Example.twoPages.completeRecords 529 = [(0, List.replicate 512 7)] := rfl
    rw [hrecords, List.mem_singleton] at hr
    rw [hr]
    decide
  · exact .inr (.inl (by decide +kernel))

/-- Ten bytes of the second page body: the pages are read, the search for the trailer fails. -/
theorem cut_page_body_fails : Example.twoPages.Writable Example.noTrailer ∧
    readStagingManifest (Example.twoPages.cut Example.noTrailer 542) = .error unexpectedEof ∧
    ¬ Example.twoPages.TornSafe Example.noTrailer 542 := by
  have hrecords : Example.twoPages.completeRecords 542 = [(0, List.replicate 512 7)] := rfl
  have hlen : (Example.twoPages.tail Example.noTrailer 542).length = 18 := by decide +kernel
  have hmark : ofLeBytes ((Example.twoPages.tail Example.noTrailer 542).take 8) ≠ manifestMagic := by
    decide +kernel
  have hread : readStagingManifest (Example.twoPages.cut Example.noTrailer 542) =
      .error unexpectedEof := by
    have hsize : Manifest.isValidPageSize Example.twoPages.pageSize = true := rfl
    rw [Example.writable.readStagingManifest_cut (by decide), if_pos hsize, hrecords,
      scanTrailer_records]
    · exact scanTrailer_of_torn (by omega) (by rw [hlen]; decide) hmark
    · intro r hr
      rw [List.mem_singleton.mp hr]
      exact ⟨List.length_replicate, by decide, by decide⟩
  refine ⟨Example.writable, hread, fun hsafe => ?_⟩
  have htrailer := hsafe.trailer
  rw [hread] at htrailer
  cases htrailer

end StagingLog

end Turbolite
