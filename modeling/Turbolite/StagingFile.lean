import Turbolite.Staging

/-!
# Turbolite.StagingFile

The bytes of a staging log (`staging.rs`): a header with the page size, one record for each page image,
and the manifest trailer, told from a page number by a magic value. `read_staging_log` and
`read_staging_manifest` parse them; `readStagingManifest_fileBytes` says that a closed log gives its
trailer back.
-/

namespace Turbolite

/-- `MANIFEST_MAGIC`. -/
def manifestMagic : Nat := 0xCAFEFACEDEADBEEF

/-! ### Writing -/

/-- `StagingWriter::append`: one record. -/
def recordBytes (r : Nat × Bytes) : Bytes := leBytes 8 r.1 ++ r.2

/-- `StagingWriter::append_manifest`. -/
def trailerBytes (manifestBytes : Bytes) : Bytes :=
  leBytes 8 manifestMagic ++ (leBytes 8 manifestBytes.length ++ manifestBytes)

/-- The file of a log, with the trailer's serializer. -/
def StagingLog.fileBytes (toVec : Manifest → Bytes) (log : StagingLog) : Bytes :=
  leBytes 4 log.pageSize ++
    (log.records.flatMap recordBytes ++
      match log.trailer with
      | some m => trailerBytes (toVec m)
      | none => [])

/-! ### Reading -/

/-- `read_exact` hit the end of the file. -/
def unexpectedEof : IoError := .io .unexpectedEof "failed to fill whole buffer"

/-- The loop of `read_staging_manifest`: skip records up to the magic value. -/
def scanTrailer (pageSize fileLen : Nat) (rest : Bytes) : IoResult (Option Bytes) :=
  if rest.length < 8 then .ok none
  else
    let body := rest.drop 8
    if ofLeBytes (rest.take 8) = manifestMagic then
      if body.length < 8 then .error unexpectedEof
      else
        let len := ofLeBytes (body.take 8)
        if fileLen < len then .ok none
        else if (body.drop 8).length < len then .error unexpectedEof
        else .ok (some ((body.drop 8).take len))
    else if body.length < pageSize then .error unexpectedEof
    else scanTrailer pageSize fileLen (body.drop pageSize)
termination_by rest.length
decreasing_by
  simp only [List.length_drop]
  omega

/-- `read_staging_manifest`. -/
def readStagingManifest (file : Bytes) : IoResult (Option Bytes) :=
  if file.length < 4 then .ok none
  else
    let pageSize := ofLeBytes (file.take 4)
    if Manifest.isValidPageSize pageSize then scanTrailer pageSize file.length (file.drop 4)
    else .ok none

/-- The loop of `read_staging_log`: a torn record ends the log. -/
def scanRecords (pageSize : Nat) (rest : Bytes) (pages : HMap Nat Bytes) : HMap Nat Bytes :=
  if rest.length < 8 then pages
  else
    let body := rest.drop 8
    let pageNum := ofLeBytes (rest.take 8)
    if pageNum = manifestMagic then pages
    else if body.length < pageSize then pages
    else scanRecords pageSize (body.drop pageSize) (pages.insert pageNum (body.take pageSize))
termination_by rest.length
decreasing_by
  simp only [List.length_drop]
  omega

/-- `read_staging_log`. -/
def readStagingLog (file : Bytes) : HMap Nat Bytes :=
  if file.length < 4 then ∅
  else
    let pageSize := ofLeBytes (file.take 4)
    if Manifest.isValidPageSize pageSize then scanRecords pageSize (file.drop 4) ∅ else ∅

/-! ### Reading back -/

/-- A record the writer can have appended: a page of the log's size, at an offset below `2^64`. -/
def StagingLog.WellFormed (log : StagingLog) : Prop :=
  Manifest.isValidPageSize log.pageSize = true ∧
    ∀ r ∈ log.records, r.2.length = log.pageSize ∧ r.1 * log.pageSize < 2 ^ 64

theorem le_of_isValidPageSize {ps : Nat} (h : Manifest.isValidPageSize ps = true) :
    512 ≤ ps ∧ ps ≤ 65536 := by
  simp only [Manifest.isValidPageSize, List.mem_cons, List.not_mem_nil, or_false,
    decide_eq_true_eq] at h
  omega

namespace StagingLog.WellFormed

variable {log : StagingLog}

/-- No page number is the magic value. -/
theorem record_ne (h : log.WellFormed) {r : Nat × Bytes} (hr : r ∈ log.records) :
    r.1 < 2 ^ 64 ∧ r.1 ≠ manifestMagic := by
  have hps := (le_of_isValidPageSize h.1).1
  have hoff := (h.2 r hr).2
  have hmul : r.1 * 512 ≤ r.1 * log.pageSize := Nat.mul_le_mul_left r.1 hps
  unfold manifestMagic
  omega

end StagingLog.WellFormed

/-- The header of a record. -/
theorem take_recordBytes {p : Nat} (hp : p < 2 ^ 64) (data rest : Bytes) :
    ofLeBytes ((leBytes 8 p ++ (data ++ rest)).take 8) = p := by
  rw [List.take_left' (length_leBytes 8 p)]
  exact ofLeBytes_leBytes (lt_of_lt_of_eq hp (by norm_num))

theorem drop_recordBytes (p : Nat) (rest : Bytes) : (leBytes 8 p ++ rest).drop 8 = rest :=
  List.drop_left' (length_leBytes 8 p)

theorem scanTrailer_records {ps fileLen : Nat} {rs : List (Nat × Bytes)} (rest : Bytes)
    (h : ∀ r ∈ rs, r.2.length = ps ∧ r.1 < 2 ^ 64 ∧ r.1 ≠ manifestMagic) :
    scanTrailer ps fileLen (rs.flatMap recordBytes ++ rest) = scanTrailer ps fileLen rest := by
  induction rs with
  | nil => rfl
  | cons r rs ih =>
    obtain ⟨hlen, hlt, hmagic⟩ := h r (List.mem_cons_self ..)
    have hbytes : (r :: rs).flatMap recordBytes ++ rest =
        leBytes 8 r.1 ++ (r.2 ++ (rs.flatMap recordBytes ++ rest)) := by
      simp only [List.flatMap_cons, recordBytes, List.append_assoc]
    rw [hbytes, scanTrailer, take_recordBytes hlt, drop_recordBytes]
    simp only [List.length_append, length_leBytes, if_neg hmagic, List.drop_left' hlen]
    rw [if_neg (by omega), if_neg (by omega)]
    exact ih fun r' hr' => h r' (List.mem_cons_of_mem r hr')

theorem scanTrailer_trailer {ps fileLen : Nat} {bytes : Bytes} (hlen : bytes.length ≤ fileLen)
    (h64 : bytes.length < 2 ^ 64) :
    scanTrailer ps fileLen (trailerBytes bytes) = .ok (some bytes) := by
  have hbytes : trailerBytes bytes =
      leBytes 8 manifestMagic ++ (leBytes 8 bytes.length ++ (bytes ++ [])) := by
    rw [trailerBytes, List.append_nil]
  rw [hbytes, scanTrailer, take_recordBytes (by decide), drop_recordBytes]
  dsimp only
  rw [take_recordBytes h64, drop_recordBytes]
  simp only [List.length_append, length_leBytes, List.append_nil, List.take_length]
  rw [if_neg (by omega), if_pos trivial, if_neg (by omega), if_neg (by omega), if_neg (by omega)]

/-- A closed log gives its trailer back, after any number of records. -/
theorem readStagingManifest_fileBytes {log : StagingLog} (h : log.WellFormed) {m : Manifest}
    (hm : log.trailer = some m) {toVec : Manifest → Bytes} (h64 : (toVec m).length < 2 ^ 64) :
    readStagingManifest (log.fileBytes toVec) = .ok (some (toVec m)) := by
  have hps := le_of_isValidPageSize h.1
  have hheader : ofLeBytes (leBytes 4 log.pageSize) = log.pageSize :=
    ofLeBytes_leBytes (by omega)
  rw [readStagingManifest, StagingLog.fileBytes, hm]
  simp only [List.take_left' (length_leBytes 4 log.pageSize),
    List.drop_left' (length_leBytes 4 log.pageSize), hheader, h.1, if_true]
  rw [if_neg (by simp only [List.length_append, length_leBytes]; omega),
    scanTrailer_records _ fun r hr => ⟨(h.2 r hr).1, h.record_ne hr⟩,
    scanTrailer_trailer ?_ h64]
  simp only [trailerBytes, List.length_append]
  omega

end Turbolite
