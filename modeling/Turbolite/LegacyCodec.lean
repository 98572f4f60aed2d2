import Turbolite.Lib.Checked
import Turbolite.Rotation

/-!
# Turbolite.LegacyCodec

The decoders of whole objects, operation by operation (`encoding.rs`): `decode_page_group`,
`decode_page_group_bulk` and `decode_interior_bundle` with every word-sized sum and product, every slice
and every capacity they ask for, in bytes. They compute what the definitions of `Codec` and `Rotation` say
(`result_decodeGroup`, `result_decodeBulk`, `result_decodeBundle`). No buffer makes them panic. A list of
pages takes more bytes than small pages do, so a header that claims many of them makes a decoder reserve more
than the ceiling.
-/

namespace Turbolite

open Blocks Checked Results

namespace CodecConfig

/-! ### The decoders -/

/-- A `u32` field. -/
def readU32 (raw : Bytes) (i : Nat) : IoResult Nat :=
  (orFail .panic (slice? raw i (i + 4))).map ofLeBytes

/-- `checked_group_expected_len`. -/
def checkedGroupExpectedLen (pageCount pageSize : Nat) : IoResult Nat :=
  orFail (.io .invalidData "page group header page_count * page_size overflows usize (corrupt/malformed)")
    ((mul? 64 pageCount pageSize).bind (add? 64 8))

/-- The header check, which both decoders of a page group make. -/
def groupHeader (raw : Bytes) : IoResult (Nat × Nat × Nat) :=
  if raw.length < 8 then .error (.io .invalidData "page group too short for header")
  else do
    let pageCount ← readU32 raw 0
    let pageSize ← readU32 raw 4
    let expectedLen ← checkedGroupExpectedLen pageCount pageSize
    if raw.length < expectedLen then
      .error (.io .invalidData
        s!"page group data truncated: expected {expectedLen} bytes, got {raw.length}")
    else .ok (pageCount, pageSize, expectedLen)

/-- Page `i` of the pages that start at `base`: `raw[start..end].to_vec()`. -/
def copyPage (raw : Bytes) (base pageSize i : Nat) : Outcome IoError Bytes := do
  let start ← .ofResult (orFail .panic ((mul? 64 i pageSize).bind (add? 64 base)))
  let stop ← .ofResult (orFail .panic (add? 64 start pageSize))
  .copy .panic raw start stop

/-- The size of a `Vec<u8>`, and of a `(u64, Vec<u8>)`. -/
def vecBytes : Nat := 24

/-- The size of `(u64, Vec<u8>)` with its padding. -/
def numberedVecBytes : Nat := 32

/-- `decode_page_group`, from the decompressed buffer on. -/
def groupSteps (raw : Bytes) : Outcome IoError (Nat × Nat × List Bytes) := do
  let (pageCount, pageSize, _) ← .ofResult (groupHeader raw)
  .reserve pageCount vecBytes
  let pages ← .collect (copyPage raw 8 pageSize) (List.range pageCount)
  pure (pageCount, pageSize, pages)

/-- `decode_page_group_bulk`, from the decompressed buffer on. -/
def bulkSteps (raw : Bytes) : Outcome IoError (Nat × Nat × Bytes) := do
  let (pageCount, pageSize, expectedLen) ← .ofResult (groupHeader raw)
  let pageData ← .copy .panic raw 8 expectedLen
  pure (pageCount, pageSize, pageData)

/-- Where the page numbers end and where the pages do, in `decode_interior_bundle`. -/
def bundleLens (pageCount pageSize : Nat) : IoResult (Nat × Nat) := do
  let pnumsEnd ← orFail
    (.io .invalidData "interior bundle page_count overflows usize (corrupt/malformed)")
    ((mul? 64 pageCount 8).bind (add? 64 8))
  let expectedLen ← orFail
    (.io .invalidData "interior bundle page_count * page_size overflows usize (corrupt/malformed)")
    ((mul? 64 pageCount pageSize).bind (add? 64 pnumsEnd))
  .ok (pnumsEnd, expectedLen)

/-- The header check of a bundle. -/
def bundleHeader (raw : Bytes) : IoResult (Nat × Nat × Nat) :=
  if raw.length < 8 then .error (.io .invalidData "interior bundle too short for header")
  else do
    let pageCount ← readU32 raw 0
    let pageSize ← readU32 raw 4
    let (pnumsEnd, expectedLen) ← bundleLens pageCount pageSize
    if raw.length < expectedLen then
      .error (.io .invalidData
        s!"interior bundle truncated: expected {expectedLen} bytes, got {raw.length}")
    else .ok (pageCount, pageSize, pnumsEnd)

/-- A page number of a bundle. -/
def bundlePageNum (raw : Bytes) (i : Nat) : IoResult Nat := do
  let pnumOffset ← orFail .panic ((mul? 64 i 8).bind (add? 64 8))
  let stop ← orFail .panic (add? 64 pnumOffset 8)
  (orFail .panic (slice? raw pnumOffset stop)).map ofLeBytes

/-- `decode_interior_bundle`, from the decompressed buffer on. -/
def bundleSteps (raw : Bytes) : Outcome IoError (List (Nat × Bytes)) := do
  let (pageCount, pageSize, pnumsEnd) ← .ofResult (bundleHeader raw)
  .reserve pageCount numberedVecBytes
  .collect (fun i => do
    let pnum ← .ofResult (bundlePageNum raw i)
    let data ← copyPage raw pnumsEnd pageSize i
    pure (pnum, data)) (List.range pageCount)

section Decoders

variable (cfg : CodecConfig) (aad data : Bytes)

/-- The decompressed buffer of an object. -/
def openObject : Outcome IoError Bytes :=
  .ofResult (cfg.openFrame cfg.dictionary aad data maxTieredDecompressedBytes)

/-- `decode_page_group`, with what it reserves. -/
def decodeGroupSteps : Outcome IoError (Nat × Nat × List Bytes) := do
  let raw ← cfg.openObject aad data
  groupSteps raw

/-- `decode_page_group_bulk`, with what it reserves. -/
def decodeBulkSteps : Outcome IoError (Nat × Nat × Bytes) := do
  let raw ← cfg.openObject aad data
  bulkSteps raw

/-- The decoder of a bundle, with what it reserves. -/
def decodeBundleSteps : Outcome IoError (List (Nat × Bytes)) := do
  let raw ← cfg.openObject aad data
  bundleSteps raw

end Decoders

/-! ### What the steps come to -/

theorem ofLeBytes_lt (bytes : Bytes) : ofLeBytes bytes < 256 ^ bytes.length := by
  induction bytes with
  | nil => exact Nat.one_pos
  | cons b bytes ih =>
    have hb := b.toNat_lt
    rw [ofLeBytes, List.length_cons, Nat.pow_succ]
    omega

section Steps

variable {raw : Bytes} {pageCount pageSize : Nat}

theorem readU32_of_le (i : Nat) (h : i + 4 ≤ raw.length) :
    readU32 raw i = .ok (ofLeBytes ((raw.drop i).take 4)) := by
  rw [readU32, slice?_add h]
  rfl

/-- A field of four bytes is a `u32`. -/
theorem readU32_lt {i : Nat} : ofLeBytes ((raw.drop i).take 4) < 2 ^ 32 := by
  have hlt := ofLeBytes_lt ((raw.drop i).take 4)
  have hle : 256 ^ ((raw.drop i).take 4).length ≤ 256 ^ 4 :=
    Nat.pow_le_pow_right (by decide) (List.length_take_le ..)
  omega

theorem mul_lt_of_u32 {a b : Nat} (ha : a < 2 ^ 32) (hb : b < 2 ^ 32) :
    a * b ≤ (2 ^ 32 - 1) * (2 ^ 32 - 1) :=
  Nat.mul_le_mul (Nat.le_sub_one_of_lt ha) (Nat.le_sub_one_of_lt hb)

/-- The product of two `u32`s and the header fit a word. -/
theorem checkedGroupExpectedLen_eq (hn : pageCount < 2 ^ 32) (hs : pageSize < 2 ^ 32) :
    checkedGroupExpectedLen pageCount pageSize = .ok (8 + pageCount * pageSize) := by
  have hmul := mul_lt_of_u32 hn hs
  rw [checkedGroupExpectedLen, mul?_of_lt (by omega), Option.bind_some, add?_of_lt (by omega)]
  rfl

/-- The header check of both decoders is that of `splitGroupHeader`. -/
theorem groupHeader_eq (raw : Bytes) : groupHeader raw =
    (splitGroupHeader raw).map fun h => (h.1, h.2.1, 8 + h.1 * h.2.1) := by
  unfold groupHeader splitGroupHeader
  split
  · rfl
  · rename_i hlen
    have hcount : readU32 raw 0 = _ := readU32_of_le 0 (by omega)
    rw [List.drop_zero] at hcount
    rw [hcount, readU32_of_le 4 (by omega), ok_bind, ok_bind,
      checkedGroupExpectedLen_eq (List.drop_zero (l := raw) ▸ readU32_lt) readU32_lt, ok_bind]
    split
    · rename_i htorn
      rw [if_pos htorn]
      rfl
    · rename_i htorn
      rw [if_neg htorn]
      rfl

/-- A header that passes: the buffer holds the pages it claims. -/
theorem splitGroupHeader_inv {body : Bytes}
    (h : splitGroupHeader raw = .ok (pageCount, pageSize, body)) :
    8 + pageCount * pageSize ≤ raw.length ∧ body = (raw.drop 8).take (pageCount * pageSize) := by
  unfold splitGroupHeader at h
  split at h
  · cases h
  · dsimp only at h
    split at h
    · cases h
    · rename_i hlen
      cases h
      refine ⟨Nat.le_of_not_lt hlen, ?_⟩
      rw [List.drop_take, Nat.add_sub_cancel_left]

theorem copyPage_of_le {base i : Nat} (hword : raw.length < 2 ^ 64)
    (h : base + (i * pageSize + pageSize) ≤ raw.length) : copyPage raw base pageSize i =
      { result := .ok ((raw.drop (base + i * pageSize)).take pageSize), reserved := [pageSize] } := by
  unfold copyPage
  rw [mul?_of_lt (by omega), Option.bind_some, add?_of_lt (by omega), orFail_some,
    Outcome.ofResult_ok_bind, add?_of_lt (by omega), orFail_some, Outcome.ofResult_ok_bind,
    Outcome.copy_of_le (by omega)]

/-- The pages of a buffer that is long enough, one after the other. -/
theorem turn_le (pageSize : Nat) {n i : Nat} (hi : i < n) : i * pageSize + pageSize ≤ n * pageSize := by
  rw [← Nat.succ_mul]
  exact Nat.mul_le_mul_right _ hi

theorem groupSteps_of_error {e : IoError} (h : splitGroupHeader raw = .error e) :
    groupSteps raw = .ofResult (.error e) := by
  rw [groupSteps, groupHeader_eq, h]
  rfl

theorem groupSteps_of_ok {body : Bytes} (hword : raw.length < 2 ^ 64)
    (h : splitGroupHeader raw = .ok (pageCount, pageSize, body)) : groupSteps raw =
      { result := .ok (pageCount, pageSize,
          (List.range pageCount).map fun i => (raw.drop (8 + i * pageSize)).take pageSize)
        reserved := pageCount * vecBytes :: (List.range pageCount).flatMap fun _ => [pageSize] } := by
  have hlen := (splitGroupHeader_inv h).1
  have hturn : ∀ i ∈ List.range pageCount, copyPage raw 8 pageSize i =
      { result := .ok ((raw.drop (8 + i * pageSize)).take pageSize), reserved := [pageSize] } := by
    intro i hi
    have hpage := turn_le pageSize (List.mem_range.mp hi)
    exact copyPage_of_le hword (by omega)
  have hpages := Outcome.collect_ok hturn
  rw [groupSteps, groupHeader_eq, h]
  simp only [Except.map, Outcome.ofResult_ok_bind, hpages]
  simp [Bind.bind, Outcome.andThen, Outcome.reserve, pure]

theorem bulkSteps_of_error {e : IoError} (h : splitGroupHeader raw = .error e) :
    bulkSteps raw = .ofResult (.error e) := by
  rw [bulkSteps, groupHeader_eq, h]
  rfl

theorem bulkSteps_of_ok {body : Bytes} (h : splitGroupHeader raw = .ok (pageCount, pageSize, body)) :
    bulkSteps raw = { result := .ok (pageCount, pageSize, body), reserved := [pageCount * pageSize] } := by
  obtain ⟨hlen, hbody⟩ := splitGroupHeader_inv h
  rw [bulkSteps, groupHeader_eq, h]
  simp only [Except.map, Outcome.ofResult_ok_bind, Outcome.copy_of_le hlen, ← hbody]
  rfl

/-! ### Bundles -/

theorem bundleLens_eq (hn : pageCount < 2 ^ 32) (hs : pageSize < 2 ^ 32) :
    bundleLens pageCount pageSize =
      if 2 ^ 64 ≤ 8 + pageCount * 8 + pageCount * pageSize then .error (.io .invalidData
        "interior bundle page_count * page_size overflows usize (corrupt/malformed)")
      else .ok (8 + pageCount * 8, 8 + pageCount * 8 + pageCount * pageSize) := by
  have hmul := mul_lt_of_u32 hn hs
  rw [bundleLens, mul?_of_lt (by omega), Option.bind_some, add?_of_lt (by omega), orFail_some, ok_bind,
    mul?_of_lt (by omega), Option.bind_some]
  split
  · rename_i hover
    rw [add?, if_neg (by omega)]
    rfl
  · rename_i hfits
    rw [add?_of_lt (by omega)]
    rfl

/-- What the header check of a bundle comes to. -/
theorem bundleHeader_eq (raw : Bytes) : bundleHeader raw =
    if raw.length < 8 then .error (.io .invalidData "interior bundle too short for header")
    else
      let pageCount := ofLeBytes (raw.take 4)
      let pageSize := ofLeBytes ((raw.drop 4).take 4)
      let expectedLen := 8 + pageCount * 8 + pageCount * pageSize
      if 2 ^ 64 ≤ expectedLen then .error (.io .invalidData
        "interior bundle page_count * page_size overflows usize (corrupt/malformed)")
      else if raw.length < expectedLen then
        .error (.io .invalidData
          s!"interior bundle truncated: expected {expectedLen} bytes, got {raw.length}")
      else .ok (pageCount, pageSize, 8 + pageCount * 8) := by
  unfold bundleHeader
  split
  · rfl
  · rename_i hlen
    have hcount : readU32 raw 0 = _ := readU32_of_le 0 (by omega)
    rw [List.drop_zero] at hcount
    rw [hcount, readU32_of_le 4 (by omega), ok_bind, ok_bind,
      bundleLens_eq (List.drop_zero (l := raw) ▸ readU32_lt) readU32_lt]
    dsimp only
    split
    · rfl
    · rfl

/-- A header that passes: the buffer holds the numbers and the pages it claims. -/
theorem bundleHeader_inv {pnumsEnd : Nat} (h : bundleHeader raw = .ok (pageCount, pageSize, pnumsEnd)) :
    pageCount = ofLeBytes (raw.take 4) ∧ pageSize = ofLeBytes ((raw.drop 4).take 4) ∧
      pnumsEnd = 8 + pageCount * 8 ∧ pnumsEnd + pageCount * pageSize ≤ raw.length := by
  rw [bundleHeader_eq] at h
  split at h
  · cases h
  · dsimp only at h
    split at h
    · cases h
    · split at h
      · cases h
      · rename_i hlen
        cases h
        exact ⟨rfl, rfl, rfl, Nat.le_of_not_lt hlen⟩

theorem bundlePageNum_of_le {i : Nat} (hword : raw.length < 2 ^ 64) (h : 8 + (i * 8 + 8) ≤ raw.length) :
    bundlePageNum raw i = .ok (ofLeBytes ((raw.drop (8 + i * 8)).take 8)) := by
  rw [bundlePageNum, mul?_of_lt (by omega), Option.bind_some, add?_of_lt (by omega), orFail_some,
    ok_bind, add?_of_lt (by omega), orFail_some, ok_bind, slice?_add (by omega)]
  rfl

theorem bundleSteps_of_error {e : IoError} (h : bundleHeader raw = .error e) :
    bundleSteps raw = .ofResult (.error e) := by
  rw [bundleSteps, h]
  rfl

theorem bundleSteps_of_ok {pnumsEnd : Nat} (hword : raw.length < 2 ^ 64)
    (h : bundleHeader raw = .ok (pageCount, pageSize, pnumsEnd)) : bundleSteps raw =
      { result := .ok ((List.range pageCount).map fun i =>
          (ofLeBytes ((raw.drop (8 + i * 8)).take 8), (raw.drop (pnumsEnd + i * pageSize)).take pageSize))
        reserved := pageCount * numberedVecBytes :: (List.range pageCount).flatMap fun _ => [pageSize] } := by
  obtain ⟨-, -, hend, hlen⟩ := bundleHeader_inv h
  have hturn : ∀ i ∈ List.range pageCount, (do
      let pnum ← Outcome.ofResult (bundlePageNum raw i)
      let data ← copyPage raw pnumsEnd pageSize i
      pure (pnum, data)) = ({ result := .ok (ofLeBytes ((raw.drop (8 + i * 8)).take 8),
        (raw.drop (pnumsEnd + i * pageSize)).take pageSize), reserved := [pageSize] } :
          Outcome IoError (Nat × Bytes)) := by
    intro i hi
    have hpage := turn_le pageSize (List.mem_range.mp hi)
    have hpnum := turn_le 8 (List.mem_range.mp hi)
    rw [bundlePageNum_of_le hword (by omega), Outcome.ofResult_ok_bind, copyPage_of_le hword (by omega)]
    rfl
  rw [bundleSteps, h]
  simp only [Outcome.ofResult_ok_bind, Outcome.collect_ok hturn]
  rfl

end Steps

/-! ### The steps compute the decoders -/

section Refinement

variable {cfg : CodecConfig} {aad data raw : Bytes}

/-- The buffer of an object is at most the ceiling long. -/
theorem length_of_openFrame (h : cfg.openFrame cfg.dictionary aad data maxTieredDecompressedBytes = .ok raw) :
    raw.length ≤ maxTieredDecompressedBytes :=
  ((opens_of_openFrame h).openFrame_inv h).2

theorem word_of_openFrame (h : cfg.openFrame cfg.dictionary aad data maxTieredDecompressedBytes = .ok raw) :
    raw.length < 2 ^ 64 :=
  lt_of_le_of_lt (length_of_openFrame h) (by decide)

/-- Page `i` of a body is page `i` of the buffer after the header. -/
theorem block_body {n ps i : Nat} (hi : i < n) :
    block ps i ((raw.drop 8).take (n * ps)) = (raw.drop (8 + i * ps)).take ps := by
  have hturn := turn_le ps hi
  rw [block, List.drop_take, List.drop_drop, List.take_take, Nat.min_eq_left (by omega)]

theorem decode_of_error {α : Type} {steps : Bytes → Outcome IoError α} {e : IoError}
    (h : cfg.openFrame cfg.dictionary aad data maxTieredDecompressedBytes = .error e) :
    (cfg.openObject aad data >>= steps) = .ofResult (.error e) := by
  rw [openObject, h]
  rfl

theorem decode_of_ok {α : Type} {steps : Bytes → Outcome IoError α}
    (h : cfg.openFrame cfg.dictionary aad data maxTieredDecompressedBytes = .ok raw) :
    (cfg.openObject aad data >>= steps) = steps raw := by
  rw [openObject, h]
  rfl

theorem result_decodeBulk (cfg : CodecConfig) (aad data : Bytes) :
    (cfg.decodeBulkSteps aad data).result = cfg.decodePageGroupBulk cfg.dictionary aad data := by
  unfold decodeBulkSteps decodePageGroupBulk
  cases hraw : cfg.openFrame cfg.dictionary aad data maxTieredDecompressedBytes with
  | error e =>
    rw [decode_of_error hraw]
    rfl
  | ok raw =>
    rw [decode_of_ok hraw, ok_bind]
    cases hsplit : splitGroupHeader raw with
    | error e => rw [bulkSteps_of_error hsplit]; rfl
    | ok header => rw [bulkSteps_of_ok hsplit]

theorem result_decodeGroup (cfg : CodecConfig) (aad data : Bytes) :
    (cfg.decodeGroupSteps aad data).result = cfg.decodePageGroup cfg.dictionary aad data := by
  unfold decodeGroupSteps decodePageGroup decodePageGroupBulk
  cases hraw : cfg.openFrame cfg.dictionary aad data maxTieredDecompressedBytes with
  | error e =>
    rw [decode_of_error hraw]
    rfl
  | ok raw =>
    rw [decode_of_ok hraw, ok_bind]
    cases hsplit : splitGroupHeader raw with
    | error e => rw [groupSteps_of_error hsplit]; rfl
    | ok header =>
      obtain ⟨n, ps, body⟩ := header
      obtain ⟨-, rfl⟩ := splitGroupHeader_inv hsplit
      have hblocks : ((List.range n).map fun i => (raw.drop (8 + i * ps)).take ps) =
          (List.range n).map fun i => block ps i ((raw.drop 8).take (n * ps)) :=
        List.map_congr_left fun i hi => (block_body (List.mem_range.mp hi)).symm
      rw [groupSteps_of_ok (word_of_openFrame hraw) hsplit, ok_bind]
      dsimp only
      rw [hblocks]

theorem result_decodeBundle (cfg : CodecConfig) (aad data : Bytes) :
    (cfg.decodeBundleSteps aad data).result = Rotation.decodeInteriorBundle cfg aad data := by
  unfold decodeBundleSteps Rotation.decodeInteriorBundle
  cases hraw : cfg.openFrame cfg.dictionary aad data maxTieredDecompressedBytes with
  | error e =>
    rw [decode_of_error hraw]
    rfl
  | ok raw =>
    rw [decode_of_ok hraw, ok_bind]
    cases hheader : bundleHeader raw with
    | error e =>
      rw [bundleSteps_of_error hheader]
      rw [bundleHeader_eq] at hheader
      dsimp only at hheader ⊢
      split at hheader
      · rename_i hshort
        cases hheader
        rw [if_pos hshort]
        rfl
      · rename_i hlong
        rw [if_neg hlong]
        split at hheader
        · rename_i hover
          cases hheader
          rw [if_pos hover]
          rfl
        · rename_i hfits
          rw [if_neg hfits]
          split at hheader
          · rename_i htorn
            cases hheader
            rw [if_pos htorn]
            rfl
          · cases hheader
    | ok header =>
      obtain ⟨n, ps, pnumsEnd⟩ := header
      obtain ⟨hn, hs, rfl, hlen⟩ := bundleHeader_inv hheader
      have hword := word_of_openFrame hraw
      rw [bundleSteps_of_ok hword hheader]
      dsimp only
      rw [← hn, ← hs, if_neg (by omega), if_neg (by omega), if_neg (by omega)]
      simp only [block, List.drop_drop]

/-- Both decoders of a page group: the same error, or the same header and the same bytes. -/
theorem decoders_agree (cfg : CodecConfig) (aad data : Bytes) :
    (cfg.decodeGroupSteps aad data).result.map (fun out => (out.1, out.2.1, out.2.2.flatten)) =
      (cfg.decodeBulkSteps aad data).result := by
  rw [result_decodeGroup, result_decodeBulk, decodePageGroup]
  cases hbulk : cfg.decodePageGroupBulk cfg.dictionary aad data with
  | error e => rfl
  | ok out =>
    obtain ⟨n, ps, body⟩ := out
    obtain ⟨raw, hraw, hsplit⟩ := bind_eq_ok.mp hbulk
    obtain ⟨hlen, rfl⟩ := splitGroupHeader_inv hsplit
    have hbody : ((raw.drop 8).take (n * ps)).length = n * ps := by
      rw [List.length_take, List.length_drop]
      omega
    rw [ok_bind]
    dsimp only [Except.map]
    rw [flatten_map_block_range, List.take_of_length_le (Nat.le_of_eq hbody)]

end Refinement

/-! ### Any object at all -/

section Safety

variable (cfg : CodecConfig) (aad data : Bytes)

/-- No panic; no capacity above the ceiling on the buffer; and what comes out are slices of the buffer
the object opens to. -/
structure Safe {α : Type} (decoded : Outcome IoError α) (pagesOf : α → List Bytes) : Prop where
  noPanic : decoded.result ≠ .error .panic
  reserved : ∀ n ∈ decoded.reserved, n ≤ maxTieredDecompressedBytes
  slices : ∀ out, decoded.result = .ok out → ∃ raw, cfg.Opens aad data raw ∧
    ∀ page ∈ pagesOf out, ∃ start stop, slice? raw start stop = some page

/-- `decode_page_group` neither panics nor reserves more than the ceiling. -/
def SafeGroup : Prop := cfg.Safe aad data (cfg.decodeGroupSteps aad data) fun out => out.2.2

/-- `decode_page_group_bulk` does neither. -/
def SafeBulk : Prop := cfg.Safe aad data (cfg.decodeBulkSteps aad data) fun out => [out.2.2]

/-- The decoder of a bundle does neither. -/
def SafeBundle : Prop :=
  cfg.Safe aad data (cfg.decodeBundleSteps aad data) fun out => out.map fun page => page.2

/-- The object opens to a buffer that is as long as its header says, with `fixed` bytes for a page beside its
data, and the list of so many pages takes more bytes than the ceiling. -/
def ClaimsManyPages (fixed elem : Nat) : Prop :=
  ∃ raw, cfg.openFrame cfg.dictionary aad data maxTieredDecompressedBytes = .ok raw ∧
    8 + ofLeBytes (raw.take 4) * (fixed + ofLeBytes ((raw.drop 4).take 4)) ≤ raw.length ∧
    maxTieredDecompressedBytes < ofLeBytes (raw.take 4) * elem

variable {cfg aad data} {raw : Bytes} {α : Type} {pagesOf : α → List Bytes}

theorem decryptIfNeeded_ne_panic : cfg.decryptIfNeeded data aad ≠ .error .panic := by
  unfold decryptIfNeeded
  cases cfg.encryptionKey with
  | none => nofun
  | some key =>
    dsimp only
    split <;> nofun

theorem decompressCapped_ne_panic {dict : Option Bytes} {cap : Nat} :
    cfg.decompressCapped dict data cap ≠ .error .panic := by
  unfold decompressCapped
  cases h : cfg.codecs.decompress dict data with
  | none => nofun
  | some raw =>
    dsimp only
    split <;> nofun

theorem openFrame_ne_panic {dict : Option Bytes} {cap : Nat} :
    cfg.openFrame dict aad data cap ≠ .error .panic := by
  unfold openFrame
  cases h : cfg.decryptIfNeeded data aad with
  | error e =>
    rw [error_bind, ← h]
    exact decryptIfNeeded_ne_panic
  | ok plain => exact decompressCapped_ne_panic

theorem splitGroupHeader_ne_panic : splitGroupHeader raw ≠ .error .panic := by
  unfold splitGroupHeader
  split
  · nofun
  · dsimp only
    split <;> nofun

theorem bundleHeader_ne_panic : bundleHeader raw ≠ .error .panic := by
  rw [bundleHeader_eq]
  split
  · nofun
  · dsimp only
    split
    · nofun
    · split <;> nofun

theorem safe_of_error {e : IoError} (he : e ≠ .panic) :
    cfg.Safe aad data (.ofResult (.error e)) pagesOf where
  noPanic h := he (Except.error.inj h)
  reserved _ h := absurd h List.not_mem_nil
  slices _ h := nomatch h

/-- An object that does not open is an error, without a buffer. -/
theorem safe_of_openFrame_error {steps : Bytes → Outcome IoError α} {e : IoError}
    (h : cfg.openFrame cfg.dictionary aad data maxTieredDecompressedBytes = .error e) :
    cfg.Safe aad data (cfg.openObject aad data >>= steps) pagesOf := by
  rw [decode_of_error h]
  refine safe_of_error ?_
  rintro rfl
  exact openFrame_ne_panic h

/-- The page copies of a decoder are at most as long as the buffer. -/
theorem pageCopies_le {n ps base m : Nat} (h : base + n * ps ≤ raw.length)
    (hm : m ∈ (List.range n).flatMap fun _ => [ps]) : m ≤ raw.length := by
  obtain ⟨i, hi, hps⟩ := List.mem_flatMap.mp hm
  obtain rfl := List.mem_singleton.mp hps
  have := turn_le m (List.mem_range.mp hi)
  omega

theorem pageSlice {n ps base i : Nat} (h : base + n * ps ≤ raw.length) (hi : i < n) :
    ∃ start stop, slice? raw start stop = some ((raw.drop (base + i * ps)).take ps) := by
  have := turn_le ps hi
  exact ⟨base + i * ps, base + i * ps + ps, slice?_add (by omega)⟩

theorem safeBulk (cfg : CodecConfig) (aad data : Bytes) : cfg.SafeBulk aad data := by
  unfold SafeBulk decodeBulkSteps
  cases hraw : cfg.openFrame cfg.dictionary aad data maxTieredDecompressedBytes with
  | error e => exact safe_of_openFrame_error hraw
  | ok raw =>
    rw [decode_of_ok hraw]
    cases hsplit : splitGroupHeader raw with
    | error e =>
      rw [bulkSteps_of_error hsplit]
      refine safe_of_error ?_
      rintro rfl
      exact splitGroupHeader_ne_panic hsplit
    | ok header =>
      obtain ⟨n, ps, body⟩ := header
      obtain ⟨hlen, hbody⟩ := splitGroupHeader_inv hsplit
      have hcap := length_of_openFrame hraw
      rw [bulkSteps_of_ok hsplit]
      refine ⟨nofun, ?_, ?_⟩
      · intro m hm
        obtain rfl := List.mem_singleton.mp hm
        omega
      · rintro out ⟨⟩
        refine ⟨raw, opens_of_openFrame hraw, List.forall_mem_singleton.mpr ?_⟩
        exact ⟨8, 8 + n * ps, hbody ▸ slice?_add hlen⟩

/-- Where the header passes, only the list of pages can take more than the ceiling. -/
theorem safe_of_header {n ps base elem : Nat} {out : α}
    (hraw : cfg.openFrame cfg.dictionary aad data maxTieredDecompressedBytes = .ok raw)
    (hlen : base + n * ps ≤ raw.length)
    (hpages : pagesOf out = (List.range n).map fun i => (raw.drop (base + i * ps)).take ps) :
    cfg.Safe aad data { result := .ok out, reserved := n * elem :: (List.range n).flatMap fun _ => [ps] }
        pagesOf ↔ n * elem ≤ maxTieredDecompressedBytes := by
  have hcap := length_of_openFrame hraw
  constructor
  · intro hsafe
    exact hsafe.reserved _ List.mem_cons_self
  · intro hn
    refine ⟨nofun, ?_, ?_⟩
    · intro m hm
      rcases List.mem_cons.mp hm with rfl | hm
      · exact hn
      · exact (pageCopies_le hlen hm).trans hcap
    · rintro out ⟨⟩
      rw [hpages]
      refine ⟨raw, opens_of_openFrame hraw, List.forall_mem_map.mpr fun i hi => ?_⟩
      exact pageSlice hlen (List.mem_range.mp hi)

theorem claims_iff_of_openFrame {fixed elem : Nat}
    (hraw : cfg.openFrame cfg.dictionary aad data maxTieredDecompressedBytes = .ok raw) :
    cfg.ClaimsManyPages aad data fixed elem ↔
      8 + ofLeBytes (raw.take 4) * (fixed + ofLeBytes ((raw.drop 4).take 4)) ≤ raw.length ∧
        maxTieredDecompressedBytes < ofLeBytes (raw.take 4) * elem := by
  constructor
  · rintro ⟨raw', hraw', hclaims⟩
    obtain rfl := Except.ok.inj (hraw.symm.trans hraw')
    exact hclaims
  · intro hclaims
    exact ⟨raw, hraw, hclaims⟩

theorem not_claims_of_error {fixed elem : Nat} {e : IoError}
    (hraw : cfg.openFrame cfg.dictionary aad data maxTieredDecompressedBytes = .error e) :
    ¬ cfg.ClaimsManyPages aad data fixed elem := by
  rintro ⟨raw, hok, -⟩
  rw [hraw] at hok
  cases hok

theorem splitGroupHeader_fields {n ps : Nat} {body : Bytes} (h : splitGroupHeader raw = .ok (n, ps, body)) :
    n = ofLeBytes (raw.take 4) ∧ ps = ofLeBytes ((raw.drop 4).take 4) := by
  unfold splitGroupHeader at h
  split at h
  · cases h
  · dsimp only at h
    split at h
    · cases h
    · cases h
      exact ⟨rfl, rfl⟩

/-- A header is refused where the buffer is shorter than it says. -/
theorem splitGroupHeader_error {e : IoError} (h : splitGroupHeader raw = .error e) :
    raw.length < 8 + ofLeBytes (raw.take 4) * ofLeBytes ((raw.drop 4).take 4) := by
  unfold splitGroupHeader at h
  split at h
  · omega
  · dsimp only at h
    split at h
    · assumption
    · cases h

theorem safeGroup_iff (cfg : CodecConfig) (aad data : Bytes) :
    cfg.SafeGroup aad data ↔ ¬ cfg.ClaimsManyPages aad data 0 vecBytes := by
  unfold SafeGroup decodeGroupSteps
  cases hraw : cfg.openFrame cfg.dictionary aad data maxTieredDecompressedBytes with
  | error e => exact iff_of_true (safe_of_openFrame_error hraw) (not_claims_of_error hraw)
  | ok raw =>
    rw [decode_of_ok hraw, claims_iff_of_openFrame hraw, Nat.zero_add]
    cases hsplit : splitGroupHeader raw with
    | error e =>
      have htorn := splitGroupHeader_error hsplit
      rw [groupSteps_of_error hsplit]
      refine iff_of_true (safe_of_error ?_) fun hclaims => by omega
      rintro rfl
      exact splitGroupHeader_ne_panic hsplit
    | ok header =>
      obtain ⟨n, ps, body⟩ := header
      have hlen := (splitGroupHeader_inv hsplit).1
      obtain ⟨hn, hps⟩ := splitGroupHeader_fields hsplit
      rw [groupSteps_of_ok (word_of_openFrame hraw) hsplit, ← hn, ← hps]
      refine Iff.trans (safe_of_header hraw hlen ?_) ?_
      · rfl
      · exact ⟨fun hle hclaims => by omega, fun hnot => Nat.le_of_not_lt fun hlt => hnot ⟨hlen, hlt⟩⟩

/-- A header is refused where the buffer is shorter than it says, page numbers included. -/
theorem bundleHeader_error {e : IoError} (hword : raw.length < 2 ^ 64) (h : bundleHeader raw = .error e) :
    raw.length < 8 + ofLeBytes (raw.take 4) * (8 + ofLeBytes ((raw.drop 4).take 4)) := by
  rw [bundleHeader_eq] at h
  rw [Nat.mul_add]
  split at h
  · omega
  · dsimp only at h
    split at h
    · omega
    · split at h
      · omega
      · cases h

theorem safeBundle_iff (cfg : CodecConfig) (aad data : Bytes) :
    cfg.SafeBundle aad data ↔ ¬ cfg.ClaimsManyPages aad data 8 numberedVecBytes := by
  unfold SafeBundle decodeBundleSteps
  cases hraw : cfg.openFrame cfg.dictionary aad data maxTieredDecompressedBytes with
  | error e => exact iff_of_true (safe_of_openFrame_error hraw) (not_claims_of_error hraw)
  | ok raw =>
    have hword := word_of_openFrame hraw
    rw [decode_of_ok hraw, claims_iff_of_openFrame hraw]
    cases hheader : bundleHeader raw with
    | error e =>
      have htorn := bundleHeader_error hword hheader
      rw [bundleSteps_of_error hheader]
      refine iff_of_true (safe_of_error ?_) fun hclaims => by omega
      rintro rfl
      exact bundleHeader_ne_panic hheader
    | ok header =>
      obtain ⟨n, ps, pnumsEnd⟩ := header
      obtain ⟨hn, hps, hend, hlen⟩ := bundleHeader_inv hheader
      have hpages : ((List.range n).map fun i => (ofLeBytes ((raw.drop (8 + i * 8)).take 8),
          (raw.drop (pnumsEnd + i * ps)).take ps)).map (fun page => page.2) =
          (List.range n).map fun i => (raw.drop (pnumsEnd + i * ps)).take ps := by
        rw [List.map_map]
        rfl
      have hclaimed : 8 + n * (8 + ps) = pnumsEnd + n * ps := by
        rw [hend, Nat.mul_add, Nat.add_assoc]
      rw [bundleSteps_of_ok hword hheader, ← hn, ← hps, hclaimed]
      refine Iff.trans (safe_of_header hraw hlen hpages) ?_
      exact ⟨fun hle hclaims => by omega, fun hnot => Nat.le_of_not_lt fun hlt => hnot ⟨hlen, hlt⟩⟩

end Safety

/-! ### There and back -/

section RoundTrip

variable (cfg : CodecConfig) (aad : Bytes) (ps : Nat)

/-- `encode_page_group` with the width of its count: `page_count` is a `u32`, and the loop runs to it. -/
def encodeGroup (pages : List (Option Bytes)) : Bytes :=
  cfg.encodePageGroup aad ps (pages.take (pages.length % 2 ^ 32))

/-- Both decoders give the padded pages. -/
structure GroupRoundTrips (pages : List (Option Bytes)) : Prop where
  each : (cfg.decodeGroupSteps aad (cfg.encodeGroup aad ps pages)).result =
    .ok (pages.length, ps, pages.map (padPage ps))
  bulk : (cfg.decodeBulkSteps aad (cfg.encodeGroup aad ps pages)).result =
    .ok (pages.length, ps, (pages.map (padPage ps)).flatten)

/-- The pairs come back in order, the pages padded. -/
def BundleRoundTrips (pages : List (Nat × Bytes)) : Prop :=
  (cfg.decodeBundleSteps aad (cfg.encodeInteriorBundle aad ps pages)).result =
    .ok (pages.map fun page => (page.1, padPage ps (some page.2)))

/-- No page is longer than the page size, the count is a `u32`, and the buffer fits the ceiling. -/
structure GroupFits (pages : List (Option Bytes)) : Prop where
  sizes : ∀ data, some data ∈ pages → data.length ≤ ps
  count : pages.length < 2 ^ 32
  ceiling : 8 + pages.length * ps ≤ maxTieredDecompressedBytes

/-- The pages that fit in a bundle. -/
structure BundleFits (pages : List (Nat × Bytes)) : Prop where
  sizes : ∀ page ∈ pages, page.2.length ≤ ps
  count : pages.length < 2 ^ 32
  ceiling : 8 + pages.length * 8 + pages.length * ps ≤ maxTieredDecompressedBytes

variable {cfg aad ps}

theorem le_of_length_padPage {data : Bytes} (h : (padPage ps (some data)).length = ps) :
    data.length ≤ ps := by
  rw [padPage, List.length_append] at h
  omega

/-- What a page group decodes to: a `u32` of pages, each of the size claimed, within the ceiling. -/
theorem decodeGroup_bounds {data : Bytes} {n s : Nat} {pages : List Bytes}
    (h : (cfg.decodeGroupSteps aad data).result = .ok (n, s, pages)) :
    n < 2 ^ 32 ∧ 8 + n * s ≤ maxTieredDecompressedBytes ∧ ∀ page ∈ pages, page.length = s := by
  rw [result_decodeGroup] at h
  obtain ⟨⟨n', s', body⟩, hbulk, hpages⟩ := bind_eq_ok.mp h
  cases hpages
  obtain ⟨raw, hraw, hsplit⟩ := bind_eq_ok.mp hbulk
  obtain ⟨hlen, rfl⟩ := splitGroupHeader_inv hsplit
  obtain ⟨hn, -⟩ := splitGroupHeader_fields hsplit
  refine ⟨?_, hlen.trans (length_of_openFrame hraw), List.forall_mem_map.mpr fun i hi => ?_⟩
  · rw [hn, ← List.drop_zero (l := raw)]
    exact readU32_lt
  · have hturn := turn_le s (List.mem_range.mp hi)
    rw [block_body (List.mem_range.mp hi), List.length_take, List.length_drop]
    omega

theorem encodeGroup_eq {pages : List (Option Bytes)} (h : pages.length < 2 ^ 32) :
    cfg.encodeGroup aad ps pages = cfg.encodePageGroup aad ps pages := by
  rw [encodeGroup, Nat.mod_eq_of_lt h, List.take_length]

theorem groupRoundTrips_iff (hc : cfg.codecs.Lawful) (hps : ps < 2 ^ 32) {pages : List (Option Bytes)} :
    cfg.GroupRoundTrips aad ps pages ↔ GroupFits ps pages := by
  constructor
  · intro h
    obtain ⟨hcount, hcap, hsizes⟩ := decodeGroup_bounds h.each
    refine ⟨fun data hdata => le_of_length_padPage ?_, hcount, hcap⟩
    exact hsizes _ (List.mem_map_of_mem hdata)
  · intro h
    have hholds := encodePageGroup_holds hc aad h.sizes h.count hps
    have hbulk := hholds.decodeBulk (by rw [List.length_map]; exact h.ceiling)
    have hblocks := map_block_flatten hholds.uniform
    rw [List.length_map] at hbulk hblocks
    constructor
    · rw [result_decodeGroup, encodeGroup_eq h.count, decodePageGroup, hbulk, ok_bind]
      dsimp only
      rw [hblocks]
    · rw [result_decodeBulk, encodeGroup_eq h.count, hbulk]

/-- What a bundle decodes to. -/
theorem decodeBundle_bounds {data : Bytes} {pages : List (Nat × Bytes)}
    (h : (cfg.decodeBundleSteps aad data).result = .ok pages) :
    ∃ s raw, cfg.openFrame cfg.dictionary aad data maxTieredDecompressedBytes = .ok raw ∧
      s = ofLeBytes ((raw.drop 4).take 4) ∧ pages.length < 2 ^ 32 ∧
      8 + pages.length * 8 + pages.length * s ≤ maxTieredDecompressedBytes ∧
      ∀ page ∈ pages, page.2.length = s := by
  unfold decodeBundleSteps at h
  cases hraw : cfg.openFrame cfg.dictionary aad data maxTieredDecompressedBytes with
  | error e =>
    rw [decode_of_error hraw] at h
    cases h
  | ok raw =>
    rw [decode_of_ok hraw] at h
    cases hheader : bundleHeader raw with
    | error e =>
      rw [bundleSteps_of_error hheader] at h
      cases h
    | ok header =>
      obtain ⟨n, s, pnumsEnd⟩ := header
      obtain ⟨hn, hs, rfl, hlen⟩ := bundleHeader_inv hheader
      rw [bundleSteps_of_ok (word_of_openFrame hraw) hheader] at h
      cases h
      rw [List.length_map, List.length_range]
      refine ⟨s, raw, rfl, hs, ?_, hlen.trans (length_of_openFrame hraw),
        List.forall_mem_map.mpr fun i hi => ?_⟩
      · rw [hn, ← List.drop_zero (l := raw)]
        exact readU32_lt
      · have hturn := turn_le s (List.mem_range.mp hi)
        rw [List.length_take, List.length_drop]
        omega

/-! #### The buffer of a bundle -/

section BundleRaw

variable {pages : List (Nat × Bytes)} {raw : Bytes}

/-- The buffer `encode_interior_bundle` compresses. -/
def bundleRaw (ps : Nat) (pages : List (Nat × Bytes)) : Bytes :=
  leBytes 4 pages.length ++ leBytes 4 ps ++ (pages.map fun p => leBytes 8 p.1).flatten ++
    (pages.map fun p => padPage ps (some p.2)).flatten

theorem uniform_pnums (pages : List (Nat × Bytes)) : Uniform 8 (pages.map fun p => leBytes 8 p.1) :=
  List.forall_mem_map.mpr fun _ _ => length_leBytes ..

theorem uniform_bundlePages (h : ∀ page ∈ pages, page.2.length ≤ ps) :
    Uniform ps (pages.map fun p => padPage ps (some p.2)) :=
  List.forall_mem_map.mpr fun p hp => length_padPage fun _ hd => Option.some.inj hd ▸ h p hp

theorem take_bundleRaw : (bundleRaw ps pages).take 4 = leBytes 4 pages.length := by
  rw [bundleRaw, List.append_assoc, List.append_assoc]
  exact List.take_left' (length_leBytes ..)

theorem drop_bundleRaw : ((bundleRaw ps pages).drop 4).take 4 = leBytes 4 ps := by
  rw [bundleRaw, List.append_assoc, List.append_assoc, List.drop_left' (length_leBytes ..)]
  exact List.take_left' (length_leBytes ..)

theorem length_bundleRaw (h : ∀ page ∈ pages, page.2.length ≤ ps) :
    (bundleRaw ps pages).length = 8 + pages.length * 8 + pages.length * ps := by
  have hpnums := length_flatten_of_uniform (uniform_pnums pages)
  have hdata := length_flatten_of_uniform (uniform_bundlePages h)
  rw [List.length_map] at hpnums hdata
  simp only [bundleRaw, List.length_append, length_leBytes, hpnums, hdata]

/-- The numbers follow the header, the pages follow the numbers. -/
theorem pnums_bundleRaw : (bundleRaw ps pages).drop 8 =
    (pages.map fun p => leBytes 8 p.1).flatten ++ (pages.map fun p => padPage ps (some p.2)).flatten := by
  rw [bundleRaw, List.append_assoc]
  exact List.drop_left' (by simp)

theorem pages_bundleRaw : (bundleRaw ps pages).drop (8 + pages.length * 8) =
    (pages.map fun p => padPage ps (some p.2)).flatten := by
  have hpnums := length_flatten_of_uniform (uniform_pnums pages)
  rw [List.length_map] at hpnums
  rw [← List.drop_drop, pnums_bundleRaw]
  exact List.drop_left' hpnums

/-- The entry at a position of the bundle. -/
theorem entry_bundleRaw (h : ∀ page ∈ pages, page.2.length ≤ ps) (hnum : ∀ page ∈ pages, page.1 < 2 ^ 64)
    {i : Nat} (hi : i < pages.length) :
    (ofLeBytes (((bundleRaw ps pages).drop (8 + i * 8)).take 8),
        block ps i ((bundleRaw ps pages).drop (8 + pages.length * 8))) =
      (pages[i].1, padPage ps (some pages[i].2)) := by
  have hpnums : (((bundleRaw ps pages).drop (8 + i * 8)).take 8) = leBytes 8 pages[i].1 := by
    have hblock := block_flatten (uniform_pnums pages) (i := i) (by rwa [List.length_map])
    rw [List.getElem_map, block] at hblock
    have hlen := length_flatten_of_uniform (uniform_pnums pages)
    rw [List.length_map] at hlen
    have hturn := turn_le 8 hi
    rw [← List.drop_drop, pnums_bundleRaw, List.drop_append_of_le_length (by omega),
      List.take_append_of_le_length (by rw [List.length_drop]; omega), hblock]
  have hdata : block ps i ((bundleRaw ps pages).drop (8 + pages.length * 8)) =
      padPage ps (some pages[i].2) := by
    rw [pages_bundleRaw, block_flatten (uniform_bundlePages h) (by rwa [List.length_map]),
      List.getElem_map]
  rw [hpnums, hdata, ofLeBytes_leBytes]
  exact lt_of_lt_of_le (hnum _ (List.getElem_mem hi)) (by decide)

end BundleRaw

theorem bundleRoundTrips_iff (hc : cfg.codecs.Lawful) (hps : ps < 2 ^ 32) {pages : List (Nat × Bytes)}
    (hnum : ∀ page ∈ pages, page.1 < 2 ^ 64) :
    cfg.BundleRoundTrips aad ps pages ↔ BundleFits ps pages := by
  have hopens : cfg.Opens aad (cfg.encodeInteriorBundle aad ps pages) (bundleRaw ps pages) :=
    opens_sealFrame hc aad _
  constructor
  · intro h
    obtain ⟨s, raw, hraw, hs, hcount, hcap, hsizes⟩ := decodeBundle_bounds h
    rw [List.length_map] at hcount hcap
    obtain ⟨rfl, -⟩ := hopens.openFrame_inv hraw
    rw [drop_bundleRaw, ofLeBytes_leBytes (by omega)] at hs
    subst hs
    refine ⟨fun page hpage => le_of_length_padPage ?_, hcount, hcap⟩
    exact hsizes _ (List.mem_map_of_mem hpage)
  · intro h
    have hlen := length_bundleRaw h.sizes
    have hcap := h.ceiling
    have hword : maxTieredDecompressedBytes < 2 ^ 64 := by decide
    unfold BundleRoundTrips
    rw [result_decodeBundle, Rotation.decodeInteriorBundle, hopens.openFrame (hlen ▸ hcap), ok_bind,
      if_neg (by omega), take_bundleRaw, drop_bundleRaw]
    dsimp only
    have hcount := h.count
    rw [ofLeBytes_leBytes (by omega), ofLeBytes_leBytes (by omega), if_neg (by omega), if_neg (by omega)]
    refine congrArg Except.ok (List.ext_getElem (by simp) fun i hi _ => ?_)
    rw [List.getElem_map, List.getElem_map, List.getElem_range]
    rw [List.length_map, List.length_range] at hi
    exact entry_bundleRaw h.sizes hnum hi

end RoundTrip

/-! ### The codecs -/

/-- Groups and bundles that fit come back, and no others; both decoders of a group agree on every
object; and every object is decoded safely, unless it is decoded into a list of pages and its header claims
more of them than fit under the ceiling as a list. -/
theorem legacyCodecs_iff {cfg : CodecConfig} (hc : cfg.codecs.Lawful) (aad : Bytes) :
    (∀ ps pages, ps < 2 ^ 32 → (cfg.GroupRoundTrips aad ps pages ↔ GroupFits ps pages)) ∧
    (∀ ps pages, ps < 2 ^ 32 → (∀ page ∈ pages, page.1 < 2 ^ 64) →
      (cfg.BundleRoundTrips aad ps pages ↔ BundleFits ps pages)) ∧
    (∀ data, (cfg.decodeGroupSteps aad data).result.map (fun out => (out.1, out.2.1, out.2.2.flatten)) =
      (cfg.decodeBulkSteps aad data).result) ∧
    (∀ data, cfg.SafeBulk aad data) ∧
    (∀ data, cfg.SafeGroup aad data ↔ ¬ cfg.ClaimsManyPages aad data 0 vecBytes) ∧
    ∀ data, cfg.SafeBundle aad data ↔ ¬ cfg.ClaimsManyPages aad data 8 numberedVecBytes :=
  ⟨fun _ _ hps => groupRoundTrips_iff hc hps, fun _ _ hps hnum => bundleRoundTrips_iff hc hps hnum,
    decoders_agree cfg aad, safeBulk cfg aad, safeGroup_iff cfg aad, safeBundle_iff cfg aad⟩

/-- A short page and a missing one, and a bundle with one short page. -/
theorem short_pages_round_trip :
    CodecConfig.plain.GroupRoundTrips [] 2 [some [7], none] ∧
      CodecConfig.plain.BundleRoundTrips [] 2 [(5, [7])] := by
  have hc : CodecConfig.plain.codecs.Lawful := Codecs.plain_lawful
  have h := legacyCodecs_iff hc []
  refine ⟨(h.1 2 _ (by decide)).mpr ⟨?_, by decide, by decide⟩,
    (h.2.1 2 _ (by decide) (by decide)).mpr ⟨by decide, by decide, by decide⟩⟩
  intro data hdata
  simp only [List.mem_cons, Option.some.injEq, reduceCtorEq, List.not_mem_nil, or_false] at hdata
  rw [hdata]
  decide

/-- Eight bytes that claim `2 ^ 32 - 1` pages of no bytes. -/
def emptyPagesHeader : Bytes := [255, 255, 255, 255, 0, 0, 0, 0]

/-- They make `decode_page_group` reserve a list of that many pages. -/
theorem empty_pages_reserve : ¬ CodecConfig.plain.SafeGroup [] emptyPagesHeader := by
  rw [safeGroup_iff, not_not]
  exact ⟨emptyPagesHeader, rfl, by decide, by decide⟩

end CodecConfig

end Turbolite
