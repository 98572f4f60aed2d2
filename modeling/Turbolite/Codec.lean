import Mathlib.Data.List.Induction
import Turbolite.Manifest
import Turbolite.Lib.Blocks
import Turbolite.Lib.Results

/-!
# Turbolite.Codec

Encoding of page groups, override frames and bundles (`encoding.rs`). Compression and
authenticated encryption are external: `Codecs` holds them as functions and `Codecs.Lawful` says
what the program relies on. Everything above them (headers, padding, frame tables, caps and
truncation checks) is as in the source.
-/

namespace Turbolite

open Blocks Results

/-- Compressor (with an optional dictionary) and authenticated cipher (key, slot identity). The
random nonce is part of what `encrypt` returns. -/
structure Codecs where
  compress : Option Bytes → Bytes → Bytes
  decompress : Option Bytes → Bytes → Option Bytes
  encrypt : Bytes → Bytes → Bytes → Bytes
  decrypt : Bytes → Bytes → Bytes → Option Bytes

/-- Round trips; a frame that decodes with and without a dictionary decodes to one content (a frame
compressed with a dictionary names it and is refused without it); and nothing comes out of an empty
input. -/
structure Codecs.Lawful (c : Codecs) : Prop where
  decompress_compress : ∀ d x, c.decompress d (c.compress d x) = some x
  decrypt_encrypt : ∀ k aad x, c.decrypt k aad (c.encrypt k aad x) = some x
  decompress_agree : ∀ d x y z, c.decompress none x = some y → c.decompress d x = some z → y = z
  decompress_nil : ∀ d y, c.decompress d [] = some y → y = []
  decrypt_nil : ∀ k aad x, c.decrypt k aad [] = some x → x = []

/-- The fallback of `compress.rs` for a build without compression and encryption features. -/
def Codecs.plain : Codecs where
  compress _ x := x
  decompress _ x := some x
  encrypt _ _ x := x
  decrypt _ _ x := some x

theorem Codecs.plain_lawful : Codecs.plain.Lawful where
  decompress_compress _ _ := rfl
  decrypt_encrypt _ _ _ := rfl
  decompress_agree _ _ _ _ hy hz := Option.some.inj (hy.symm.trans hz)
  decompress_nil _ _ h := (Option.some.inj h).symm
  decrypt_nil _ _ _ h := (Option.some.inj h).symm

/-- What a handle encodes and decodes with. -/
structure CodecConfig where
  codecs : Codecs
  dictionary : Option Bytes := none
  encryptionKey : Option Bytes := none

/-- Under the handle's key a ciphertext opens under one identity only. -/
def CodecConfig.BindsAad (cfg : CodecConfig) : Prop :=
  ∀ key, cfg.encryptionKey = some key → ∀ aad aad' data x y,
    cfg.codecs.decrypt key aad data = some x → cfg.codecs.decrypt key aad' data = some y → aad = aad'

/-- No compression, no dictionary, no key. -/
def CodecConfig.plain : CodecConfig := { codecs := .plain }

/-- `MAX_TIERED_DECOMPRESSED_BYTES`. -/
def maxTieredDecompressedBytes : Nat := 2 ^ 30

namespace CodecConfig

variable (cfg : CodecConfig)

/-! ### Frames -/

/-- Compress, then encrypt when a key is set. -/
def sealFrame (aad raw : Bytes) : Bytes :=
  let compressed := cfg.codecs.compress cfg.dictionary raw
  match cfg.encryptionKey with
  | some key => cfg.codecs.encrypt key aad compressed
  | none => compressed

/-- `decrypt_if_needed`. -/
def decryptIfNeeded (data aad : Bytes) : IoResult Bytes :=
  match cfg.encryptionKey with
  | none => .ok data
  | some key =>
    match cfg.codecs.decrypt key aad data with
    | some plain => .ok plain
    | none => .error (.io .invalidData "GCM decryption failed")

/-- `compress::decompress_capped`. -/
def decompressCapped (dict : Option Bytes) (data : Bytes) (cap : Nat) : IoResult Bytes :=
  match cfg.codecs.decompress dict data with
  | none => .error (.io .other "decompression failed")
  | some raw =>
    if raw.length ≤ cap then .ok raw
    else .error (.io .invalidData "decompressed output exceeds cap (possible decompression bomb)")

/-- Decrypt, then decompress up to `cap` bytes. -/
def openFrame (dict : Option Bytes) (aad data : Bytes) (cap : Nat) : IoResult Bytes := do
  let plain ← cfg.decryptIfNeeded data aad
  cfg.decompressCapped dict plain cap

/-! ### Pages to bytes -/

/-- A page of the group buffer: short data is padded, a missing page is zeros. -/
def padPage (pageSize : Nat) : Option Bytes → Bytes
  | some data => data ++ List.replicate (pageSize - data.length) 0
  | none => List.replicate pageSize 0

/-- `encode_page_group`. -/
def encodePageGroup (aad : Bytes) (pageSize : Nat) (pages : List (Option Bytes)) : Bytes :=
  cfg.sealFrame aad
    (leBytes 4 pages.length ++ leBytes 4 pageSize ++ (pages.map (padPage pageSize)).flatten)

/-- Append a frame to a blob and its table. -/
def pushFrame (acc : Bytes × List FrameEntry) (frame : Bytes) : Bytes × List FrameEntry :=
  (acc.1 ++ frame, acc.2 ++ [⟨acc.1.length, frame.length⟩])

/-- `encode_page_group_seekable`: one sealed frame per `subPpg` pages, laid end to end. -/
def encodePageGroupSeekable (aad : Bytes) (pageSize subPpg : Nat) (pages : List (Option Bytes)) :
    Bytes × List FrameEntry :=
  ((blocks subPpg pages).map fun frame =>
    cfg.sealFrame aad (frame.map (padPage pageSize)).flatten).foldl pushFrame ([], [])

/-- `encode_override_frame`. -/
def encodeOverrideFrame (aad : Bytes) (pageSize : Nat) (pages : List (Nat × Bytes)) : Bytes :=
  cfg.sealFrame aad (pages.map fun p => padPage pageSize (some p.2)).flatten

/-- `encode_interior_bundle`. -/
def encodeInteriorBundle (aad : Bytes) (pageSize : Nat) (pages : List (Nat × Bytes)) : Bytes :=
  cfg.sealFrame aad (leBytes 4 pages.length ++ leBytes 4 pageSize ++
    (pages.map fun p => leBytes 8 p.1).flatten ++
    (pages.map fun p => padPage pageSize (some p.2)).flatten)

/-! ### Bytes to pages -/

/-- Header check shared by the two legacy decoders: page count, page size and the page bytes. -/
def splitGroupHeader (raw : Bytes) : IoResult (Nat × Nat × Bytes) :=
  if raw.length < 8 then .error (.io .invalidData "page group too short for header")
  else
    let pageCount := ofLeBytes (raw.take 4)
    let pageSize := ofLeBytes ((raw.drop 4).take 4)
    let expectedLen := 8 + pageCount * pageSize
    if raw.length < expectedLen then
      .error (.io .invalidData
        s!"page group data truncated: expected {expectedLen} bytes, got {raw.length}")
    else .ok (pageCount, pageSize, (raw.take expectedLen).drop 8)

/-- `decode_page_group_bulk`: the page bytes after the header. -/
def decodePageGroupBulk (dict : Option Bytes) (aad compressed : Bytes) :
    IoResult (Nat × Nat × Bytes) := do
  let raw ← cfg.openFrame dict aad compressed maxTieredDecompressedBytes
  splitGroupHeader raw

/-- `decode_page_group`: the pages one by one. -/
def decodePageGroup (dict : Option Bytes) (aad compressed : Bytes) :
    IoResult (Nat × Nat × List Bytes) := do
  let (pageCount, pageSize, body) ← cfg.decodePageGroupBulk dict aad compressed
  .ok (pageCount, pageSize, (List.range pageCount).map fun i => block pageSize i body)

/-- `decode_seekable_subchunk`. -/
def decodeSeekableSubchunk (aad frame : Bytes) : IoResult Bytes :=
  cfg.openFrame cfg.dictionary aad frame maxTieredDecompressedBytes

/-- One frame of a full decode: in bounds, opened up to `cap` bytes. -/
def openEntry (dict : Option Bytes) (aad data : Bytes) (cap : Nat) (entry : FrameEntry) :
    IoResult Bytes :=
  if data.length < entry.offset + entry.len then
    .error (.io .invalidData s!"frame extends beyond data: {entry.offset}..{entry.offset + entry.len} > {data.length}")
  else cfg.openFrame dict aad ((data.drop entry.offset).take entry.len) cap

/-- The cap on one frame: the bytes of the whole group, or the absolute ceiling when that is 0. -/
def frameCap (pageSize actualPages : Nat) : Nat :=
  if actualPages * pageSize = 0 then maxTieredDecompressedBytes else actualPages * pageSize

/-- `decode_page_group_seekable_full`, always called with `group_start = 0`. The last step divides by the
page size and counts the decoded pages in a `u32`. -/
def decodePageGroupSeekableFull (dict : Option Bytes) (aad data : Bytes)
    (frameTable : List FrameEntry) (pageSize pagesPerGroup totalPageCount : Nat) :
    IoResult (Nat × Nat × Bytes) := do
  let actualPages := min pagesPerGroup totalPageCount
  let frames ← frameTable.mapM (cfg.openEntry dict aad data (frameCap pageSize actualPages))
  let output := frames.flatten
  if pageSize = 0 then .error .panic
  else
    let decodedPages := output.length / pageSize % 2 ^ 32
    let actualPages := min actualPages decodedPages
    .ok (actualPages, pageSize, output.take (actualPages * pageSize))

/-! ### What a sealed frame opens to -/

/-- `data` decrypts and decompresses, under the handle's dictionary, to `raw`. -/
def Opens (aad data raw : Bytes) : Prop :=
  ∃ plain, cfg.decryptIfNeeded data aad = .ok plain ∧
    cfg.codecs.decompress cfg.dictionary plain = some raw

variable {cfg}

theorem opens_sealFrame (hc : cfg.codecs.Lawful) (aad raw : Bytes) :
    cfg.Opens aad (cfg.sealFrame aad raw) raw := by
  unfold Opens sealFrame decryptIfNeeded
  cases cfg.encryptionKey with
  | none => exact ⟨_, rfl, hc.decompress_compress _ _⟩
  | some key =>
    simp only [hc.decrypt_encrypt]
    exact ⟨_, rfl, hc.decompress_compress _ _⟩

/-- Decoding with or without the dictionary gives the content or fails. -/
theorem Opens.openFrame_dict (hc : cfg.codecs.Lawful) {aad data raw : Bytes}
    (h : cfg.Opens aad data raw) {dict : Option Bytes} (hdict : dict = none ∨ dict = cfg.dictionary)
    {cap : Nat} {out : Bytes} (ho : cfg.openFrame dict aad data cap = .ok out) :
    out = raw ∧ raw.length ≤ cap := by
  obtain ⟨plain, hd, hz⟩ := h
  simp only [CodecConfig.openFrame, hd, ok_bind, decompressCapped] at ho
  cases hn : cfg.codecs.decompress dict plain with
  | none => rw [hn] at ho; cases ho
  | some y =>
    obtain rfl : y = raw := by
      rcases hdict with rfl | rfl
      · exact hc.decompress_agree _ _ _ _ hn hz
      · exact Option.some.inj (hn.symm.trans hz)
    simp only [hn] at ho
    split at ho
    · rename_i hcap
      cases ho
      exact ⟨rfl, hcap⟩
    · cases ho

theorem Opens.openFrame_inv {aad data raw : Bytes} (h : cfg.Opens aad data raw) {cap : Nat}
    {out : Bytes} (ho : cfg.openFrame cfg.dictionary aad data cap = .ok out) :
    out = raw ∧ raw.length ≤ cap := by
  obtain ⟨plain, hd, hz⟩ := h
  simp only [CodecConfig.openFrame, hd, ok_bind, decompressCapped, hz] at ho
  split at ho
  · rename_i hcap
    cases ho
    exact ⟨rfl, hcap⟩
  · cases ho

theorem Opens.openFrame {aad data raw : Bytes} (h : cfg.Opens aad data raw) {cap : Nat}
    (hcap : raw.length ≤ cap) : cfg.openFrame cfg.dictionary aad data cap = .ok raw := by
  obtain ⟨plain, hd, hz⟩ := h
  simp only [CodecConfig.openFrame, hd, ok_bind, decompressCapped, hz, if_pos hcap]

/-! ### Padding -/

theorem length_padPage {pageSize : Nat} {page : Option Bytes}
    (h : ∀ data, page = some data → data.length ≤ pageSize) :
    (padPage pageSize page).length = pageSize := by
  cases page with
  | none => simp [padPage]
  | some data =>
    have := h data rfl
    simp [padPage]; omega

theorem padPage_full {pageSize : Nat} {data : Bytes} (h : data.length = pageSize) :
    padPage pageSize (some data) = data := by
  simp [padPage, h]

/-! ### What an object holds -/

variable (cfg)

/-- A seekable group object: frame `f` of the table opens to pages `f * spf` to `(f + 1) * spf`. -/
structure HoldsSeekable (aad data : Bytes) (ft : List FrameEntry) (ps spf : Nat)
    (pages : List Bytes) : Prop where
  uniform : Uniform ps pages
  length : ft.length = divCeil pages.length spf
  frame : ∀ f e, ft[f]? = some e → e.offset + e.len ≤ data.length ∧
    cfg.Opens aad ((data.drop e.offset).take e.len) (block spf f pages).flatten

/-- A legacy group object: header and page bytes in one frame. -/
structure HoldsLegacy (aad data : Bytes) (ps : Nat) (pages : List Bytes) : Prop where
  uniform : Uniform ps pages
  length_lt : pages.length < 2 ^ 32
  pageSize_lt : ps < 2 ^ 32
  opens : cfg.Opens aad data (leBytes 4 pages.length ++ leBytes 4 ps ++ pages.flatten)

/-- An override object: page bytes, nothing else. -/
structure HoldsOverride (aad data : Bytes) (ps : Nat) (pages : List Bytes) : Prop where
  uniform : Uniform ps pages
  opens : cfg.Opens aad data pages.flatten

variable {cfg}

theorem uniform_padPage {ps : Nat} {pages : List (Option Bytes)}
    (h : ∀ data, some data ∈ pages → data.length ≤ ps) : Uniform ps (pages.map (padPage ps)) := by
  intro x hx
  obtain ⟨page, hp, rfl⟩ := List.mem_map.mp hx
  exact length_padPage fun data hd => h data (hd ▸ hp)

theorem length_pushFrame_table (frames : List Bytes) :
    (frames.foldl pushFrame ([], [])).2.length = frames.length := by
  induction frames using List.reverseRecOn with
  | nil => rfl
  | append_singleton fs x ih => simp [List.foldl_append, pushFrame, ih]

/-- Every entry of the table cuts its own frame out of the blob. -/
theorem pushFrame_spec (frames : List Bytes) {f : Nat} {e : FrameEntry}
    (h : (frames.foldl pushFrame ([], [])).2[f]? = some e) :
    ∃ frame, frames[f]? = some frame ∧
      e.offset + e.len ≤ (frames.foldl pushFrame ([], [])).1.length ∧
      ((frames.foldl pushFrame ([], [])).1.drop e.offset).take e.len = frame := by
  induction frames using List.reverseRecOn with
  | nil => simp at h
  | append_singleton fs x ih =>
    simp only [List.foldl_append, List.foldl_cons, List.foldl_nil, pushFrame] at h ⊢
    have hlen := length_pushFrame_table fs
    rcases Nat.lt_or_ge f fs.length with hf | hf
    · rw [List.getElem?_append_left (by omega)] at h
      obtain ⟨frame, hfr, hle, hcut⟩ := ih h
      refine ⟨frame, by rw [List.getElem?_append_left hf]; exact hfr, ?_, ?_⟩
      · rw [List.length_append]; omega
      · rw [List.drop_append_of_le_length (by omega), List.take_append_of_le_length, hcut]
        rw [List.length_drop]; omega
    · rw [List.getElem?_append_right (by omega), hlen] at h
      obtain ⟨hz, rfl⟩ : f - fs.length = 0 ∧ e = ⟨_, _⟩ := by
        rcases Nat.eq_zero_or_pos (f - fs.length) with h0 | h0
        · rw [h0] at h
          exact ⟨h0, (Option.some.inj h).symm⟩
        · rw [List.getElem?_eq_none (by rw [List.length_singleton]; exact h0)] at h
          cases h
      refine ⟨x, ?_, by simp, by simp⟩
      rw [List.getElem?_append_right hf, hz]
      rfl

/-- The seekable encoder writes an object that holds the padded pages. -/
theorem encodePageGroupSeekable_holds (hc : cfg.codecs.Lawful) (aad : Bytes) {ps spf : Nat}
    {pages : List (Option Bytes)} (hps : ∀ data, some data ∈ pages → data.length ≤ ps) :
    cfg.HoldsSeekable aad (cfg.encodePageGroupSeekable aad ps spf pages).1
      (cfg.encodePageGroupSeekable aad ps spf pages).2 ps spf (pages.map (padPage ps)) where
  uniform := uniform_padPage hps
  length := by simp [encodePageGroupSeekable, length_pushFrame_table]
  frame := by
    intro f e he
    obtain ⟨frame, hfr, hle, hcut⟩ := pushFrame_spec _ he
    refine ⟨hle, ?_⟩
    rw [List.getElem?_map, getElem?_blocks] at hfr
    split at hfr
    · cases hfr
      rw [block_map]
      unfold encodePageGroupSeekable
      rw [hcut]
      exact opens_sealFrame hc aad _
    · cases hfr

/-- The legacy encoder writes an object that holds the padded pages. -/
theorem encodePageGroup_holds (hc : cfg.codecs.Lawful) (aad : Bytes) {ps : Nat}
    {pages : List (Option Bytes)} (hps : ∀ data, some data ∈ pages → data.length ≤ ps)
    (hlen : pages.length < 2 ^ 32) (hsize : ps < 2 ^ 32) :
    cfg.HoldsLegacy aad (cfg.encodePageGroup aad ps pages) ps (pages.map (padPage ps)) where
  uniform := uniform_padPage hps
  length_lt := by simpa using hlen
  pageSize_lt := hsize
  opens := by
    rw [List.length_map]
    exact opens_sealFrame hc aad _

/-- The override encoder writes an object that holds the padded pages. -/
theorem encodeOverrideFrame_holds (hc : cfg.codecs.Lawful) (aad : Bytes) {ps : Nat}
    {pages : List (Nat × Bytes)} (hps : ∀ p ∈ pages, p.2.length ≤ ps) :
    cfg.HoldsOverride aad (cfg.encodeOverrideFrame aad ps pages) ps
      (pages.map fun p => padPage ps (some p.2)) where
  uniform := by
    intro x hx
    obtain ⟨p, hp, rfl⟩ := List.mem_map.mp hx
    exact length_padPage fun data hd => Option.some.inj hd ▸ hps p hp
  opens := opens_sealFrame hc aad _

/-! ### Frames written without the dictionary -/

section Plain

/-- A dictionary decodes what was compressed without one. -/
def ReadsPlain (cfg : CodecConfig) : Prop :=
  ∀ x y, cfg.codecs.decompress none x = some y → cfg.codecs.decompress cfg.dictionary x = some y

theorem ReadsPlain.opens (hd : cfg.ReadsPlain) {aad data raw : Bytes}
    (h : ({ cfg with dictionary := none } : CodecConfig).Opens aad data raw) :
    cfg.Opens aad data raw := by
  obtain ⟨plain, hplain, hraw⟩ := h
  exact ⟨plain, hplain, hd _ _ hraw⟩

theorem ReadsPlain.seekable (hd : cfg.ReadsPlain) {aad data : Bytes} {ft : List FrameEntry}
    {ps spf : Nat} {pages : List Bytes}
    (h : ({ cfg with dictionary := none } : CodecConfig).HoldsSeekable aad data ft ps spf pages) :
    cfg.HoldsSeekable aad data ft ps spf pages :=
  ⟨h.uniform, h.length, fun f e he => ⟨(h.frame f e he).1, hd.opens (h.frame f e he).2⟩⟩

theorem ReadsPlain.openFrame (hd : cfg.ReadsPlain) {aad data out : Bytes} {cap : Nat}
    (h : cfg.openFrame none aad data cap = .ok out) :
    cfg.openFrame cfg.dictionary aad data cap = .ok out := by
  obtain ⟨plain, hplain, hraw⟩ := bind_eq_ok.mp h
  refine bind_eq_ok.mpr ⟨plain, hplain, ?_⟩
  unfold decompressCapped at hraw ⊢
  cases hx : cfg.codecs.decompress none plain with
  | none =>
    rw [hx] at hraw
    cases hraw
  | some raw =>
    rw [hx] at hraw
    rw [hd _ _ hx]
    exact hraw

theorem ReadsPlain.decodeBulk (hd : cfg.ReadsPlain) {aad data : Bytes} {out : Nat × Nat × Bytes}
    (h : cfg.decodePageGroupBulk none aad data = .ok out) :
    cfg.decodePageGroupBulk cfg.dictionary aad data = .ok out := by
  obtain ⟨raw, hraw, hout⟩ := bind_eq_ok.mp h
  exact bind_eq_ok.mpr ⟨raw, hd.openFrame hraw, hout⟩

theorem ReadsPlain.decodeSeekable (hd : cfg.ReadsPlain) {aad data : Bytes} {ft : List FrameEntry}
    {ps n pc : Nat} {out : Nat × Nat × Bytes}
    (h : cfg.decodePageGroupSeekableFull none aad data ft ps n pc = .ok out) :
    cfg.decodePageGroupSeekableFull cfg.dictionary aad data ft ps n pc = .ok out := by
  obtain ⟨frames, hframes, hout⟩ := bind_eq_ok.mp h
  refine bind_eq_ok.mpr ⟨frames, ?_, hout⟩
  refine mapM_mono (fun e frame he => ?_) hframes
  unfold openEntry at he ⊢
  split at he
  · cases he
  · rename_i hle
    rw [if_neg hle]
    exact hd.openFrame he

end Plain

/-! ### Decoding what an object holds -/

section Decode

variable {aad data : Bytes} {ft : List FrameEntry} {ps spf : Nat} {pages : List Bytes}

theorem splitGroupHeader_append {n : Nat} {body : Bytes} (hn : n < 2 ^ 32) (hp : ps < 2 ^ 32)
    (hb : body.length = n * ps) :
    splitGroupHeader (leBytes 4 n ++ leBytes 4 ps ++ body) = .ok (n, ps, body) := by
  have h1 : (leBytes 4 n ++ leBytes 4 ps ++ body).take 4 = leBytes 4 n := by
    rw [List.append_assoc, List.take_append_of_le_length (by simp), List.take_of_length_le (by simp)]
  have h2 : ((leBytes 4 n ++ leBytes 4 ps ++ body).drop 4).take 4 = leBytes 4 ps := by
    rw [List.append_assoc, List.drop_append_of_le_length (by simp), List.drop_of_length_le (by simp),
      List.nil_append, List.take_append_of_le_length (by simp), List.take_of_length_le (by simp)]
  have hlen : (leBytes 4 n ++ leBytes 4 ps ++ body).length = 8 + n * ps := by simp [hb]; omega
  unfold splitGroupHeader
  rw [if_neg (by omega), h1, h2, ofLeBytes_leBytes (by simpa using hn),
    ofLeBytes_leBytes (by simpa using hp)]
  simp only [hlen, lt_irrefl, if_false]
  rw [List.take_of_length_le (by omega), List.drop_append_of_le_length (by simp),
    List.drop_of_length_le (by simp), List.nil_append]

theorem length_legacy_raw (h : cfg.HoldsLegacy aad data ps pages) :
    (leBytes 4 pages.length ++ leBytes 4 ps ++ pages.flatten).length = 8 + pages.length * ps := by
  simp [length_flatten_of_uniform h.uniform]
  omega

/-- An empty object is no page group. -/
theorem decodeBulk_nil (hc : cfg.codecs.Lawful) (dict : Option Bytes) (aad : Bytes)
    (out : Nat × Nat × Bytes) : cfg.decodePageGroupBulk dict aad [] ≠ .ok out := by
  intro h
  obtain ⟨raw, hraw, hsplit⟩ := bind_eq_ok.mp h
  obtain ⟨plain, hplain, hraw⟩ := bind_eq_ok.mp hraw
  have hp : plain = [] := by
    unfold decryptIfNeeded at hplain
    cases hk : cfg.encryptionKey with
    | none => rw [hk] at hplain; cases hplain; rfl
    | some key =>
      simp only [hk] at hplain
      cases hd : cfg.codecs.decrypt key aad [] with
      | none => rw [hd] at hplain; cases hplain
      | some x =>
        rw [hd] at hplain
        cases hplain
        exact hc.decrypt_nil key aad _ hd
  have hr : raw = [] := by
    rw [hp, decompressCapped] at hraw
    cases hd : cfg.codecs.decompress dict [] with
    | none => rw [hd] at hraw; cases hraw
    | some y =>
      simp only [hd, hc.decompress_nil dict y hd] at hraw
      cases hraw
      rfl
  rw [hr] at hsplit
  cases hsplit

theorem HoldsLegacy.decodeBulk_inv (hc : cfg.codecs.Lawful) (h : cfg.HoldsLegacy aad data ps pages)
    {dict : Option Bytes} (hdict : dict = none ∨ dict = cfg.dictionary) {out : Nat × Nat × Bytes}
    (ho : cfg.decodePageGroupBulk dict aad data = .ok out) :
    out = (pages.length, ps, pages.flatten) := by
  obtain ⟨raw, hraw, hsplit⟩ := bind_eq_ok.mp ho
  obtain ⟨rfl, -⟩ := h.opens.openFrame_dict hc hdict hraw
  rw [splitGroupHeader_append h.length_lt h.pageSize_lt
    (length_flatten_of_uniform h.uniform)] at hsplit
  exact (Except.ok.inj hsplit).symm

theorem HoldsLegacy.decodeBulk (h : cfg.HoldsLegacy aad data ps pages)
    (hcap : 8 + pages.length * ps ≤ maxTieredDecompressedBytes) :
    cfg.decodePageGroupBulk cfg.dictionary aad data = .ok (pages.length, ps, pages.flatten) := by
  unfold decodePageGroupBulk
  rw [h.opens.openFrame (by rw [length_legacy_raw h]; exact hcap), ok_bind,
    splitGroupHeader_append h.length_lt h.pageSize_lt (length_flatten_of_uniform h.uniform)]

theorem HoldsLegacy.decode_inv (hc : cfg.codecs.Lawful) (h : cfg.HoldsLegacy aad data ps pages)
    {dict : Option Bytes} (hdict : dict = none ∨ dict = cfg.dictionary)
    {out : Nat × Nat × List Bytes} (ho : cfg.decodePageGroup dict aad data = .ok out) :
    out.2.2 = pages := by
  obtain ⟨⟨n, s, body⟩, hb, ho⟩ := bind_eq_ok.mp ho
  obtain ⟨rfl, rfl, rfl⟩ : n = pages.length ∧ s = ps ∧ body = pages.flatten := by
    simpa using h.decodeBulk_inv hc hdict hb
  cases ho
  exact map_block_flatten h.uniform

/-- The frames of a seekable object, one after the other, are its pages. -/
theorem HoldsSeekable.flatten_frames (hspf : 0 < spf) (pages : List Bytes) :
    ((blocks spf pages).map List.flatten).flatten = pages.flatten := by
  rw [← List.flatten_flatten, flatten_blocks hspf]

theorem HoldsSeekable.length_frame (h : cfg.HoldsSeekable aad data ft ps spf pages) (f : Nat) :
    (block spf f pages).flatten.length = min spf (pages.length - f * spf) * ps := by
  rw [length_flatten_of_uniform (h.uniform.block spf f), length_block]

/-- A full decode that succeeds opened every frame to its pages. -/
theorem HoldsSeekable.decode_inv (hc : cfg.codecs.Lawful)
    (h : cfg.HoldsSeekable aad data ft ps spf pages) (hspf : 0 < spf) (hps : 0 < ps)
    (hlt : pages.length < 2 ^ 32) {dict : Option Bytes}
    (hdict : dict = none ∨ dict = cfg.dictionary) {n pc : Nat}
    {out : Nat × Nat × Bytes}
    (ho : cfg.decodePageGroupSeekableFull dict aad data ft ps n pc = .ok out) :
    out = (min (min n pc) pages.length, ps, (pages.take (min n pc)).flatten) := by
  obtain ⟨frames, hm, ho⟩ := bind_eq_ok.mp ho
  have hmap := map_eq_of_mapM hm
  have hframes : frames = (blocks spf pages).map List.flatten := by
    refine List.ext_getElem? fun f => ?_
    have hf := congrArg (·[f]?) hmap
    simp only [List.getElem?_map] at hf
    rw [List.getElem?_map, getElem?_blocks]
    cases he : ft[f]? with
    | none =>
      rw [he] at hf
      rw [List.getElem?_eq_none_iff, h.length] at he
      rw [if_neg (by omega)]
      simpa using hf.symm
    | some e =>
      have hlt := (List.getElem?_eq_some_iff.mp he).1
      rw [h.length] at hlt
      rw [he, Option.map_some] at hf
      obtain ⟨x, hx, hxe⟩ := Option.map_eq_some_iff.mp hf.symm
      obtain ⟨hle, hop⟩ := h.frame f e he
      rw [openEntry, if_neg (by omega)] at hxe
      rw [if_pos hlt, hx, (hop.openFrame_dict hc hdict hxe.symm).1]
      rfl
  subst hframes
  dsimp only at ho
  rw [if_neg hps.ne', HoldsSeekable.flatten_frames hspf, length_flatten_of_uniform h.uniform,
    Nat.mul_div_cancel _ hps, Nat.mod_eq_of_lt hlt, take_flatten_of_uniform h.uniform,
    ← List.take_take, List.take_length] at ho
  exact (Except.ok.inj ho).symm

/-- A full decode succeeds when the first, and so the largest, frame fits the cap. -/
theorem HoldsSeekable.decode_count (h : cfg.HoldsSeekable aad data ft ps spf pages) (hspf : 0 < spf)
    (hps : 0 < ps) {n pc : Nat} (hcap : min spf pages.length * ps ≤ frameCap ps (min n pc)) :
    cfg.decodePageGroupSeekableFull cfg.dictionary aad data ft ps n pc =
      .ok (min (min n pc) (pages.length % 2 ^ 32), ps,
        (pages.take (min (min n pc) (pages.length % 2 ^ 32))).flatten) := by
  have hframes : ft.map (cfg.openEntry cfg.dictionary aad data (frameCap ps (min n pc))) =
      ((blocks spf pages).map List.flatten).map .ok := by
    refine List.ext_getElem? fun f => ?_
    rw [List.getElem?_map, List.getElem?_map, List.getElem?_map, getElem?_blocks]
    cases he : ft[f]? with
    | none =>
      rw [List.getElem?_eq_none_iff, h.length] at he
      rw [if_neg (by omega)]; rfl
    | some e =>
      have hlt := (List.getElem?_eq_some_iff.mp he).1
      rw [h.length] at hlt
      obtain ⟨hle, hop⟩ := h.frame f e he
      have hfit : (block spf f pages).flatten.length ≤ frameCap ps (min n pc) := by
        rw [h.length_frame]
        refine le_trans (Nat.mul_le_mul_right ps ?_) hcap
        omega
      rw [if_pos hlt, Option.map_some, openEntry, if_neg (by omega), hop.openFrame hfit]
      rfl
  unfold decodePageGroupSeekableFull
  dsimp only
  rw [mapM_eq_ok.mpr hframes, ok_bind, if_neg hps.ne', HoldsSeekable.flatten_frames hspf,
    length_flatten_of_uniform h.uniform, Nat.mul_div_cancel _ hps,
    take_flatten_of_uniform h.uniform]

theorem HoldsSeekable.decode (h : cfg.HoldsSeekable aad data ft ps spf pages) (hspf : 0 < spf)
    (hps : 0 < ps) (hlt : pages.length < 2 ^ 32) {n pc : Nat}
    (hcap : min spf pages.length * ps ≤ frameCap ps (min n pc)) :
    cfg.decodePageGroupSeekableFull cfg.dictionary aad data ft ps n pc =
      .ok (min (min n pc) pages.length, ps, (pages.take (min n pc)).flatten) := by
  rw [h.decode_count hspf hps hcap, Nat.mod_eq_of_lt hlt, ← List.take_take, List.take_length]

/-- A full decode fails when the first frame exceeds the cap. -/
theorem HoldsSeekable.decode_error (h : cfg.HoldsSeekable aad data ft ps spf pages)
    (hspf : 0 < spf) {n pc : Nat}
    (hcap : frameCap ps (min n pc) < min spf pages.length * ps) :
    ∃ e, cfg.decodePageGroupSeekableFull cfg.dictionary aad data ft ps n pc = .error e := by
  have hN : 0 < pages.length := by
    rcases Nat.eq_zero_or_pos pages.length with h0 | h0
    · rw [h0] at hcap; simp at hcap
    · exact h0
  have h0 : 0 < ft.length := by
    rw [h.length, lt_divCeil_iff hspf]; simpa using hN
  cases hd : cfg.decodePageGroupSeekableFull cfg.dictionary aad data ft ps n pc with
  | error e => exact ⟨e, rfl⟩
  | ok out =>
    obtain ⟨frames, hm, -⟩ := bind_eq_ok.mp hd
    have hmap := congrArg (·[0]?) (map_eq_of_mapM hm)
    simp only [List.getElem?_map, List.getElem?_eq_getElem h0, Option.map_some] at hmap
    obtain ⟨x, -, hx⟩ := Option.map_eq_some_iff.mp hmap.symm
    obtain ⟨hle, hop⟩ := h.frame 0 ft[0] (List.getElem?_eq_getElem h0)
    rw [openEntry, if_neg (by omega)] at hx
    have hlen := (hop.openFrame_inv hx.symm).2
    rw [h.length_frame] at hlen
    simp only [Nat.zero_mul, Nat.sub_zero] at hlen
    omega

/-! ### Decoding with another dictionary -/

theorem opens_of_openFrame {dict : Option Bytes} {cap : Nat} {out : Bytes}
    (h : cfg.openFrame dict aad data cap = .ok out) :
    ({ cfg with dictionary := dict } : CodecConfig).Opens aad data out := by
  obtain ⟨plain, hplain, hraw⟩ := bind_eq_ok.mp h
  refine ⟨plain, hplain, ?_⟩
  unfold decompressCapped at hraw
  show cfg.codecs.decompress dict plain = some out
  cases hx : cfg.codecs.decompress dict plain with
  | none =>
    rw [hx] at hraw
    cases hraw
  | some raw =>
    simp only [hx] at hraw
    split at hraw
    · cases hraw
      rfl
    · cases hraw

end Decode

end CodecConfig

end Turbolite
