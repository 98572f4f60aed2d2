import Turbolite.Codec
import Turbolite.Lib.Extents

/-!
# Turbolite.LocalFormat

The single-file format `TLLOCAL1` (`local/file_format.rs`, and the encoder and decoder of whole files in
`local/mod.rs`): a fixed header, one self-describing blob a page, and a directory of the blobs at the
tail. The encoder cuts an image into pages and the last one may be short; the decoder wants every page
full. `decodeFile_fileBytes` says what follows: a file is read back exactly when the image is a whole
number of pages.
-/

namespace Turbolite

open Blocks Extents Results

namespace LocalFormat

/-! ### Constants -/

/-- `MAGIC`, the letters `TLLOCAL1`. -/
def magic : Bytes := [0x54, 0x4C, 0x4C, 0x4F, 0x43, 0x41, 0x4C, 0x31]

/-- `FORMAT_VERSION`. -/
def formatVersion : Nat := 1

/-- `HEADER_LEN`. -/
def headerLen : Nat := 64

/-- `DIR_ENTRY_LEN`. -/
def dirEntryLen : Nat := 12

/-- `MIN_PAGE_SIZE`. -/
def minPageSize : Nat := 512

/-- `MAX_PAGE_SIZE`. -/
def maxPageSize : Nat := 65536

/-- `FLAG_ENCRYPTED`. -/
def flagEncrypted : Nat := 1

/-- `CODEC_RAW`. -/
def codecRaw : UInt8 := 0

/-- `CODEC_ZSTD`. -/
def codecZstd : UInt8 := 1

/-- A `Vec<u8>` holds at most `isize::MAX` bytes; growing it further panics. -/
def maxVecLen : Nat := 2 ^ 63 - 1

/-- A page size both `open_local_with` and the header decoder accept. -/
structure PageSize where
  val : Nat
  min : minPageSize ≤ val
  max : val ≤ maxPageSize
  deriving DecidableEq

/-! ### Header -/

/-- `to_be_bytes`. -/
def beBytes (w n : Nat) : Bytes := (leBytes w n).reverse

/-- The fields of the file header. -/
structure Header where
  formatVersion : Nat
  flags : Nat
  pageSize : PageSize
  pageCount : Nat
  directoryOffset : Nat
  deriving DecidableEq

namespace Header

/-- `Header::encode`; the version written is the current one whatever the header says. -/
def encode (h : Header) : Bytes :=
  magic ++ (beBytes 2 LocalFormat.formatVersion ++ (leBytes 2 h.flags ++ (leBytes 4 h.pageSize.val ++
    (leBytes 8 h.pageCount ++ (leBytes 8 h.directoryOffset ++ List.replicate 32 0)))))

/-- `Header::decode`. -/
def decode (buf : Bytes) : IoResult Header :=
  if buf.length < headerLen then .error (.io .unexpectedEof "local db header truncated")
  else if buf.take 8 ≠ magic then .error (.io .invalidData "not a TLLOCAL1 file (bad magic)")
  else
    let version := ofBeBytes ((buf.drop 8).take 2)
    if version ≠ LocalFormat.formatVersion then
      .error (.io .invalidData s!"unsupported TLLOCAL1 version {version}")
    else
      let pageSize := ofLeBytes ((buf.drop 12).take 4)
      if hps : minPageSize ≤ pageSize ∧ pageSize ≤ maxPageSize then
        let directoryOffset := ofLeBytes ((buf.drop 24).take 8)
        if directoryOffset < headerLen then
          .error (.io .invalidData "TLLOCAL1 directory_offset inside header")
        else .ok
          { formatVersion := version
            flags := ofLeBytes ((buf.drop 10).take 2)
            pageSize := ⟨pageSize, hps.1, hps.2⟩
            pageCount := ofLeBytes ((buf.drop 16).take 8)
            directoryOffset := directoryOffset }
      else .error (.io .invalidData s!"TLLOCAL1 page_size {pageSize} out of range")

end Header

/-! ### Pages -/

/-- `PageCodec`: the codecs at the chosen compression level, whether to compress, and the key. -/
structure PageCodec where
  codecs : Codecs
  compress : Bool
  key : Option Bytes

namespace PageCodec

variable (c : PageCodec)

/-- `header_flags`. -/
def headerFlags : Nat := if c.key.isSome then flagEncrypted else 0

/-- `compress_page`: the compressed form when it is shorter. -/
def compressPage (page : Bytes) : UInt8 × Bytes :=
  if c.compress then
    let compressed := c.codecs.compress none page
    if compressed.length < page.length then (codecZstd, compressed) else (codecRaw, page)
  else (codecRaw, page)

/-- `maybe_encrypt`. -/
def maybeEncrypt (payload : Bytes) : Bytes :=
  match c.key with
  | some key => c.codecs.encrypt key [] payload
  | none => payload

/-- `maybe_decrypt`. -/
def maybeDecrypt (payload : Bytes) : IoResult Bytes :=
  match c.key with
  | some key =>
    match c.codecs.decrypt key [] payload with
    | some plain => .ok plain
    | none => .error (.io .other "Decryption failed")
  | none => .ok payload

/-- `encode_page`. -/
def encodePage (page : Bytes) : Bytes :=
  let (tag, payload) := c.compressPage page
  tag :: c.maybeEncrypt payload

/-- `decompress_zstd`. -/
def decompressZstd (payload : Bytes) (maxPage : Nat) : IoResult Bytes :=
  CodecConfig.decompressCapped { codecs := c.codecs } none payload maxPage

/-- `decode_page`. -/
def decodePage (blob : Bytes) (maxPage : Nat) : IoResult Bytes :=
  match blob with
  | [] => .error (.io .invalidData "empty page blob")
  | tag :: rest => do
    let payload ← c.maybeDecrypt rest
    if tag = codecRaw then
      if payload.length ≠ maxPage then .error (.io .invalidData
        s!"raw page length {payload.length} does not match expected page size {maxPage}")
      else .ok payload
    else if tag = codecZstd then do
      let decompressed ← c.decompressZstd payload maxPage
      if decompressed.length ≠ maxPage then .error (.io .invalidData
        s!"decompressed page length {decompressed.length} does not match expected page size {maxPage}")
      else .ok decompressed
    else .error (.io .invalidData s!"unknown page codec tag {tag}")

end PageCodec

/-! ### Directory -/

/-- `encode_directory`. -/
def encodeDirectory (entries : List (Nat × Nat)) : Bytes :=
  (entries.map fun e => leBytes 8 e.1 ++ leBytes 4 e.2).flatten

/-- `decode_directory`. -/
def decodeDirectory (bytes : Bytes) (count : Nat) : IoResult (List (Nat × Nat)) :=
  if 2 ^ 64 ≤ count * dirEntryLen then .error (.io .invalidData "directory size overflow")
  else if bytes.length < count * dirEntryLen then
    .error (.io .unexpectedEof "page directory truncated")
  else .ok ((List.range count).map fun i =>
    let entry := block dirEntryLen i bytes
    (ofLeBytes (entry.take 8), ofLeBytes (entry.drop 8)))

/-! ### Whole files -/

/-- One page of `persist`: its blob behind the others, its extent in the directory. -/
def pushPage (c : PageCodec) (acc : Bytes × List (Nat × Nat)) (chunk : Bytes) :
    IoResult (Bytes × List (Nat × Nat)) :=
  let blob := c.encodePage chunk
  if 2 ^ 32 ≤ blob.length then .error (.io .invalidData "page blob too large")
  else .ok (acc.1 ++ blob, acc.2 ++ [(headerLen + acc.1.length, blob.length)])

/-- What `persist` writes for an image. -/
def fileBytes (c : PageCodec) (ps : PageSize) (image : Bytes) : IoResult Bytes := do
  let (data, directory) ← (blocks ps.val image).foldlM (pushPage c) ([], [])
  let header : Header :=
    { formatVersion := formatVersion
      flags := c.headerFlags
      pageSize := ps
      pageCount := directory.length
      directoryOffset := headerLen + data.length }
  let bytes := header.encode ++ data ++ encodeDirectory directory
  if maxVecLen < bytes.length then .error .panic else .ok bytes

/-- One directory entry of `decode_file`: the blob lies between the header and the directory. -/
def decodeEntry (c : PageCodec) (bytes : Bytes) (dirOff maxPage : Nat) (entry : Nat × Nat) :
    IoResult Bytes :=
  let (start, len) := entry
  if 2 ^ 64 ≤ start + len then .error (.io .invalidData "page extent overflow")
  else if start < headerLen ∨ dirOff < start + len then
    .error (.io .invalidData "page blob outside data region")
  else c.decodePage (cut bytes entry) maxPage

/-- `decode_file`. -/
def decodeFile (bytes : Bytes) (c : PageCodec) : IoResult (Bytes × PageSize) := do
  let header ← Header.decode bytes
  let fileEncrypted := header.flags &&& flagEncrypted ≠ 0
  if fileEncrypted ∧ c.key.isNone then
    .error (.io .invalidData "database is encrypted but no key was supplied")
  else if ¬ fileEncrypted ∧ c.key.isSome then
    .error (.io .invalidData "key supplied but database is not encrypted")
  else
    let dirOff := header.directoryOffset
    if bytes.length < dirOff then
      .error (.io .invalidData "directory offset past end of file")
    else if bytes.length / (1 + dirEntryLen) < header.pageCount then
      .error (.io .invalidData "page_count exceeds file capacity")
    else if dirOff + header.pageCount * dirEntryLen ≠ bytes.length then
      .error (.io .invalidData "directory length inconsistent with file size")
    else do
      let directory ← decodeDirectory (bytes.drop dirOff) header.pageCount
      let pages ← directory.mapM (decodeEntry c bytes dirOff header.pageSize.val)
      .ok (pages.flatten, header.pageSize)

/-! ### Reading fields back -/

theorem field_eq {p x q : Bytes} {o w : Nat} (ho : p.length = o) (hw : x.length = w) :
    ((p ++ (x ++ q)).drop o).take w = x := by
  rw [List.drop_left' ho, List.take_left' hw]

@[simp] theorem Header.length_encode (h : Header) : h.encode.length = headerLen := by
  simp [Header.encode, beBytes, magic, headerLen]

/-- The header is read back from the front of a file. -/
theorem Header.decode_encode {h : Header} (hv : h.formatVersion = LocalFormat.formatVersion)
    (hf : h.flags < 256 ^ 2) (hn : h.pageCount < 256 ^ 8) (hd : h.directoryOffset < 256 ^ 8)
    (hin : headerLen ≤ h.directoryOffset) (rest : Bytes) :
    Header.decode (h.encode ++ rest) = .ok h := by
  have hps : h.pageSize.val < 256 ^ 4 := by
    have := h.pageSize.max
    unfold maxPageSize at this
    omega
  -- the fields one by one, each behind what stands before it
  have hmagic : (h.encode ++ rest).take 8 = magic := by
    simp [Header.encode, List.take_append, magic]
  have hversion : ((h.encode ++ rest).drop 8).take 2 = beBytes 2 LocalFormat.formatVersion := by
    simpa [Header.encode, List.append_assoc] using field_eq (p := magic)
      (x := beBytes 2 LocalFormat.formatVersion) (o := 8) (w := 2) rfl rfl
  have hflags : ((h.encode ++ rest).drop 10).take 2 = leBytes 2 h.flags := by
    simpa [Header.encode, List.append_assoc] using field_eq
      (p := magic ++ beBytes 2 LocalFormat.formatVersion) (x := leBytes 2 h.flags) (o := 10) (w := 2)
      rfl rfl
  have hpage : ((h.encode ++ rest).drop 12).take 4 = leBytes 4 h.pageSize.val := by
    simpa [Header.encode, List.append_assoc] using field_eq
      (p := magic ++ (beBytes 2 LocalFormat.formatVersion ++ leBytes 2 h.flags))
      (x := leBytes 4 h.pageSize.val) (o := 12) (w := 4) rfl rfl
  have hcount : ((h.encode ++ rest).drop 16).take 8 = leBytes 8 h.pageCount := by
    simpa [Header.encode, List.append_assoc] using field_eq
      (p := magic ++ (beBytes 2 LocalFormat.formatVersion ++ (leBytes 2 h.flags ++
        leBytes 4 h.pageSize.val))) (x := leBytes 8 h.pageCount) (o := 16) (w := 8) rfl rfl
  have hdir : ((h.encode ++ rest).drop 24).take 8 = leBytes 8 h.directoryOffset := by
    simpa [Header.encode, List.append_assoc] using field_eq
      (p := magic ++ (beBytes 2 LocalFormat.formatVersion ++ (leBytes 2 h.flags ++
        (leBytes 4 h.pageSize.val ++ leBytes 8 h.pageCount))))
      (x := leBytes 8 h.directoryOffset) (o := 24) (w := 8) rfl rfl
  have hlen : ¬ (h.encode ++ rest).length < headerLen := by simp
  have hbe : ofBeBytes (beBytes 2 LocalFormat.formatVersion) = LocalFormat.formatVersion := by decide
  unfold Header.decode
  rw [if_neg hlen, hmagic, if_neg (by simp)]
  simp only [hversion, hflags, hpage, hcount, hdir, hbe, ofLeBytes_leBytes hf, ofLeBytes_leBytes hps,
    ofLeBytes_leBytes hn, ofLeBytes_leBytes hd, ne_eq, not_true_eq_false, if_false,
    h.pageSize.min, h.pageSize.max, and_self, dif_pos, Nat.not_lt.mpr hin]
  cases h
  simp_all

theorem uniform_entries (es : List (Nat × Nat)) :
    Uniform dirEntryLen (es.map fun e => leBytes 8 e.1 ++ leBytes 4 e.2) := by
  intro b hb
  obtain ⟨e, -, rfl⟩ := List.mem_map.mp hb
  simp [dirEntryLen]

theorem length_encodeDirectory (es : List (Nat × Nat)) :
    (encodeDirectory es).length = es.length * dirEntryLen := by
  rw [encodeDirectory, length_flatten_of_uniform (uniform_entries es), List.length_map]

/-- The directory is read back entry by entry. -/
theorem decodeDirectory_encodeDirectory {es : List (Nat × Nat)}
    (hes : ∀ e ∈ es, e.1 < 256 ^ 8 ∧ e.2 < 256 ^ 4) (hlen : es.length * dirEntryLen < 2 ^ 64) :
    decodeDirectory (encodeDirectory es) es.length = .ok es := by
  unfold decodeDirectory
  rw [if_neg (by omega), if_neg (by rw [length_encodeDirectory]; omega)]
  congr 1
  apply List.ext_getElem (by simp)
  intro i hi hi'
  have hblock : block dirEntryLen i (encodeDirectory es) = leBytes 8 es[i].1 ++ leBytes 4 es[i].2 := by
    rw [encodeDirectory, block_flatten (uniform_entries es) (by simpa using hi'), List.getElem_map]
  obtain ⟨h8, h4⟩ := hes es[i] (List.getElem_mem hi')
  simp only [List.getElem_map, List.getElem_range, hblock]
  rw [List.take_left' (length_leBytes ..), List.drop_left' (length_leBytes ..),
    ofLeBytes_leBytes h8, ofLeBytes_leBytes h4]

/-! ### Pages and files read back -/

/-- Compression and encryption invert. -/
structure PageCodec.Inverts (c : PageCodec) : Prop where
  decompress_compress : ∀ page, c.codecs.decompress none (c.codecs.compress none page) = some page
  decrypt_encrypt : ∀ key, c.key = some key → ∀ payload,
    c.codecs.decrypt key [] (c.codecs.encrypt key [] payload) = some payload

section

variable {c : PageCodec}

theorem PageCodec.maybeDecrypt_maybeEncrypt (hc : c.Inverts) (payload : Bytes) :
    c.maybeDecrypt (c.maybeEncrypt payload) = .ok payload := by
  unfold maybeDecrypt maybeEncrypt
  cases hkey : c.key with
  | none => rfl
  | some key => simp only [hc.decrypt_encrypt key hkey payload]

theorem PageCodec.encodePage_ne_nil (page : Bytes) : c.encodePage page ≠ [] := by
  simp [encodePage]

/-- A page is stored as it is, or compressed. -/
theorem PageCodec.compressPage_cases (page : Bytes) :
    c.compressPage page = (codecRaw, page) ∨
      c.compressPage page = (codecZstd, c.codecs.compress none page) := by
  unfold compressPage
  dsimp only
  split_ifs
  · exact .inr rfl
  · exact .inl rfl
  · exact .inl rfl

/-- Decoding an encoded page only looks at its length. -/
theorem PageCodec.decodePage_encodePage (hc : c.Inverts) (page : Bytes) (maxPage : Nat) :
    if page.length = maxPage then c.decodePage (c.encodePage page) maxPage = .ok page
    else ∃ e, c.decodePage (c.encodePage page) maxPage = .error e := by
  have hraw : codecZstd ≠ codecRaw := by decide
  cases c.compressPage_cases page with
  | inl h =>
    simp only [encodePage, h, decodePage, maybeDecrypt_maybeEncrypt hc, ok_bind, if_true, ne_eq]
    split_ifs <;> simp
  | inr h =>
    simp only [encodePage, h, decodePage, maybeDecrypt_maybeEncrypt hc, ok_bind, if_neg hraw, if_true,
      ne_eq, decompressZstd, CodecConfig.decompressCapped, hc.decompress_compress]
    split_ifs with hlen hcap
    · simp [hlen]
    · omega
    · simp [hlen]
    · simp

/-- The loop of `persist`: the blobs one after the other, and their extents. -/
theorem pushPage_inv {chunks : List Bytes} {acc out : Bytes × List (Nat × Nat)}
    (h : chunks.foldlM (pushPage c) acc = .ok out) :
    out.1 = acc.1 ++ (chunks.map c.encodePage).flatten ∧
      out.2 = acc.2 ++ extents (headerLen + acc.1.length) (chunks.map c.encodePage) ∧
      ∀ b ∈ chunks.map c.encodePage, b.length < 2 ^ 32 := by
  induction chunks generalizing acc with
  | nil =>
    cases h
    simp [extents]
  | cons chunk chunks ih =>
    rw [List.foldlM_cons, bind_eq_ok] at h
    obtain ⟨next, hnext, hrest⟩ := h
    simp only [pushPage] at hnext
    split at hnext
    · cases hnext
    · rename_i hfits
      cases hnext
      obtain ⟨h1, h2, h3⟩ := ih hrest
      refine ⟨by simp [h1], ?_, ?_⟩
      · simp [h2, extents, Nat.add_assoc]
      · intro b hb
        cases List.mem_cons.mp hb with
        | inl h => rw [h]; omega
        | inr h => exact h3 b h

/-- The header `persist` writes in front of these blobs. -/
def headerOf (c : PageCodec) (ps : PageSize) (blobs : List Bytes) : Header where
  formatVersion := formatVersion
  flags := c.headerFlags
  pageSize := ps
  pageCount := blobs.length
  directoryOffset := headerLen + blobs.flatten.length

/-- A file is header, blobs and directory, and fits a vector. -/
theorem fileBytes_inv {ps : PageSize} {image bytes : Bytes} (h : fileBytes c ps image = .ok bytes) :
    let blobs := (blocks ps.val image).map c.encodePage
    bytes = (headerOf c ps blobs).encode ++ blobs.flatten ++ encodeDirectory (extents headerLen blobs) ∧
      (∀ b ∈ blobs, b.length < 2 ^ 32) ∧ bytes.length ≤ maxVecLen := by
  intro blobs
  unfold fileBytes at h
  rw [bind_eq_ok] at h
  obtain ⟨⟨data, directory⟩, hfold, h⟩ := h
  obtain ⟨hdata, hdir, hfits⟩ := pushPage_inv hfold
  simp only [List.nil_append, List.length_nil, Nat.add_zero] at hdata hdir
  subst hdata hdir
  simp only [length_extents] at h
  split at h
  · cases h
  · rename_i hle
    cases h
    exact ⟨rfl, hfits, Nat.not_lt.mp hle⟩

/-- The entries of the directory pass the range checks and cut the blobs out of the file. -/
theorem map_decodeEntry {head tail bytes : Bytes} {blobs : List Bytes} (maxPage : Nat)
    (hbytes : bytes = head ++ blobs.flatten ++ tail) (hhead : head.length = headerLen)
    (hvec : bytes.length < 2 ^ 63) :
    (extents headerLen blobs).map (decodeEntry c bytes (headerLen + blobs.flatten.length) maxPage) =
      blobs.map fun b => c.decodePage b maxPage := by
  have hcut : (extents headerLen blobs).map (cut bytes) = blobs := by
    rw [hbytes, ← hhead]
    exact map_cut_extents head blobs tail
  have hlen : bytes.length = headerLen + blobs.flatten.length + tail.length := by
    rw [hbytes, List.length_append, List.length_append, hhead]
  calc (extents headerLen blobs).map (decodeEntry c bytes (headerLen + blobs.flatten.length) maxPage)
      = (extents headerLen blobs).map fun e => c.decodePage (cut bytes e) maxPage := by
        apply List.map_congr_left
        intro ⟨start, len⟩ he
        have hin := bounds_of_mem he
        simp only [decodeEntry]
        rw [if_neg (by omega), if_neg (by omega)]
    _ = ((extents headerLen blobs).map (cut bytes)).map fun b => c.decodePage b maxPage := by
        rw [List.map_map, Function.comp_def]
    _ = blobs.map fun b => c.decodePage b maxPage := by rw [hcut]

/-- Decoding a written file decodes the blob of every page. -/
theorem decodeFile_eq {ps : PageSize} {image bytes : Bytes} (h : fileBytes c ps image = .ok bytes) :
    decodeFile bytes c = ((blocks ps.val image).mapM fun chunk =>
      c.decodePage (c.encodePage chunk) ps.val) >>= fun pages => .ok (pages.flatten, ps) := by
  obtain ⟨hbytes, hfits, hvec⟩ := fileBytes_inv h
  generalize hblobs : (blocks ps.val image).map c.encodePage = blobs at hbytes hfits
  have hlen : bytes.length = headerLen + blobs.flatten.length + blobs.length * dirEntryLen := by
    rw [hbytes, List.length_append, List.length_append, length_encodeDirectory, length_extents,
      Header.length_encode]
  have hvec' : bytes.length < 2 ^ 63 := by
    unfold maxVecLen at hvec
    omega
  have hbounds := hlen ▸ hvec'
  simp only [headerLen, dirEntryLen] at hbounds
  -- every blob has its tag byte, so the page count passes the capacity check
  have hdata : blobs.length ≤ blobs.flatten.length := by
    apply length_le_flatten
    intro b hb
    rw [← hblobs] at hb
    obtain ⟨chunk, -, rfl⟩ := List.mem_map.mp hb
    exact c.encodePage_ne_nil chunk
  have hcapacity : ¬ bytes.length / (1 + dirEntryLen) < blobs.length := by
    rw [hlen]
    unfold dirEntryLen
    omega
  have hheader : Header.decode bytes = .ok (headerOf c ps blobs) := by
    rw [hbytes, List.append_assoc]
    have hflags : c.headerFlags < 256 ^ 2 := by
      unfold PageCodec.headerFlags flagEncrypted
      split <;> decide
    have hoffset : (headerOf c ps blobs).directoryOffset < 256 ^ 8 := by
      simp only [headerOf, headerLen]
      omega
    have hcount : (headerOf c ps blobs).pageCount < 256 ^ 8 := by
      simp only [headerOf]
      omega
    exact Header.decode_encode rfl hflags hcount hoffset (Nat.le_add_right _ _) _
  have hflag : (c.headerFlags &&& flagEncrypted ≠ 0) ↔ c.key.isSome = true := by
    unfold PageCodec.headerFlags
    cases c.key.isSome <;> decide
  have hdirectory : decodeDirectory (bytes.drop (headerLen + blobs.flatten.length)) blobs.length =
      .ok (extents headerLen blobs) := by
    have hdrop : bytes.drop (headerLen + blobs.flatten.length) =
        encodeDirectory (extents headerLen blobs) := by
      rw [hbytes]
      exact List.drop_left' (by simp)
    have hes : ∀ e ∈ extents headerLen blobs, e.1 < 256 ^ 8 ∧ e.2 < 256 ^ 4 := by
      intro e he
      have hin := bounds_of_mem he
      obtain ⟨b, hb, hbl⟩ := length_of_mem he
      have := hfits b hb
      unfold headerLen at hin
      omega
    have hread := decodeDirectory_encodeDirectory hes (by
      rw [length_extents]
      unfold dirEntryLen
      omega)
    rwa [length_extents, ← hdrop] at hread
  have hentries := map_decodeEntry (c := c) ps.val hbytes (Header.length_encode _) hvec'
  have hpages : (extents headerLen blobs).mapM
      (decodeEntry c bytes (headerLen + blobs.flatten.length) ps.val) =
      (blocks ps.val image).mapM fun chunk => c.decodePage (c.encodePage chunk) ps.val := by
    apply mapM_congr
    rw [hentries, ← hblobs, List.map_map, Function.comp_def]
  have hkey : ¬ (c.key.isSome = true ∧ c.key.isNone = true) := by cases c.key <;> simp
  unfold decodeFile
  rw [hheader]
  simp only [ok_bind, headerOf, hflag]
  rw [if_neg hkey, if_neg (by simp), if_neg (by omega), if_neg hcapacity, if_neg (by omega),
    hdirectory, ok_bind, hpages]

/-- A written file is read back when the image is a whole number of pages, and refused otherwise. -/
theorem decodeFile_fileBytes (hc : c.Inverts) {ps : PageSize} {image bytes : Bytes}
    (h : fileBytes c ps image = .ok bytes) :
    if ps.val ∣ image.length then decodeFile bytes c = .ok (image, ps)
    else ∃ e, decodeFile bytes c = .error e := by
  have hps : 0 < ps.val := by
    have := ps.min
    unfold minPageSize at this
    omega
  have hpage := fun chunk => c.decodePage_encodePage hc chunk ps.val
  rw [decodeFile_eq h]
  split_ifs with hdvd
  · have hfull := (uniform_blocks_iff hps).mpr hdvd
    have hpages : (blocks ps.val image).mapM (fun chunk =>
        c.decodePage (c.encodePage chunk) ps.val) = .ok (blocks ps.val image) := by
      rw [mapM_eq_ok]
      apply List.map_congr_left
      intro chunk hchunk
      simpa only [hfull chunk hchunk, if_true] using hpage chunk
    rw [hpages, ok_bind, flatten_blocks hps]
  · -- a chunk that is not full stops the loop
    obtain ⟨chunk, hchunk, hshort⟩ : ∃ chunk ∈ blocks ps.val image, chunk.length ≠ ps.val := by
      by_contra hall
      push Not at hall
      exact hdvd ((uniform_blocks_iff hps).mp hall)
    cases hpages : (blocks ps.val image).mapM (fun chunk =>
        c.decodePage (c.encodePage chunk) ps.val) with
    | error e => exact ⟨e, rfl⟩
    | ok pages =>
      obtain ⟨i, hi⟩ := List.getElem?_of_mem hchunk
      obtain ⟨page, -, hdecoded⟩ := mapM_getElem? hpages hi
      have herr := hpage chunk
      rw [if_neg hshort, hdecoded] at herr
      obtain ⟨e, he⟩ := herr
      cases he

end

end LocalFormat

end Turbolite
