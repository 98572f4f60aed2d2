import Turbolite.LocalFormat
import Turbolite.Lib.Checked

/-!
# Turbolite.LocalDecoder

The decoder of whole `TLLOCAL1` files, operation by operation (`local/file_format.rs`, `decode_file` of
`local/mod.rs`): every slice, every sum and product of words and every `unwrap` is a step that can panic.
On a slice none of them does (`decodeFileSteps_eq`), so the decoder is the total function of
`LocalFormat`, and an image it returns consists of the pages the header counts, each decoded from a blob
between the header and the directory. The cipher and the decompressor are any functions. Memory is not
bounded here: a vector that grows always gets its bytes.
-/

namespace Turbolite

open Blocks Checked Extents Results

namespace LocalFormat

/-- A byte slice: never longer than `isize::MAX`. -/
structure Slice where
  bytes : Bytes
  fits : bytes.length ≤ maxVecLen

theorem Slice.length_lt (s : Slice) : s.bytes.length < 2 ^ 63 :=
  Nat.lt_of_le_of_lt s.fits (by decide)

/-! ### The steps -/

/-- `buf[start..stop]`. -/
def field (buf : Bytes) (start stop : Nat) : IoResult Bytes := orFail .panic (slice? buf start stop)

/-- `Header::decode`. -/
def Header.decodeSteps (buf : Bytes) : IoResult Header :=
  if buf.length < headerLen then .error (.io .unexpectedEof "local db header truncated")
  else do
    let start ← field buf 0 8
    if start ≠ magic then .error (.io .invalidData "not a TLLOCAL1 file (bad magic)")
    else do
      let version ← (field buf 8 10).map ofBeBytes
      if version ≠ LocalFormat.formatVersion then
        .error (.io .invalidData s!"unsupported TLLOCAL1 version {version}")
      else do
        let pageSize ← (field buf 12 16).map ofLeBytes
        if hps : minPageSize ≤ pageSize ∧ pageSize ≤ maxPageSize then do
          let directoryOffset ← (field buf 24 32).map ofLeBytes
          if directoryOffset < headerLen then
            .error (.io .invalidData "TLLOCAL1 directory_offset inside header")
          else do
            let flags ← (field buf 10 12).map ofLeBytes
            let pageCount ← (field buf 16 24).map ofLeBytes
            .ok
              { formatVersion := version
                flags := flags
                pageSize := ⟨pageSize, hps.1, hps.2⟩
                pageCount := pageCount
                directoryOffset := directoryOffset }
        else .error (.io .invalidData s!"TLLOCAL1 page_size {pageSize} out of range")

/-- `decode_page`. -/
def PageCodec.decodePageSteps (c : PageCodec) (blob : Bytes) (maxPage : Nat) : IoResult Bytes :=
  if blob = [] then .error (.io .invalidData "empty page blob")
  else do
    let tag ← orFail .panic blob.head?
    let rest ← field blob 1 blob.length
    let payload ← c.maybeDecrypt rest
    if tag = codecRaw then
      if payload.length ≠ maxPage then .error (.io .invalidData
        s!"raw page length {payload.length} does not match expected page size {maxPage}")
      else .ok payload
    else if tag = codecZstd then do
      let decompressed ← c.decompressZstd payload maxPage
      if decompressed.length ≠ maxPage then .error (.io .invalidData
        s!"decompressed page length {decompressed.length} does not match expected page size {maxPage}")
      else .ok decompressed
    else .error (.io .invalidData s!"unknown page codec tag {tag}")

/-- One turn of the loop of `decode_directory`. -/
def dirEntrySteps (bytes : Bytes) (i : Nat) : IoResult (Nat × Nat) := do
  let base ← orFail .panic (mul? 64 i dirEntryLen)
  let mid ← orFail .panic (add? 64 base 8)
  let offset ← (field bytes base mid).map ofLeBytes
  let stop ← orFail .panic (add? 64 base 12)
  let len ← (field bytes mid stop).map ofLeBytes
  .ok (offset, len)

/-- `decode_directory`. -/
def decodeDirectorySteps (bytes : Bytes) (count : Nat) : IoResult (List (Nat × Nat)) := do
  let needed ← orFail (.io .invalidData "directory size overflow") (mul? 64 count dirEntryLen)
  if bytes.length < needed then .error (.io .unexpectedEof "page directory truncated")
  else (List.range count).mapM (dirEntrySteps bytes)

/-- One turn of the loop of `decode_file`. -/
def decodeEntrySteps (c : PageCodec) (bytes : Bytes) (dirOff maxPage : Nat) (entry : Nat × Nat) :
    IoResult Bytes := do
  let (start, len) := entry
  let stop ← orFail (.io .invalidData "page extent overflow") (add? 64 start len)
  if start < headerLen ∨ dirOff < stop then
    .error (.io .invalidData "page blob outside data region")
  else do
    let blob ← field bytes start stop
    c.decodePageSteps blob maxPage

/-- `decode_file`. The product of the exact-tail check is not a checked one. -/
def decodeFileSteps (bytes : Bytes) (c : PageCodec) : IoResult (Bytes × PageSize) := do
  let header ← Header.decodeSteps bytes
  let fileEncrypted := header.flags &&& flagEncrypted ≠ 0
  if fileEncrypted ∧ c.key.isNone then
    .error (.io .invalidData "database is encrypted but no key was supplied")
  else if ¬ fileEncrypted ∧ c.key.isSome then
    .error (.io .invalidData "key supplied but database is not encrypted")
  else
    let dirOff := header.directoryOffset
    if bytes.length < dirOff then
      .error (.io .invalidData "directory offset past end of file")
    else if bytes.length / (1 + dirEntryLen) < header.pageCount then
      .error (.io .invalidData "page_count exceeds file capacity")
    else do
      let dirLen ← orFail .panic (mul? 64 header.pageCount dirEntryLen)
      if add? 64 dirOff dirLen ≠ some bytes.length then
        .error (.io .invalidData "directory length inconsistent with file size")
      else do
        let tail ← field bytes dirOff bytes.length
        let directory ← decodeDirectorySteps tail header.pageCount
        let pages ← directory.mapM (decodeEntrySteps c bytes dirOff header.pageSize.val)
        .ok (pages.flatten, header.pageSize)

/-! ### The steps compute the decoder -/

section Refinement

variable {c : PageCodec} {bytes : Bytes}

/-- The `n` bytes from `start` on. -/
theorem field_at (bytes : Bytes) (start n : Nat) (h : start + n ≤ bytes.length) :
    field bytes start (start + n) = .ok ((bytes.drop start).take n) := by
  rw [field, slice?_add h]
  rfl

/-- A field of the header, once the length is checked. -/
theorem headerField {α : Type} {f : Bytes → α} (start n : Nat) (h : ¬ bytes.length < headerLen)
    (hin : start + n ≤ headerLen) :
    (field bytes start (start + n)).map f = .ok (f ((bytes.drop start).take n)) := by
  rw [field_at _ _ _ (by omega)]
  rfl

theorem Header.decodeSteps_eq (buf : Bytes) : decodeSteps buf = decode buf := by
  unfold decodeSteps decode
  split
  · rfl
  · rename_i hlen
    have hmagic : field buf 0 8 = .ok (buf.take 8) := field_at buf 0 8 (by
      unfold headerLen at hlen
      omega)
    have hversion := headerField (f := ofBeBytes) 8 2 hlen (by decide)
    have hflags := headerField (f := ofLeBytes) 10 2 hlen (by decide)
    have hsize := headerField (f := ofLeBytes) 12 4 hlen (by decide)
    have hcount := headerField (f := ofLeBytes) 16 8 hlen (by decide)
    have hdir := headerField (f := ofLeBytes) 24 8 hlen (by decide)
    simp only [Nat.reduceAdd] at hversion hflags hsize hcount hdir
    rw [hmagic, ok_bind]
    split
    · rfl
    · rw [hversion, ok_bind]
      dsimp only
      split
      · rfl
      · rw [hsize, ok_bind]
        split
        · rw [hdir, ok_bind, hflags, ok_bind, hcount, ok_bind]
        · rfl

theorem PageCodec.decodePageSteps_eq (c : PageCodec) (blob : Bytes) (maxPage : Nat) :
    c.decodePageSteps blob maxPage = c.decodePage blob maxPage := by
  cases blob with
  | nil => rfl
  | cons tag rest =>
    have hrest : field (tag :: rest) 1 (tag :: rest).length = .ok rest := by
      have h := field_at (tag :: rest) 1 rest.length (by rw [List.length_cons, Nat.add_comm])
      rw [Nat.add_comm, List.drop_succ_cons, List.drop_zero, List.take_length] at h
      exact h
    unfold decodePageSteps
    rw [if_neg (List.cons_ne_nil _ _), hrest]
    rfl

theorem dirEntrySteps_eq {count i : Nat} (hword : bytes.length < 2 ^ 63)
    (hlen : count * dirEntryLen ≤ bytes.length) (hi : i < count) :
    dirEntrySteps bytes i = .ok (ofLeBytes ((block dirEntryLen i bytes).take 8),
      ofLeBytes ((block dirEntryLen i bytes).drop 8)) := by
  have hturn : i * dirEntryLen + 12 ≤ bytes.length :=
    le_trans (Nat.succ_mul i dirEntryLen ▸ Nat.mul_le_mul_right dirEntryLen hi) hlen
  have hoffset : (bytes.drop (i * dirEntryLen)).take 8 = (block dirEntryLen i bytes).take 8 := by
    rw [block, List.take_take]
    rfl
  have hsize : (bytes.drop (i * dirEntryLen + 8)).take 4 = (block dirEntryLen i bytes).drop 8 := by
    rw [block, List.drop_take, List.drop_drop]
    rfl
  have hfirst : field bytes (i * dirEntryLen) (i * dirEntryLen + 8) = .ok _ := field_at _ _ _ (by omega)
  have hlast : field bytes (i * dirEntryLen + 8) (i * dirEntryLen + 12) = .ok _ :=
    field_at bytes (i * dirEntryLen + 8) 4 (by omega)
  rw [dirEntrySteps, mul?_of_lt (by omega), orFail_some, ok_bind, add?_of_lt (by omega), orFail_some,
    ok_bind, hfirst, add?_of_lt (by omega), orFail_some, Except.map, ok_bind, ok_bind, hlast, hoffset,
    hsize]
  rfl

theorem decodeDirectorySteps_eq (hword : bytes.length < 2 ^ 63) (count : Nat) :
    decodeDirectorySteps bytes count = decodeDirectory bytes count := by
  unfold decodeDirectorySteps decodeDirectory
  split
  · rename_i hover
    rw [mul?, if_neg (Nat.not_lt.mpr hover)]
    rfl
  · rename_i hfits
    rw [mul?_of_lt (Nat.lt_of_not_le hfits), orFail_some, ok_bind]
    split
    · rfl
    · rename_i hlen
      refine mapM_eq_ok.mpr ?_
      rw [List.map_map]
      refine List.map_congr_left fun i hi => ?_
      exact dirEntrySteps_eq hword (Nat.le_of_not_lt hlen) (List.mem_range.mp hi)

theorem decodeEntrySteps_eq {dirOff : Nat} (hdir : dirOff ≤ bytes.length) (maxPage : Nat)
    (entry : Nat × Nat) :
    decodeEntrySteps c bytes dirOff maxPage entry = decodeEntry c bytes dirOff maxPage entry := by
  obtain ⟨start, len⟩ := entry
  unfold decodeEntrySteps decodeEntry
  dsimp only
  split
  · rename_i hover
    rw [add?, if_neg (Nat.not_lt.mpr hover)]
    rfl
  · rename_i hfits
    rw [add?_of_lt (Nat.lt_of_not_le hfits), orFail_some, ok_bind]
    split
    · rfl
    · rename_i hin
      rw [field_at _ _ _ (by omega), ok_bind, PageCodec.decodePageSteps_eq]
      rfl

/-- No step panics on a slice: each check comes before the use it protects. -/
theorem decodeFileSteps_eq (s : Slice) (c : PageCodec) :
    decodeFileSteps s.bytes c = decodeFile s.bytes c := by
  have hword := s.length_lt
  unfold decodeFileSteps decodeFile
  rw [Header.decodeSteps_eq]
  cases Header.decode s.bytes with
  | error e => rfl
  | ok header =>
    rw [ok_bind, ok_bind]
    dsimp only
    split
    · rfl
    · split
      · rfl
      · split
        · rfl
        · rename_i hdir
          split
          · rfl
          · rename_i hcount
            have hproduct : header.pageCount * dirEntryLen ≤ s.bytes.length := by
              unfold dirEntryLen at hcount ⊢
              omega
            rw [mul?_of_lt (by omega), orFail_some, ok_bind, add?_of_lt (by omega)]
            by_cases hexact : header.directoryOffset + header.pageCount * dirEntryLen = s.bytes.length
            · rw [if_neg (not_not.mpr (congrArg some hexact)), if_neg (not_not.mpr hexact)]
              have htail := field_at s.bytes header.directoryOffset
                (s.bytes.length - header.directoryOffset) (by omega)
              rw [Nat.add_sub_cancel' (Nat.le_of_not_lt hdir),
                List.take_of_length_le (by rw [List.length_drop])] at htail
              rw [htail, ok_bind, decodeDirectorySteps_eq (by rw [List.length_drop]; omega)]
              refine congrArg _ (funext fun directory => ?_)
              rw [mapM_congr (List.map_congr_left fun entry _ =>
                decodeEntrySteps_eq (Nat.le_of_not_lt hdir) _ entry)]
            · rw [if_pos fun h => hexact (Option.some.inj h), if_pos hexact]

end Refinement

/-! ### What a decoded file is -/

section Exact

variable {c : PageCodec} {bytes image : Bytes} {ps : PageSize}

/-- The flags of a file, as they stand in its bytes. -/
def flagsField (bytes : Bytes) : Nat := ofLeBytes ((bytes.drop 10).take 2)

/-- An image: as many blobs as the header counts pages, each of them between the header and the
directory, and each decoded to one page. -/
structure Layout (c : PageCodec) (bytes image : Bytes) (ps : PageSize) (header : Header)
    (directory : List (Nat × Nat)) (pages : List Bytes) : Prop where
  decoded : Header.decode bytes = .ok header
  pageSize : ps = header.pageSize
  inFile : header.directoryOffset ≤ bytes.length
  count : directory.length = header.pageCount
  region : ∀ e ∈ directory, headerLen ≤ e.1 ∧ e.1 + e.2 ≤ header.directoryOffset
  blobs : directory.mapM (fun e => c.decodePage (cut bytes e) ps.val) = .ok pages
  joined : image = pages.flatten
  length : image.length = header.pageCount * ps.val

/-- The image is what a file laid out by the format decodes to. -/
def DecodedFrom (c : PageCodec) (bytes image : Bytes) (ps : PageSize) : Prop :=
  ∃ header directory pages, Layout c bytes image ps header directory pages

/-- An error other than a panic, or an image; and an error where the flags and the key disagree. -/
structure Exact (c : PageCodec) (bytes : Bytes) (result : IoResult (Bytes × PageSize)) : Prop where
  noPanic : result ≠ .error .panic
  image : ∀ image ps, result = .ok (image, ps) → DecodedFrom c bytes image ps
  keyed : ¬ (flagsField bytes &&& flagEncrypted ≠ 0 ↔ c.key.isSome = true) → ∃ e, result = .error e

theorem Header.decode_ne_panic : Header.decode bytes ≠ .error .panic := by
  unfold decode
  dsimp only
  split
  · rintro ⟨⟩
  · split
    · rintro ⟨⟩
    · split
      · rintro ⟨⟩
      · split
        · split <;> rintro ⟨⟩
        · rintro ⟨⟩

theorem Header.flags_of_decode {header : Header} (h : Header.decode bytes = .ok header) :
    header.flags = flagsField bytes := by
  unfold decode at h
  dsimp only at h
  split at h
  · cases h
  · split at h
    · cases h
    · split at h
      · cases h
      · split at h
        · split at h
          · cases h
          · cases h
            rfl
        · cases h

theorem PageCodec.maybeDecrypt_ne_panic {payload : Bytes} : c.maybeDecrypt payload ≠ .error .panic := by
  unfold maybeDecrypt
  split
  · split <;> nofun
  · nofun

theorem PageCodec.decompressZstd_ne_panic {payload : Bytes} {maxPage : Nat} :
    c.decompressZstd payload maxPage ≠ .error .panic := by
  unfold decompressZstd CodecConfig.decompressCapped
  split
  · nofun
  · split <;> nofun

theorem PageCodec.decodePage_ne_panic {blob : Bytes} {maxPage : Nat} :
    c.decodePage blob maxPage ≠ .error .panic := by
  cases blob with
  | nil => nofun
  | cons tag rest =>
    refine bind_ne_error maybeDecrypt_ne_panic fun payload _ => ?_
    split
    · split <;> nofun
    · split
      · refine bind_ne_error decompressZstd_ne_panic fun decompressed _ => ?_
        split <;> nofun
      · nofun

/-- A page is as long as it has to be, or an error. -/
theorem PageCodec.length_of_decodePage {blob page : Bytes} {maxPage : Nat}
    (h : c.decodePage blob maxPage = .ok page) : page.length = maxPage := by
  cases blob with
  | nil => cases h
  | cons tag rest =>
    obtain ⟨payload, -, h⟩ := bind_eq_ok.mp h
    split at h
    · split at h
      · cases h
      · rename_i hlen
        cases h
        exact not_not.mp hlen
    · split at h
      · obtain ⟨decompressed, -, h⟩ := bind_eq_ok.mp h
        split at h
        · cases h
        · rename_i hlen
          cases h
          exact not_not.mp hlen
      · cases h

theorem decodeDirectory_ne_panic {count : Nat} : decodeDirectory bytes count ≠ .error .panic := by
  unfold decodeDirectory
  split
  · nofun
  · split <;> nofun

theorem length_of_decodeDirectory {count : Nat} {directory : List (Nat × Nat)}
    (h : decodeDirectory bytes count = .ok directory) : directory.length = count := by
  unfold decodeDirectory at h
  split at h
  · cases h
  · split at h
    · cases h
    · cases h
      rw [List.length_map, List.length_range]

theorem decodeEntry_ne_panic {dirOff maxPage : Nat} {entry : Nat × Nat} :
    decodeEntry c bytes dirOff maxPage entry ≠ .error .panic := by
  unfold decodeEntry
  dsimp only
  split
  · nofun
  · split
    · nofun
    · exact PageCodec.decodePage_ne_panic

/-- An entry that is decoded lies in the data region. -/
theorem decodeEntry_inv {dirOff maxPage : Nat} {entry : Nat × Nat} {page : Bytes}
    (h : decodeEntry c bytes dirOff maxPage entry = .ok page) :
    (headerLen ≤ entry.1 ∧ entry.1 + entry.2 ≤ dirOff) ∧ c.decodePage (cut bytes entry) maxPage = .ok page := by
  unfold decodeEntry at h
  dsimp only at h
  split at h
  · cases h
  · split at h
    · cases h
    · rename_i hin
      rw [not_or, Nat.not_lt, Nat.not_lt] at hin
      exact ⟨hin, h⟩

theorem decodeFile_ne_panic : decodeFile bytes c ≠ .error .panic := by
  refine bind_ne_error Header.decode_ne_panic fun header _ => ?_
  dsimp only
  split
  · nofun
  · split
    · nofun
    · split
      · nofun
      · split
        · nofun
        · split
          · nofun
          · refine bind_ne_error decodeDirectory_ne_panic fun directory _ => ?_
            exact bind_ne_error (mapM_ne_error fun _ _ => decodeEntry_ne_panic) fun _ _ => nofun

/-- What a file that is decoded went through. -/
theorem decodeFile_inv (h : decodeFile bytes c = .ok (image, ps)) :
    ∃ header directory pages, Header.decode bytes = .ok header ∧ ps = header.pageSize ∧
      (header.flags &&& flagEncrypted ≠ 0 ↔ c.key.isSome = true) ∧
      header.directoryOffset ≤ bytes.length ∧
      decodeDirectory (bytes.drop header.directoryOffset) header.pageCount = .ok directory ∧
      directory.mapM (decodeEntry c bytes header.directoryOffset ps.val) = .ok pages ∧
      image = pages.flatten := by
  obtain ⟨header, hheader, h⟩ := bind_eq_ok.mp h
  dsimp only at h
  split at h
  · cases h
  · rename_i hplain
    split at h
    · cases h
    · rename_i hkeyed
      split at h
      · cases h
      · rename_i hdir
        split at h
        · cases h
        · split at h
          · cases h
          · obtain ⟨directory, hdirectory, h⟩ := bind_eq_ok.mp h
            obtain ⟨pages, hpages, h⟩ := bind_eq_ok.mp h
            cases h
            refine ⟨header, directory, pages, hheader, rfl, ⟨fun hflag => ?_, fun hkey => ?_⟩,
              Nat.le_of_not_lt hdir, hdirectory, hpages, rfl⟩
            · cases hkey : c.key with
              | none => exact absurd ⟨hflag, by rw [hkey]; rfl⟩ hplain
              | some key => rfl
            · exact not_not.mp fun hflag => hkeyed ⟨hflag, hkey⟩

theorem decodedFrom_of_decodeFile (h : decodeFile bytes c = .ok (image, ps)) :
    DecodedFrom c bytes image ps := by
  obtain ⟨header, directory, pages, hheader, hps, -, hdir, hdirectory, hpages, rfl⟩ := decodeFile_inv h
  have hentries : ∀ e ∈ directory, headerLen ≤ e.1 ∧ e.1 + e.2 ≤ header.directoryOffset := by
    intro e he
    obtain ⟨page, -, hpage⟩ := ok_of_mapM hpages he
    exact (decodeEntry_inv hpage).1
  have hdecoded : directory.mapM (fun e => c.decodePage (cut bytes e) ps.val) = .ok pages := by
    exact mapM_mono (fun e page he => (decodeEntry_inv he).2) hpages
  have huniform : Uniform ps.val pages := by
    intro page hpage
    obtain ⟨e, -, he⟩ := mapM_inv hdecoded page hpage
    exact PageCodec.length_of_decodePage he
  have hcount := length_of_decodeDirectory hdirectory
  refine ⟨header, directory, pages, hheader, hps, hdir, hcount, hentries, hdecoded, rfl, ?_⟩
  rw [length_flatten_of_uniform huniform, length_of_mapM hpages, hcount]

/-- The decoder of files is total and exact, on every slice and with every codec. -/
theorem decodeFileSteps_exact (s : Slice) (c : PageCodec) :
    Exact c s.bytes (decodeFileSteps s.bytes c) := by
  rw [decodeFileSteps_eq]
  refine ⟨decodeFile_ne_panic, fun _ _ => decodedFrom_of_decodeFile, fun hkeyed => ?_⟩
  cases h : decodeFile s.bytes c with
  | error e => exact ⟨e, rfl⟩
  | ok out =>
    obtain ⟨header, -, -, hheader, -, hagree, -⟩ := decodeFile_inv h
    rw [Header.flags_of_decode hheader] at hagree
    exact absurd hagree hkeyed

end Exact

end LocalFormat

end Turbolite
