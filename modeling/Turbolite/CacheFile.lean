import Turbolite.Codec
import Turbolite.Lib.RawFile
import Turbolite.Storage

/-!
# Turbolite.CacheFile

The bytes of the disk cache (`disk_cache.rs`): the cache file, the bitmap, and in compressed mode the
index of blobs. Uncompressed pages have a slot of their own; compressed ones are appended and found
through the index, and a compaction moves the live blobs together. The memory cache is left out.
-/

namespace Turbolite

open Blocks Results RawFile

/-- How a cache stores its pages. -/
structure CacheConfig where
  codec : CodecConfig
  pageSize : Nat
  compressed : Bool
  pageSize_pos : 0 < pageSize

/-- `GCM_RANDOM_NONCE_OVERHEAD`. -/
def gcmRandomNonceOverhead : Nat := 28

/-- Nonce and tag widen a ciphertext. -/
def CodecConfig.FrameSized (cfg : CodecConfig) : Prop :=
  ∀ key, cfg.encryptionKey = some key → ∀ data,
    (cfg.codecs.encrypt key [] data).length = data.length + gcmRandomNonceOverhead

/-- A ciphertext opens to what is left without nonce and tag. -/
def CodecConfig.OpenSized (cfg : CodecConfig) : Prop :=
  ∀ key, cfg.encryptionKey = some key → ∀ data plain, cfg.codecs.decrypt key [] data = some plain →
    plain.length + gcmRandomNonceOverhead = data.length

namespace CacheConfig

variable (k : CacheConfig)

/-- `slot_stride`. -/
def slotStride : Nat :=
  match k.codec.encryptionKey with
  | some _ => k.pageSize + gcmRandomNonceOverhead
  | none => k.pageSize

theorem slotStride_pos : 0 < k.slotStride := by
  have hpos := k.pageSize_pos
  unfold slotStride
  split <;> omega

/-- What an uncompressed page is on disk. -/
def sealSlot (data : Bytes) : Bytes :=
  match k.codec.encryptionKey with
  | some key => k.codec.codecs.encrypt key [] data
  | none => data

/-- What a compressed page is on disk. -/
def sealBlob (data : Bytes) : Bytes := k.codec.sealFrame [] data

end CacheConfig

/-- Where a write of pages stops. -/
inductive WriteFault where
  /-- before the file is touched: a page cannot be compressed or encrypted -/
  | encode
  /-- `ensure_file_len` -/
  | extend
  /-- `write_all_at`, after some bytes -/
  | write (bytes : Nat)
  deriving DecidableEq

/-- `CacheIndexEntry`. -/
structure CacheIndexEntry where
  offset : Nat
  compressedLen : Nat
  deriving DecidableEq, Repr

/-- Where a blob ends. -/
def CacheIndexEntry.stop (e : CacheIndexEntry) : Nat := e.offset + e.compressedLen

/-- Which pages are there: the bitmap with its capacity, and the index of the compressed mode. -/
structure Presence where
  bitmap : Nat → Bool := fun _ => false
  capacity : Nat := 0
  index : HMap Nat CacheIndexEntry := ∅
  nextOffset : Nat := 0

/-- The bitmap and the index with the file they are about. -/
structure CacheFile extends Presence where
  file : File := RawFile.empty

namespace Presence

/-- `is_present`. -/
def isPresent (k : CacheConfig) (s : Presence) (p : Nat) : Bool :=
  s.bitmap p && (!k.compressed || (s.index.lookup p).isSome)

/-- `ensure_capacity` and `mark_present`. -/
def mark (s : Presence) (p : Nat) : Presence :=
  { s with
    bitmap := Function.update s.bitmap p true
    capacity := max s.capacity ((p / 8 + 1) * 8) }

/-- `ensure_capacity`. -/
def ensureCapacity (t : Presence) (p : Nat) : Presence :=
  { t with capacity := max t.capacity ((p / 8 + 1) * 8) }

/-- `CacheIndex::insert`. -/
def insertIndex (s : Presence) (p len : Nat) : Presence :=
  { s with
    index := s.index.insert p ⟨s.nextOffset, len⟩
    nextOffset := s.nextOffset + len }

end Presence

namespace CacheFile

variable (k : CacheConfig)

/-- `ensure_file_len`. -/
def ensureFileLen (f : File) (needed : Nat) : File :=
  if f.len < needed then f.setLen needed else f

/-- `read_page` of a whole page. -/
def readPage (c : CacheFile) (p : Nat) : IoResult Bytes :=
  if k.compressed then
    match c.index.lookup p with
    | none => .error (.io .notFound s!"page {p} not in compressed cache index")
    | some e =>
      match c.file.readAt e.offset e.compressedLen with
      | none => .error (.io .unexpectedEof "failed to fill whole buffer")
      | some blob => do
        let page ← k.codec.openFrame k.codec.dictionary [] blob k.pageSize
        if k.pageSize ≤ page.length then .ok (page.take k.pageSize)
        else .error (.io .invalidData
          s!"decompressed page {p} too small: need {k.pageSize} bytes, got {page.length}")
  else
    match c.file.readAt (p * k.slotStride) k.slotStride with
    | none => .error (.io .unexpectedEof "failed to fill whole buffer")
    | some frame => do
      let page ← k.codec.decryptIfNeeded frame []
      .ok (page.take k.pageSize)

/-- `write_page`. -/
def writePage (c : CacheFile) (p : Nat) (data : Bytes) : CacheFile :=
  if k.compressed then
    let blob := k.sealBlob data
    { toPresence := (c.toPresence.insertIndex p blob.length).mark p
      file := c.file.writeAt c.nextOffset blob }
  else
    { toPresence := c.toPresence.mark p
      file := c.file.writeAt (p * k.slotStride) (k.sealSlot data) }

/-- `write_pages_scattered`: the pages the buffer covers, one after the other; in compressed mode the
blobs of the batch are laid end to end. -/
def writePagesScattered (c : CacheFile) (pageNums : List Nat) (data : Bytes) : CacheFile :=
  (PageMap.scatter k.pageSize pageNums data).foldl (fun c w => c.writePage k w.1 w.2) c

/-- `clear_pages_from_disk`. -/
def clearPagesFromDisk (c : CacheFile) (pageNums : List Nat) : CacheFile :=
  { c with
    bitmap := fun p => c.bitmap p && !pageNums.contains p
    index := if k.compressed then pageNums.foldl (fun idx p => idx.erase p) c.index else c.index
    file := if k.compressed then c.file
      else pageNums.foldl (fun f p => f.punch (p * k.slotStride) k.slotStride) c.file }

/-- The file, the bitmap and the index after `truncate_to_page_count` set the length of the file. -/
def truncateToLen (c : CacheFile) (newLen pageCount : Nat) : CacheFile :=
  { c with
    file := c.file.setLen newLen
    bitmap := fun p => c.bitmap p && decide (p < pageCount)
    index := if k.compressed then
        (c.index.keys.filter (pageCount ≤ ·)).foldl (fun idx p => idx.erase p) c.index
      else c.index }

/-- `truncate_to_page_count` for page counts of databases, where the length is a `u64`. -/
def truncateToPageCount (c : CacheFile) (pageCount : Nat) : CacheFile :=
  c.truncateToLen k (pageCount * k.slotStride) pageCount

/-! ### Compaction -/

/-- The loop state of a compaction: file, new index, end of the packed part. -/
structure Packing where
  file : File
  index : HMap Nat CacheIndexEntry := ∅
  cursor : Nat := 0

/-- One blob. A blob that cannot be read is left out. -/
def Packing.push (s : Packing) (e : Nat × CacheIndexEntry) : Packing :=
  match s.file.readAt e.2.offset e.2.compressedLen with
  | none => s
  | some blob =>
    { file := if s.cursor = e.2.offset then s.file else s.file.writeAt s.cursor blob
      index := s.index.insert e.1 ⟨s.cursor, e.2.compressedLen⟩
      cursor := s.cursor + e.2.compressedLen }

/-- The live entries by offset. -/
def liveEntries (idx : HMap Nat CacheIndexEntry) : List (Nat × CacheIndexEntry) :=
  (idx.entries.map fun e => (e.1, e.2)).insertionSort fun a b => a.2.offset ≤ b.2.offset

/-- The first `j` moves of a compaction. -/
def packed (c : CacheFile) (j : Nat) : Packing :=
  ((liveEntries c.index).take j).foldl Packing.push { file := c.file }

/-- `compact_compressed_cache`. -/
def compactCompressedCache (c : CacheFile) : CacheFile :=
  if k.compressed then
    let s := c.packed (liveEntries c.index).length
    { c with
      file := s.file.setLen s.cursor
      index := s.index
      nextOffset := s.cursor }
  else c

/-! ### Local state -/

/-- What the constructor makes of the cache file and the persisted state. -/
def reopen (file : File) (persisted : Presence) (pageCount : Nat) : CacheFile :=
  let sized := if k.compressed then file
    else if file.len < pageCount * k.slotStride then file.setLen (pageCount * k.slotStride) else file
  if file.len = 0 then
    { bitmap := fun _ => false
      capacity := max persisted.capacity (divCeil pageCount 8 * 8)
      file := sized }
  else
    { bitmap := persisted.bitmap
      capacity := max persisted.capacity (divCeil pageCount 8 * 8)
      index := if k.compressed then persisted.index else ∅
      nextOffset := if k.compressed then persisted.nextOffset else 0
      file := sized }

/-! ### What a page is on disk -/

variable {k}

/-- The page's slot, or the blob of its entry, is `data`. -/
def OnDisk (k : CacheConfig) (file : File) (s : Presence) (p : Nat) (data : Bytes) : Prop :=
  if k.compressed then ∃ e, s.index.lookup p = some e ∧
    file.readAt e.offset e.compressedLen = some (k.sealBlob data)
  else file.readAt (p * k.slotStride) k.slotStride = some (k.sealSlot data)

/-- A page on disk is read back. -/
theorem OnDisk.readPage (hc : k.codec.codecs.Lawful) {c : CacheFile} {p : Nat} {data : Bytes}
    (h : OnDisk k c.file c.toPresence p data) (hlen : data.length = k.pageSize) :
    c.readPage k p = .ok data := by
  have htake : data.take k.pageSize = data := List.take_of_length_le hlen.le
  unfold OnDisk at h
  unfold CacheFile.readPage
  split at h
  · rename_i hcomp
    obtain ⟨e, he, hr⟩ := h
    have hopen := (CodecConfig.opens_sealFrame hc [] data).openFrame hlen.le
    rw [if_pos hcomp]
    simp only [he, hr, CacheConfig.sealBlob, hopen, ok_bind, if_pos hlen.ge, htake]
  · rename_i hcomp
    rw [if_neg hcomp]
    simp only [h]
    unfold CacheConfig.sealSlot CodecConfig.decryptIfNeeded
    cases k.codec.encryptionKey with
    | none => simp [htake]
    | some key => simp [hc.decrypt_encrypt, htake]

theorem length_sealSlot (hs : k.codec.FrameSized) {data : Bytes} (hlen : data.length = k.pageSize) :
    (k.sealSlot data).length = k.slotStride := by
  unfold CacheConfig.sealSlot CacheConfig.slotStride
  cases hk : k.codec.encryptionKey with
  | none => exact hlen
  | some key => exact (hs key hk data).trans (by rw [hlen])

/-- No page compresses to nothing. -/
theorem length_sealBlob_pos (hc : k.codec.codecs.Lawful) {data : Bytes}
    (hlen : data.length = k.pageSize) : 0 < (k.sealBlob data).length := by
  refine List.length_pos_iff.mpr fun hnil => ?_
  have hpos := k.pageSize_pos
  obtain ⟨plain, hd, hz⟩ := CodecConfig.opens_sealFrame hc [] data
  rw [show k.codec.sealFrame [] data = [] from hnil] at hd
  have hplain : plain = [] := by
    unfold CodecConfig.decryptIfNeeded at hd
    cases hk : k.codec.encryptionKey with
    | none =>
      rw [hk] at hd
      exact (Except.ok.inj hd).symm
    | some key =>
      simp only [hk] at hd
      cases hx : k.codec.codecs.decrypt key [] [] with
      | none => simp only [hx] at hd; cases hd
      | some x =>
        simp only [hx] at hd
        cases hd
        exact hc.decrypt_nil _ _ _ hx
  rw [hplain] at hz
  rw [hc.decompress_nil _ _ hz] at hlen
  simp at hlen
  omega

/-- Slots do not overlap. -/
theorem slots_disjoint {p q stride : Nat} (h : p ≠ q) :
    p * stride + stride ≤ q * stride ∨ q * stride + stride ≤ p * stride := by
  rcases Nat.lt_or_gt_of_ne h with hlt | hgt
  · left
    rw [← Nat.succ_mul]
    exact Nat.mul_le_mul_right _ hlt
  · right
    rw [← Nat.succ_mul]
    exact Nat.mul_le_mul_right _ hgt

theorem lookup_foldl_erase {α β : Type} [DecidableEq α] (ps : List α) (idx : HMap α β) (p : α) :
    (ps.foldl (fun idx p => idx.erase p) idx).lookup p = if p ∈ ps then none else idx.lookup p := by
  induction ps generalizing idx with
  | nil => simp
  | cons q ps ih =>
    rw [List.foldl_cons, ih]
    by_cases hp : p = q
    · subst hp
      simp
    · rw [AList.lookup_erase_ne hp]
      simp [hp]

/-- The write itself makes the file long enough. -/
theorem ensureFileLen_writeAt (f : File) (off : Nat) {data : Bytes} (hdata : data ≠ []) :
    (ensureFileLen f (off + data.length)).writeAt off data = f.writeAt off data := by
  unfold ensureFileLen
  split
  · rename_i hlt
    have hlen : ((f.setLen (off + data.length)).writeAt off data).len = (f.writeAt off data).len := by
      rw [len_writeAt _ _ hdata, len_writeAt _ _ hdata]
      simp only [File.setLen]
      omega
    refine eq_of_byte hlen ?_
    funext i
    simp only [File.writeAt, File.setLen]
    by_cases hin : off ≤ i ∧ i < off + data.length
    · rw [if_pos hin, if_pos hin]
    · rw [if_neg hin, if_neg hin]
      split
      · rfl
      · exact (f.past i (by omega)).symm
  · rfl

/-! ### Which pages are present -/

section Present

variable {c : CacheFile} {p q : Nat} {ps : List Nat}

theorem isPresent_compressed (hk : k.compressed = true) {t : Presence} :
    t.isPresent k p = true ↔ t.bitmap p = true ∧ ∃ e, t.index.lookup p = some e := by
  simp [Presence.isPresent, hk, Option.isSome_iff_exists]

theorem isPresent_uncompressed (hk : k.compressed = false) {t : Presence} :
    t.isPresent k p = t.bitmap p := by
  simp [Presence.isPresent, hk]

theorem isPresent_writePage (data : Bytes) :
    (c.writePage k p data).isPresent k q = true ↔ q = p ∨ c.isPresent k q = true := by
  by_cases hq : q = p
  · subst hq
    cases hk : k.compressed with
    | true => simp [CacheFile.writePage, Presence.isPresent, Presence.mark, Presence.insertIndex, hk]
    | false => simp [CacheFile.writePage, Presence.isPresent, Presence.mark, hk]
  · cases hk : k.compressed with
    | true =>
      simp [CacheFile.writePage, Presence.isPresent, Presence.mark, Presence.insertIndex, hk, hq,
        AList.lookup_insert_ne hq]
    | false =>
      simp [CacheFile.writePage, Presence.isPresent, Presence.mark, hk, hq]

theorem isPresent_foldl_writePage (ws : List (Nat × Bytes)) :
    (ws.foldl (fun c w => c.writePage k w.1 w.2) c).isPresent k q = true ↔
      q ∈ ws.map (·.1) ∨ c.isPresent k q = true := by
  induction ws generalizing c with
  | nil => simp
  | cons w ws ih =>
    rw [List.foldl_cons, ih, isPresent_writePage, List.map_cons, List.mem_cons]
    tauto

theorem isPresent_writePagesScattered (data : Bytes) :
    (c.writePagesScattered k ps data).isPresent k q = true ↔
      q ∈ ps.take (data.length / k.pageSize) ∨ c.isPresent k q = true := by
  rw [CacheFile.writePagesScattered, isPresent_foldl_writePage, PageMap.map_fst_scatter]

theorem lookup_clearPagesFromDisk (hk : k.compressed = true) :
    (c.clearPagesFromDisk k ps).index.lookup q = if q ∈ ps then none else c.index.lookup q := by
  simp only [CacheFile.clearPagesFromDisk, hk, if_true]
  exact lookup_foldl_erase ..

theorem isPresent_clearPagesFromDisk :
    (c.clearPagesFromDisk k ps).isPresent k q = true ↔ c.isPresent k q = true ∧ q ∉ ps := by
  have hbit : (c.clearPagesFromDisk k ps).bitmap q = true ↔ c.bitmap q = true ∧ q ∉ ps := by
    simp [CacheFile.clearPagesFromDisk]
  cases hk : k.compressed with
  | false => rw [isPresent_uncompressed hk, isPresent_uncompressed hk, hbit]
  | true =>
    rw [isPresent_compressed hk, isPresent_compressed hk, hbit, lookup_clearPagesFromDisk hk]
    by_cases hq : q ∈ ps
    · simp [hq]
    · simp [hq]

theorem lookup_truncateToLen (hk : k.compressed = true) (newLen n : Nat) :
    (c.truncateToLen k newLen n).index.lookup q = if q < n then c.index.lookup q else none := by
  simp only [CacheFile.truncateToLen, hk, if_true]
  rw [lookup_foldl_erase]
  by_cases hq : q < n
  · rw [if_pos hq]
    refine if_neg fun hmem => ?_
    exact absurd (of_decide_eq_true (List.mem_filter.mp hmem).2) (Nat.not_le.mpr hq)
  · rw [if_neg hq]
    split
    · rfl
    · rename_i hnot
      rw [AList.lookup_eq_none]
      exact fun hmem => hnot (List.mem_filter.mpr ⟨hmem, decide_eq_true (Nat.le_of_not_lt hq)⟩)

theorem lookup_truncateToPageCount (hk : k.compressed = true) (n : Nat) :
    (c.truncateToPageCount k n).index.lookup q = if q < n then c.index.lookup q else none :=
  lookup_truncateToLen hk _ n

theorem isPresent_truncateToLen (newLen n : Nat) :
    (c.truncateToLen k newLen n).isPresent k q = true ↔ c.isPresent k q = true ∧ q < n := by
  have hbit : (c.truncateToLen k newLen n).bitmap q = true ↔ c.bitmap q = true ∧ q < n := by
    simp [CacheFile.truncateToLen]
  cases hk : k.compressed with
  | false => rw [isPresent_uncompressed hk, isPresent_uncompressed hk, hbit]
  | true =>
    rw [isPresent_compressed hk, isPresent_compressed hk, hbit, lookup_truncateToLen hk]
    by_cases hq : q < n
    · simp [hq]
    · simp [hq]

theorem isPresent_truncateToPageCount (n : Nat) :
    (c.truncateToPageCount k n).isPresent k q = true ↔ c.isPresent k q = true ∧ q < n :=
  isPresent_truncateToLen _ n

/-- The bitmap reaches as far as the bits that are set. -/
def Sized (t : Presence) : Prop := ∀ p, t.bitmap p = true → p < t.capacity

theorem Sized.mark {t : Presence} (h : Sized t) (p : Nat) : Sized (t.mark p) := by
  intro q hq
  have hq' : Function.update t.bitmap p true q = true := hq
  show q < max t.capacity ((p / 8 + 1) * 8)
  by_cases hqp : q = p
  · omega
  · rw [Function.update_of_ne hqp] at hq'
    have hlt := h q hq'
    omega

theorem Sized.writePage (h : Sized c.toPresence) (data : Bytes) :
    Sized (c.writePage k p data).toPresence := by
  unfold CacheFile.writePage
  split
  · exact Sized.mark (t := c.toPresence.insertIndex p _) h p
  · exact h.mark p

theorem Sized.foldl_writePage (h : Sized c.toPresence) (ws : List (Nat × Bytes)) :
    Sized (ws.foldl (fun c w => c.writePage k w.1 w.2) c).toPresence := by
  induction ws generalizing c with
  | nil => exact h
  | cons w ws ih => exact ih (h.writePage w.2)

/-- Fewer bits. -/
theorem Sized.restrict {t t' : Presence} (h : Sized t) (hcap : t'.capacity = t.capacity)
    (hsub : ∀ p, t'.bitmap p = true → t.bitmap p = true) : Sized t' :=
  fun p hp => hcap ▸ h p (hsub p hp)

theorem Sized.clearPagesFromDisk (h : Sized c.toPresence) (ps : List Nat) :
    Sized (c.clearPagesFromDisk k ps).toPresence := by
  refine h.restrict rfl fun p hp => ?_
  have hp' : (c.bitmap p && !ps.contains p) = true := hp
  exact (Bool.and_eq_true_iff.mp hp').1

end Present

theorem readAt_foldl_punch {ps : List Nat} {stride p : Nat} (hp : p ∉ ps) {f : File} {data : Bytes}
    (h : f.readAt (p * stride) stride = some data) :
    (ps.foldl (fun f q => f.punch (q * stride) stride) f).readAt (p * stride) stride = some data := by
  induction ps generalizing f with
  | nil => exact h
  | cons q ps ih =>
    obtain ⟨hq, hps⟩ := not_or.mp (List.mem_cons.not.mp hp)
    exact ih hps (readAt_punch_disjoint (slots_disjoint hq) h)

/-! ### Compaction keeps the blobs -/

/-- Bytes of a list of blobs. -/
def blobBytes (es : List (Nat × CacheIndexEntry)) : Nat := (es.map (·.2.compressedLen)).sum

@[simp] theorem blobBytes_nil : blobBytes [] = 0 := rfl

@[simp] theorem blobBytes_cons (e : Nat × CacheIndexEntry) (es : List (Nat × CacheIndexEntry)) :
    blobBytes (e :: es) = e.2.compressedLen + blobBytes es := by
  simp [blobBytes]

/-- What a compaction may assume of the blobs that are left: they lie apart, in order, after the packed
part, and can be read. -/
structure Packable (s : Packing) (es : List (Nat × CacheIndexEntry)) (blob : Nat → Bytes) : Prop where
  nodup : (es.map (·.1)).Nodup
  apart : es.Pairwise fun a b => a.2.stop ≤ b.2.offset
  after : ∀ e ∈ es, s.cursor ≤ e.2.offset
  readable : ∀ e ∈ es, s.file.readAt e.2.offset e.2.compressedLen = some (blob e.1)

variable {s : Packing} {blob : Nat → Bytes} {e : Nat × CacheIndexEntry}
  {es : List (Nat × CacheIndexEntry)}

theorem Packable.sublist {es' : List (Nat × CacheIndexEntry)} (h : Packable s es blob)
    (hsub : es'.Sublist es) : Packable s es' blob where
  nodup := h.nodup.sublist (hsub.map _)
  apart := h.apart.sublist hsub
  after e he := h.after e (hsub.subset he)
  readable e he := h.readable e (hsub.subset he)

theorem Packable.push_eq (h : Packable s (e :: es) blob) : s.push e =
    { file := if s.cursor = e.2.offset then s.file else s.file.writeAt s.cursor (blob e.1)
      index := s.index.insert e.1 ⟨s.cursor, e.2.compressedLen⟩
      cursor := s.cursor + e.2.compressedLen } := by
  unfold Packing.push
  rw [h.readable e List.mem_cons_self]

theorem Packable.length_blob (h : Packable s (e :: es) blob) :
    (blob e.1).length = e.2.compressedLen :=
  length_of_readAt (h.readable e List.mem_cons_self)

/-- A move touches nothing below the packed part and nothing from the blob's end on. -/
theorem Packable.readAt_push (h : Packable s (e :: es) blob) {off n : Nat} {data : Bytes}
    (hd : off + n ≤ s.cursor ∨ e.2.stop ≤ off) (hr : s.file.readAt off n = some data) :
    (s.push e).file.readAt off n = some data := by
  have hafter := h.after e List.mem_cons_self
  have hlen := h.length_blob
  rw [h.push_eq]
  dsimp only
  split
  · exact hr
  · refine readAt_writeAt_disjoint ?_ hr
    rw [hlen]
    unfold CacheIndexEntry.stop at hd
    omega

theorem Packable.readAt_pushed (h : Packable s (e :: es) blob) :
    (s.push e).file.readAt s.cursor e.2.compressedLen = some (blob e.1) := by
  have hr := h.readable e List.mem_cons_self
  rw [h.push_eq]
  dsimp only
  split
  · rename_i heq
    rw [heq]
    exact hr
  · rw [← h.length_blob]
    exact readAt_writeAt_same ..

theorem Packable.tail (h : Packable s (e :: es) blob) : Packable (s.push e) es blob := by
  obtain ⟨happ, hpw⟩ := List.pairwise_cons.mp h.apart
  have hafter := h.after e List.mem_cons_self
  refine ⟨(List.nodup_cons.mp (List.map_cons ▸ h.nodup)).2, hpw, fun x hx => ?_, fun x hx => ?_⟩
  · have hx' := happ x hx
    rw [h.push_eq]
    unfold CacheIndexEntry.stop at hx'
    show s.cursor + e.2.compressedLen ≤ _
    omega
  · exact h.readAt_push (.inr (happ x hx)) (h.readable x (List.mem_cons_of_mem _ hx))

theorem Packable.cursor_foldl (h : Packable s es blob) :
    (es.foldl Packing.push s).cursor = s.cursor + blobBytes es := by
  induction es generalizing s with
  | nil => rfl
  | cons e es ih =>
    rw [List.foldl_cons, ih h.tail, h.push_eq, blobBytes_cons]
    exact Nat.add_assoc ..

/-- Everything before the packed part and after the last blob stays. -/
theorem Packable.readAt_foldl (h : Packable s es blob) {off n : Nat} {data : Bytes}
    (hd : off + n ≤ s.cursor ∨ ∀ e ∈ es, e.2.stop ≤ off) (hr : s.file.readAt off n = some data) :
    (es.foldl Packing.push s).file.readAt off n = some data := by
  induction es generalizing s with
  | nil => exact hr
  | cons e es ih =>
    refine ih h.tail ?_ (h.readAt_push (hd.imp id fun hall => hall e List.mem_cons_self) hr)
    rcases hd with hle | hall
    · left
      rw [h.push_eq]
      exact hle.trans (Nat.le_add_right ..)
    · exact .inr fun x hx => hall x (List.mem_cons_of_mem _ hx)

theorem Packable.lookup_foldl_of_notMem (h : Packable s es blob) {p : Nat} (hp : p ∉ es.map (·.1)) :
    (es.foldl Packing.push s).index.lookup p = s.index.lookup p := by
  induction es generalizing s with
  | nil => rfl
  | cons e es ih =>
    rw [List.map_cons, List.mem_cons, not_or] at hp
    rw [List.foldl_cons, ih h.tail hp.2, h.push_eq]
    exact AList.lookup_insert_ne hp.1

/-- Every blob ends up behind the ones before it, with its bytes. -/
theorem Packable.foldl_split {pre post : List (Nat × CacheIndexEntry)}
    (h : Packable s (pre ++ e :: post) blob) :
    ((pre ++ e :: post).foldl Packing.push s).index.lookup e.1 =
        some ⟨s.cursor + blobBytes pre, e.2.compressedLen⟩ ∧
      ((pre ++ e :: post).foldl Packing.push s).file.readAt (s.cursor + blobBytes pre)
        e.2.compressedLen = some (blob e.1) := by
  induction pre generalizing s with
  | nil =>
    have hnd := List.nodup_cons.mp (List.map_cons ▸ h.nodup)
    refine ⟨?_, ?_⟩
    · rw [List.nil_append, List.foldl_cons, h.tail.lookup_foldl_of_notMem hnd.1, h.push_eq]
      exact AList.lookup_insert _
    · refine h.tail.readAt_foldl (.inl ?_) h.readAt_pushed
      rw [h.push_eq]
      exact Nat.le_refl _
  | cons x pre ih =>
    have hrec := ih h.tail
    have hcur : (s.push x).cursor = s.cursor + x.2.compressedLen := by rw [h.push_eq]
    rw [hcur, Nat.add_assoc] at hrec
    rw [blobBytes_cons]
    exact hrec

/-- A page that is new in the index is one of the blobs. -/
theorem Packable.of_lookup_foldl (h : Packable s es blob) {p : Nat} {e : CacheIndexEntry}
    (hnew : s.index.lookup p = none) (he : (es.foldl Packing.push s).index.lookup p = some e) :
    ∃ pre e' post, es = pre ++ (p, e') :: post ∧ e = ⟨s.cursor + blobBytes pre, e'.compressedLen⟩ ∧
      (es.foldl Packing.push s).file.readAt e.offset e.compressedLen = some (blob p) := by
  have hmem : p ∈ es.map (·.1) := by
    by_contra hnot
    rw [h.lookup_foldl_of_notMem hnot, hnew] at he
    cases he
  obtain ⟨⟨q, e'⟩, hq, rfl⟩ := List.mem_map.mp hmem
  obtain ⟨pre, post, hsplit⟩ := List.append_of_mem hq
  rw [hsplit] at h he ⊢
  obtain ⟨hlookup, hread⟩ := h.foldl_split
  obtain rfl := Option.some.inj (hlookup.symm.trans he)
  exact ⟨pre, e', post, rfl, rfl, hread⟩

end CacheFile

end Turbolite
