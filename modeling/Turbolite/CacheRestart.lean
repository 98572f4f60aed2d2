import Turbolite.CacheFile
import Turbolite.Lib.Runs

/-!
# Turbolite.CacheRestart

What a restart finds in the cache. The bitmap and the index are written down by `persist_bitmap`; the
cache file changes at once. A page that was written down as present must keep its bytes until the next
`persist_bitmap`: `presence_survives_restart` says along which runs it does.

The process may stop between two operations and inside one. A page write is then cut off after any number of
bytes, an install after any number of pages, a compaction after any number of moves. An eviction that stops is
one of fewer pages; a truncation changes the file in one call, and the local state is replaced by a rename.
-/

namespace Turbolite.CacheRestart

open Blocks Results RawFile Runs CacheFile

/-- The cache and what a restart finds of it. -/
structure State where
  cache : CacheFile := {}
  /-- bitmap and index in `local_state.msgpack` -/
  persisted : Presence := {}
  /-- the bytes last stored for each page -/
  stored : PageMap := PageMap.empty

/-- The calls of the cache, and a restart. -/
inductive Event where
  /-- `write_page` -/
  | write (page : Nat) (data : Bytes)
  /-- `write_pages_scattered` -/
  | install (pageNums : List Nat) (data : Bytes)
  /-- `clear_pages_from_disk` -/
  | evict (pageNums : List Nat)
  /-- `truncate_to_page_count` -/
  | truncate (pageCount : Nat)
  /-- `compact_compressed_cache` -/
  | compact
  /-- `persist_bitmap` -/
  | persist
  /-- the process stops and the cache is opened again -/
  | restart (pageCount : Nat)
  /-- the process stops after some bytes of a page write -/
  | stopWrite (page : Nat) (data : Bytes) (written pageCount : Nat)
  /-- the process stops after some pages of an install and some bytes of the next -/
  | stopInstall (pageNums : List Nat) (data : Bytes) (pages written pageCount : Nat)
  /-- the process stops after some moves of a compaction and some bytes of the next -/
  | stopCompaction (moves written pageCount : Nat)

/-- One page write with the record of it. -/
def State.writePage (k : CacheConfig) (s : State) (p : Nat) (data : Bytes) : State :=
  { s with
    cache := s.cache.writePage k p data
    stored := Function.update s.stored p (some data) }

/-- The pages an install writes. -/
def writes (k : CacheConfig) (pageNums : List Nat) (data : Bytes) : List (Nat × Bytes) :=
  PageMap.scatter k.pageSize pageNums data

/-- The cache of the next process. -/
def State.reopened (k : CacheConfig) (s : State) (pageCount : Nat) : CacheFile :=
  reopen k s.cache.file s.persisted pageCount

/-- Where a page write puts its bytes. -/
def offsetOf (k : CacheConfig) (c : CacheFile) (p : Nat) : Nat :=
  if k.compressed then c.nextOffset else p * k.slotStride

/-- The bytes a page write writes. -/
def bytesOf (k : CacheConfig) (data : Bytes) : Bytes :=
  if k.compressed then k.sealBlob data else k.sealSlot data

/-- The file when a page write is cut off; it was made long enough before. -/
def tornFile (k : CacheConfig) (c : CacheFile) (p : Nat) (data : Bytes) (written : Nat) : File :=
  (ensureFileLen c.file (offsetOf k c p + (bytesOf k data).length)).writeAt (offsetOf k c p)
    ((bytesOf k data).take written)

/-- The file when a compaction is cut off in the move after the first `j`. -/
def tornMove (c : CacheFile) (j written : Nat) : File :=
  let s := c.packed j
  match (liveEntries c.index)[j]? with
  | none => s.file
  | some e =>
    match s.file.readAt e.2.offset e.2.compressedLen with
    | none => s.file
    | some blob => if s.cursor = e.2.offset then s.file else s.file.writeAt s.cursor (blob.take written)

/-- The pages of an install that are written before it stops. -/
def State.installed (k : CacheConfig) (s : State) (ws : List (Nat × Bytes)) : State :=
  ws.foldl (fun s w => s.writePage k w.1 w.2) s

/-- A page write is cut off, and the cache is opened again. -/
def State.cutOff (k : CacheConfig) (s : State) (p : Nat) (data : Bytes) (written pageCount : Nat) :
    Option State :=
  if written < (bytesOf k data).length then
    some { s with cache := reopen k (tornFile k s.cache p data written) s.persisted pageCount }
  else none

/-- One event; `none` when it is refused. -/
def step (k : CacheConfig) (s : State) : Event → Option State
  | .write p data => if data.length = k.pageSize then some (s.writePage k p data) else none
  | .install ps data => some (s.installed k (writes k ps data))
  | .evict ps => some { s with cache := s.cache.clearPagesFromDisk k ps }
  | .truncate n => some { s with cache := s.cache.truncateToPageCount k n }
  | .compact => some { s with cache := s.cache.compactCompressedCache k }
  | .persist => some { s with persisted := s.cache.toPresence }
  | .restart n => some { s with cache := s.reopened k n }
  | .stopWrite p data written n => if data.length = k.pageSize then s.cutOff k p data written n else none
  | .stopInstall ps data i written n =>
    match (writes k ps data)[i]? with
    | none => none
    | some w => (s.installed k ((writes k ps data).take i)).cutOff k w.1 w.2 written n
  | .stopCompaction j written n =>
    if k.compressed then
      some { s with cache := reopen k (tornMove s.cache j written) s.persisted n }
    else none

/-- Every page the next process takes for present is read as it was stored last. -/
def Survives (k : CacheConfig) (s : State) : Prop :=
  ∀ n p, (s.reopened k n).isPresent k p = true →
    ∃ data, s.stored p = some data ∧ (s.reopened k n).readPage k p = .ok data

/-- A compaction leaves the written-down pages where they are: they are live, and no dead space comes
before them. -/
def StaysPacked (k : CacheConfig) (s : State) : Prop :=
  ∀ p e, s.persisted.isPresent k p = true → s.persisted.index.lookup p = some e →
    s.cache.index.lookup p = some e ∧
      e.offset = blobBytes ((liveEntries s.cache.index).filter fun x => x.2.offset < e.offset)

/-- In the slot of a written-down page, the bytes a cut-off write got to are those that were there. -/
def TearsNothing (k : CacheConfig) (s : State) (p : Nat) (data : Bytes) (written : Nat) : Prop :=
  k.compressed = false → s.persisted.isPresent k p = true →
    s.cache.file.readAt (p * k.slotStride) written = some ((k.sealSlot data).take written)

/-- When an event is safe. A slot is overwritten in place, so holes, a shorter file and a write that is cut off
harm an uncompressed cache. A compressed page that is written again gets a new blob, which the written-down
index does not know. -/
def Safe (k : CacheConfig) (s : State) : Event → Prop
  | .write p _ => k.compressed = true → s.persisted.isPresent k p = false
  | .install ps data => k.compressed = true →
      ∀ w ∈ writes k ps data, s.persisted.isPresent k w.1 = false
  | .evict ps => k.compressed = false → ∀ p ∈ ps, s.persisted.isPresent k p = false
  | .truncate n =>
      (k.compressed = false → ∀ p, n ≤ p → s.persisted.isPresent k p = false) ∧
      (k.compressed = true →
        (∀ p e, s.cache.index.lookup p = some e → p < n → e.stop ≤ n * k.slotStride) ∧
        ∀ p e, s.persisted.isPresent k p = true → s.persisted.index.lookup p = some e →
          e.stop ≤ n * k.slotStride)
  | .stopWrite p data written _ => TearsNothing k s p data written
  | .stopInstall ps data i written _ =>
      (k.compressed = true → ∀ w ∈ (writes k ps data).take i, s.persisted.isPresent k w.1 = false) ∧
      ∀ w, (writes k ps data)[i]? = some w →
        TearsNothing k (s.installed k ((writes k ps data).take i)) w.1 w.2 written
  | .compact | .stopCompaction .. => k.compressed = true → StaysPacked k s
  | .persist | .restart _ => True

/-! ### The invariant -/

/-- The present pages are on disk as they were stored. -/
def Backed (k : CacheConfig) (file : File) (s : Presence) (stored : PageMap) : Prop :=
  ∀ p, s.isPresent k p = true →
    ∃ data, stored p = some data ∧ data.length = k.pageSize ∧ OnDisk k file s p data

/-- The blobs of an index lie apart, below the append offset. -/
structure Laid (s : Presence) : Prop where
  marked : ∀ p e, s.index.lookup p = some e → s.bitmap p = true
  pos : ∀ p e, s.index.lookup p = some e → 0 < e.compressedLen
  below : ∀ p e, s.index.lookup p = some e → e.stop ≤ s.nextOffset
  apart : ∀ p q e e', p ≠ q → s.index.lookup p = some e → s.index.lookup q = some e' →
    e.stop ≤ e'.offset ∨ e'.stop ≤ e.offset

/-- The live and the persisted bitmap are backed by the file. -/
structure Inv (k : CacheConfig) (s : State) : Prop where
  cache : Backed k s.cache.file s.cache.toPresence s.stored
  persisted : Backed k s.cache.file s.persisted s.stored
  laid : k.compressed = true → Laid s.cache.toPresence
  laidPersisted : k.compressed = true → Laid s.persisted
  below : k.compressed = true → ∀ p e, s.persisted.index.lookup p = some e → e.stop ≤ s.cache.nextOffset

theorem onDisk_compressed {k : CacheConfig} (hk : k.compressed = true) {file : File} {s : Presence}
    {p : Nat} {data : Bytes} : OnDisk k file s p data ↔ ∃ e, s.index.lookup p = some e ∧
      file.readAt e.offset e.compressedLen = some (k.sealBlob data) := by
  rw [OnDisk, if_pos hk]

theorem onDisk_uncompressed {k : CacheConfig} (hk : k.compressed = false) {file : File}
    {s : Presence} {p : Nat} {data : Bytes} : OnDisk k file s p data ↔
      file.readAt (p * k.slotStride) k.slotStride = some (k.sealSlot data) := by
  rw [OnDisk, if_neg (by rw [hk]; decide)]

/-! ### Restarts -/

/-- What the constructor makes of the file. -/
theorem onDisk_reopen {k : CacheConfig} {file : File} {s t : Presence} {p n : Nat} {data : Bytes}
    (h : OnDisk k file t p data) : OnDisk k (reopen k file s n).file t p data := by
  have hfile : (reopen k file s n).file = if k.compressed then file
      else if file.len < n * k.slotStride then file.setLen (n * k.slotStride) else file := by
    unfold CacheFile.reopen
    dsimp only
    split <;> rfl
  rw [hfile]
  cases hk : k.compressed with
  | true => exact h
  | false =>
    rw [onDisk_uncompressed hk] at h ⊢
    simp only [Bool.false_eq_true, if_false]
    split
    · exact readAt_grow (by omega) h
    · exact h

/-- An empty file has no page. -/
theorem Backed.len_pos {k : CacheConfig} {file : File} {s : Presence} {stored : PageMap}
    (h : Backed k file s stored) (hlaid : k.compressed = true → Laid s) {p : Nat}
    (hp : s.isPresent k p = true) : 0 < file.len := by
  obtain ⟨data, -, -, hdisk⟩ := h p hp
  cases hk : k.compressed with
  | true =>
    obtain ⟨e, he, hr⟩ := (onDisk_compressed hk).mp hdisk
    have hlen := (hlaid hk).pos p e he
    have hle := le_len_of_readAt hr hlen
    omega
  | false =>
    have hstride := k.slotStride_pos
    have hle := le_len_of_readAt ((onDisk_uncompressed hk).mp hdisk) hstride
    omega

theorem laid_of_empty {t : Presence} (h : t.index = ∅) : Laid t := by
  have hnone : ∀ p e, t.index.lookup p ≠ some e := fun p e he => by
    rw [h] at he
    cases he
  exact ⟨fun p e he => absurd he (hnone p e), fun p e he => absurd he (hnone p e),
    fun p e he => absurd he (hnone p e), fun p _ e _ _ he => absurd he (hnone p e)⟩

variable {k : CacheConfig} {s : State} {p : Nat} {data : Bytes}

/-- A restart goes on from what was written down. -/
theorem inv_reopen {file : File} (hb : Backed k file s.persisted s.stored)
    (hlaid : k.compressed = true → Laid s.persisted) (n : Nat) :
    Inv k { s with cache := reopen k file s.persisted n } := by
  have hpersisted : Backed k (reopen k file s.persisted n).file s.persisted s.stored := by
    intro p hp
    obtain ⟨data, hst, hps, hdisk⟩ := hb p hp
    exact ⟨data, hst, hps, onDisk_reopen hdisk⟩
  by_cases hlen : file.len = 0
  · -- nothing was written down
    have hnone : ∀ p, s.persisted.isPresent k p ≠ true := fun p hp =>
      absurd (hb.len_pos hlaid hp) (by omega)
    have hempty : (reopen k file s.persisted n).bitmap = (fun _ => false) ∧
        (reopen k file s.persisted n).index = ∅ := by
      unfold CacheFile.reopen
      simp only [if_pos hlen, and_self]
    refine ⟨fun p hp => ?_, hpersisted, fun _ => laid_of_empty hempty.2, hlaid, fun hk p e he => ?_⟩
    · have hbit : (reopen k file s.persisted n).bitmap p = true := by
        unfold Presence.isPresent at hp
        exact (Bool.and_eq_true_iff.mp hp).1
      rw [hempty.1] at hbit
      cases hbit
    · exact absurd ((isPresent_compressed hk).mpr ⟨(hlaid hk).marked p e he, e, he⟩) (hnone p)
  · -- the bitmap is kept, the index only in a compressed cache
    have hkept : (reopen k file s.persisted n).bitmap = s.persisted.bitmap ∧
        (reopen k file s.persisted n).index = (if k.compressed then s.persisted.index else ∅) ∧
        (reopen k file s.persisted n).nextOffset =
          (if k.compressed then s.persisted.nextOffset else 0) := by
      unfold CacheFile.reopen
      simp only [if_neg hlen, and_self]
    have hlaid' : k.compressed = true → Laid (reopen k file s.persisted n).toPresence := by
      intro hk
      obtain ⟨h1, h2, h3⟩ := hkept
      rw [if_pos hk] at h2 h3
      have hl := hlaid hk
      refine ⟨?_, ?_, ?_, ?_⟩
      · rw [h1, h2]
        exact hl.marked
      · rw [h2]
        exact hl.pos
      · rw [h2, h3]
        exact hl.below
      · rw [h2]
        exact hl.apart
    refine ⟨fun p hp => ?_, hpersisted, hlaid', hlaid, fun hk p e he => ?_⟩
    · have hp' : s.persisted.isPresent k p = true := by
        unfold Presence.isPresent at hp ⊢
        rw [hkept.1, hkept.2.1] at hp
        cases hk : k.compressed with
        | true => simpa [hk] using hp
        | false => simpa [hk] using hp
      obtain ⟨data, hst, hps, hdisk⟩ := hpersisted p hp'
      refine ⟨data, hst, hps, ?_⟩
      unfold OnDisk at hdisk ⊢
      rw [hkept.2.1]
      cases hk : k.compressed with
      | true => simpa [hk] using hdisk
      | false => simpa [hk] using hdisk
    · have hoff := hkept.2.2
      rw [if_pos hk] at hoff
      show e.stop ≤ (reopen k file s.persisted n).nextOffset
      rw [hoff]
      exact (hlaid hk).below p e he

/-- The invariant is what a restart needs. -/
theorem Inv.survives (hc : k.codec.codecs.Lawful) (h : Inv k s) : Survives k s := by
  intro n p hp
  obtain ⟨data, hst, hps, hdisk⟩ := (inv_reopen h.persisted h.laidPersisted n).cache p hp
  exact ⟨data, hst, hdisk.readPage hc hps⟩

/-! ### Writes -/

/-- A page write backs the page it writes and keeps the others whose bytes it does not touch. -/
theorem Backed.write {file file' : File} {t t' : Presence} {stored : PageMap}
    (h : Backed k file t stored) (hlen : data.length = k.pageSize)
    (hpresent : ∀ q, q ≠ p → t'.isPresent k q = true → t.isPresent k q = true)
    (hself : t'.isPresent k p = true → OnDisk k file' t' p data)
    (hother : ∀ q d, q ≠ p → t'.isPresent k q = true → OnDisk k file t q d → OnDisk k file' t' q d) :
    Backed k file' t' (Function.update stored p (some data)) := by
  intro q hq
  by_cases hqp : q = p
  · subst hqp
    exact ⟨data, Function.update_self .., hlen, hself hq⟩
  · obtain ⟨d, hst, hps, hdisk⟩ := h q (hpresent q hqp hq)
    exact ⟨d, (Function.update_of_ne hqp ..).trans hst, hps, hother q d hqp hq hdisk⟩

theorem inv_writePage_uncompressed (hs : k.codec.FrameSized) (hk : k.compressed = false)
    (h : Inv k s) (hlen : data.length = k.pageSize) : Inv k (s.writePage k p data) := by
  have hsame : (s.cache.file.writeAt (p * k.slotStride) (k.sealSlot data)).readAt (p * k.slotStride)
      k.slotStride = some (k.sealSlot data) := by
    have hr := readAt_writeAt_same s.cache.file (p * k.slotStride) (k.sealSlot data)
    rwa [length_sealSlot hs hlen] at hr
  have hother : ∀ q d, q ≠ p →
      s.cache.file.readAt (q * k.slotStride) k.slotStride = some (k.sealSlot d) →
      (s.cache.file.writeAt (p * k.slotStride) (k.sealSlot data)).readAt (q * k.slotStride)
        k.slotStride = some (k.sealSlot d) := by
    intro q d hqp hr
    refine readAt_writeAt_disjoint ?_ hr
    rw [length_sealSlot hs hlen]
    exact slots_disjoint hqp
  have hnew : s.writePage k p data = { s with
      cache := { toPresence := s.cache.toPresence.mark p
                 file := s.cache.file.writeAt (p * k.slotStride) (k.sealSlot data) }
      stored := Function.update s.stored p (some data) } := by
    simp [State.writePage, CacheFile.writePage, hk]
  have hcomp : k.compressed ≠ true := by rw [hk]; decide
  rw [hnew]
  refine ⟨?_, ?_, fun hc => absurd hc hcomp, fun hc => absurd hc hcomp, fun hc => absurd hc hcomp⟩
  · refine h.cache.write hlen (fun q hqp hq => ?_) (fun _ => ?_) fun q d hqp _ hd => ?_
    · rw [isPresent_uncompressed hk] at hq ⊢
      have hb : Function.update s.cache.bitmap p true q = true := hq
      rwa [Function.update_of_ne hqp] at hb
    · exact (onDisk_uncompressed hk).mpr hsame
    · exact (onDisk_uncompressed hk).mpr (hother q d hqp ((onDisk_uncompressed hk).mp hd))
  · refine h.persisted.write hlen (fun q _ hq => hq) (fun _ => ?_) fun q d hqp _ hd => ?_
    · exact (onDisk_uncompressed hk).mpr hsame
    · exact (onDisk_uncompressed hk).mpr (hother q d hqp ((onDisk_uncompressed hk).mp hd))

theorem lookup_insertIndex (t : Presence) (p len : Nat) :
    (t.insertIndex p len).index.lookup p = some ⟨t.nextOffset, len⟩ :=
  AList.lookup_insert _

theorem lookup_insertIndex_ne {t : Presence} {q : Nat} (h : q ≠ p) (len : Nat) :
    (t.insertIndex p len).index.lookup q = t.index.lookup q :=
  AList.lookup_insert_ne h

theorem Laid.append {t : Presence} (h : Laid t) {len : Nat} (hlen : 0 < len) :
    Laid ((t.insertIndex p len).mark p) := by
  have hcases : ∀ q e, ((t.insertIndex p len).mark p).index.lookup q = some e →
      (q = p ∧ e = ⟨t.nextOffset, len⟩) ∨ (q ≠ p ∧ t.index.lookup q = some e) := by
    intro q e hq
    by_cases hqp : q = p
    · subst hqp
      exact .inl ⟨rfl, Option.some.inj (hq.symm.trans (lookup_insertIndex ..))⟩
    · exact .inr ⟨hqp, (lookup_insertIndex_ne hqp len).symm.trans hq⟩
  refine ⟨fun q e hq => ?_, fun q e hq => ?_, fun q e hq => ?_, fun q r e e' hqr hq hr => ?_⟩
  · rcases hcases q e hq with ⟨rfl, rfl⟩ | ⟨hqp, hq⟩
    · exact Function.update_self ..
    · exact (Function.update_of_ne hqp ..).trans (h.marked q e hq)
  · rcases hcases q e hq with ⟨rfl, rfl⟩ | ⟨-, hq⟩
    · exact hlen
    · exact h.pos q e hq
  · rcases hcases q e hq with ⟨rfl, rfl⟩ | ⟨-, hq⟩
    · exact Nat.le_refl _
    · exact (h.below q e hq).trans (Nat.le_add_right ..)
  · rcases hcases q e hq with ⟨rfl, rfl⟩ | ⟨-, hq'⟩
    · rcases hcases r e' hr with ⟨rfl, rfl⟩ | ⟨-, hr'⟩
      · exact absurd rfl hqr
      · exact .inr (h.below r e' hr')
    · rcases hcases r e' hr with ⟨rfl, rfl⟩ | ⟨-, hr'⟩
      · exact .inl (h.below q e hq')
      · exact h.apart q r e e' hqr hq' hr'

theorem inv_writePage_compressed (hc : k.codec.codecs.Lawful) (hk : k.compressed = true)
    (h : Inv k s) (hlen : data.length = k.pageSize) (hsafe : s.persisted.isPresent k p = false) :
    Inv k (s.writePage k p data) := by
  have hnew : s.writePage k p data = { s with
      cache := { toPresence := (s.cache.toPresence.insertIndex p (k.sealBlob data).length).mark p
                 file := s.cache.file.writeAt s.cache.nextOffset (k.sealBlob data) }
      stored := Function.update s.stored p (some data) } := by
    simp [State.writePage, CacheFile.writePage, hk]
  -- a blob below the append offset is not touched
  have hkept : ∀ (e : CacheIndexEntry) d, e.stop ≤ s.cache.nextOffset →
      s.cache.file.readAt e.offset e.compressedLen = some (k.sealBlob d) →
      (s.cache.file.writeAt s.cache.nextOffset (k.sealBlob data)).readAt e.offset e.compressedLen =
        some (k.sealBlob d) :=
    fun e d hle hr => readAt_writeAt_disjoint (.inl hle) hr
  rw [hnew]
  refine ⟨?_, ?_, fun _ => (h.laid hk).append (length_sealBlob_pos hc hlen), h.laidPersisted,
    fun _ q e hq => (h.below hk q e hq).trans (Nat.le_add_right ..)⟩
  · refine h.cache.write hlen (fun q hqp hq => ?_) (fun _ => ?_) fun q d hqp _ hd => ?_
    · obtain ⟨hb, e, he⟩ := (isPresent_compressed hk).mp hq
      exact (isPresent_compressed hk).mpr ⟨(Function.update_of_ne hqp ..).symm.trans hb, e,
        (lookup_insertIndex_ne hqp _).symm.trans he⟩
    · exact (onDisk_compressed hk).mpr ⟨_, lookup_insertIndex .., readAt_writeAt_same ..⟩
    · obtain ⟨e, he, hr⟩ := (onDisk_compressed hk).mp hd
      exact (onDisk_compressed hk).mpr ⟨e, (lookup_insertIndex_ne hqp _).trans he,
        hkept e d ((h.laid hk).below q e he) hr⟩
  · refine h.persisted.write hlen (fun q _ hq => hq) (fun hp => ?_) fun q d hqp _ hd => ?_
    · exact absurd (hp.symm.trans hsafe) (by decide)
    · obtain ⟨e, he, hr⟩ := (onDisk_compressed hk).mp hd
      exact (onDisk_compressed hk).mpr ⟨e, he, hkept e d (h.below hk q e he) hr⟩

theorem inv_writePage (hc : k.codec.codecs.Lawful) (hs : k.codec.FrameSized) (h : Inv k s)
    (hlen : data.length = k.pageSize)
    (hsafe : k.compressed = true → s.persisted.isPresent k p = false) :
    Inv k (s.writePage k p data) := by
  cases hk : k.compressed with
  | false => exact inv_writePage_uncompressed hs hk h hlen
  | true => exact inv_writePage_compressed hc hk h hlen (hsafe hk)

theorem inv_install (hc : k.codec.codecs.Lawful) (hs : k.codec.FrameSized) (h : Inv k s)
    {ws : List (Nat × Bytes)} (hlen : ∀ w ∈ ws, w.2.length = k.pageSize)
    (hsafe : k.compressed = true → ∀ w ∈ ws, s.persisted.isPresent k w.1 = false) :
    Inv k (s.installed k ws) := by
  induction ws generalizing s with
  | nil => exact h
  | cons w ws ih =>
    refine ih (inv_writePage hc hs h (hlen w List.mem_cons_self) fun hk => ?_)
      (fun x hx => hlen x (List.mem_cons_of_mem _ hx))
      fun hk x hx => hsafe hk x (List.mem_cons_of_mem _ hx)
    exact hsafe hk w List.mem_cons_self

theorem length_of_mem_writes {ps : List Nat} {w : Nat × Bytes} (h : w ∈ writes k ps data) :
    w.2.length = k.pageSize := by
  obtain ⟨⟨q, i⟩, hmem, rfl⟩ := List.mem_map.mp h
  have hi := (List.getElem?_eq_some_iff.mp (List.mem_zipIdx_iff_getElem?.mp hmem)).1
  rw [List.length_take] at hi
  have hle : (i + 1) * k.pageSize ≤ data.length :=
    (Nat.le_div_iff_mul_le k.pageSize_pos).mp (by omega)
  show (block k.pageSize i data).length = k.pageSize
  rw [length_block]
  rw [Nat.succ_mul] at hle
  omega

theorem persisted_installed (ws : List (Nat × Bytes)) : (s.installed k ws).persisted = s.persisted := by
  induction ws generalizing s with
  | nil => rfl
  | cons w ws ih => exact ih (s := s.writePage k w.1 w.2)

/-! ### Writes that are cut off -/

/-- Fewer pages are present, and those keep their bytes. -/
theorem Backed.restrict {file file' : File} {t t' : Presence} {stored : PageMap}
    (h : Backed k file t stored) (hsub : ∀ p, t'.isPresent k p = true → t.isPresent k p = true)
    (hdisk : ∀ p d, t'.isPresent k p = true → OnDisk k file t p d → OnDisk k file' t' p d) :
    Backed k file' t' stored := by
  intro p hp
  obtain ⟨d, hst, hps, hd⟩ := h p (hsub p hp)
  exact ⟨d, hst, hps, hdisk p d hp hd⟩

theorem readAt_ensureFileLen {f : File} {off n : Nat} {d : Bytes} (needed : Nat)
    (h : f.readAt off n = some d) :
    (ensureFileLen f needed).readAt off n = some d := by
  unfold ensureFileLen
  split
  · exact readAt_grow (by omega) h
  · exact h

/-- The written-down pages after a write that is cut off: in compressed mode it is past their blobs, and else
it is in the slot of its own page. -/
theorem Inv.backed_torn (hs : k.codec.FrameSized) (h : Inv k s) (hlen : data.length = k.pageSize)
    {written : Nat} (hwritten : written < (bytesOf k data).length) (hsafe : TearsNothing k s p data written) :
    Backed k (tornFile k s.cache p data written) s.persisted s.stored := by
  refine h.persisted.restrict (fun q hq => hq) fun q d hq hd => ?_
  have hshort : ((bytesOf k data).take written).length ≤ (bytesOf k data).length := List.length_take_le' ..
  cases hk : k.compressed with
  | true =>
    obtain ⟨e, he, hr⟩ := (onDisk_compressed hk).mp hd
    refine (onDisk_compressed hk).mpr ⟨e, he, ?_⟩
    refine readAt_writeAt_disjoint (.inl ?_) (readAt_ensureFileLen _ hr)
    rw [offsetOf, if_pos hk]
    exact h.below hk q e he
  | false =>
    have hne : ¬ k.compressed = true := by simp [hk]
    have hbytes : bytesOf k data = k.sealSlot data := if_neg hne
    have hoff : offsetOf k s.cache p = p * k.slotStride := if_neg hne
    rw [hbytes, length_sealSlot hs hlen] at hshort hwritten
    refine (onDisk_uncompressed hk).mpr ?_
    have hr := readAt_ensureFileLen (p * k.slotStride + (k.sealSlot data).length)
      ((onDisk_uncompressed hk).mp hd)
    unfold tornFile
    rw [hbytes, hoff]
    by_cases hqp : q = p
    · subst hqp
      refine readAt_writeAt_unchanged ?_ hr
      rw [List.length_take, length_sealSlot hs hlen, Nat.min_eq_left (Nat.le_of_lt hwritten)]
      exact readAt_ensureFileLen _ (hsafe hk hq)
    · refine readAt_writeAt_disjoint ?_ hr
      have hapart : q * k.slotStride + k.slotStride ≤ p * k.slotStride ∨
          p * k.slotStride + k.slotStride ≤ q * k.slotStride := slots_disjoint hqp
      omega

/-! ### Evictions and truncations -/

theorem Laid.restrict {t t' : Presence} (h : Laid t) (hoff : t'.nextOffset = t.nextOffset)
    (hsub : ∀ p e, t'.index.lookup p = some e → t.index.lookup p = some e ∧ t'.bitmap p = true) :
    Laid t' where
  marked p e he := (hsub p e he).2
  pos p e he := h.pos p e (hsub p e he).1
  below p e he := hoff ▸ h.below p e (hsub p e he).1
  apart p q e e' hpq he he' := h.apart p q e e' hpq (hsub p e he).1 (hsub q e' he').1

theorem inv_evict {ps : List Nat} (h : Inv k s) (hsafe : Safe k s (.evict ps)) :
    Inv k { s with cache := s.cache.clearPagesFromDisk k ps } := by
  have hbit : ∀ q, (s.cache.clearPagesFromDisk k ps).bitmap q = true ↔
      s.cache.bitmap q = true ∧ q ∉ ps := by
    intro q
    simp [CacheFile.clearPagesFromDisk]
  cases hk : k.compressed with
  | false =>
    have hcomp : k.compressed ≠ true := by rw [hk]; decide
    have hfile : ∀ q d, q ∉ ps → OnDisk k s.cache.file s.cache.toPresence q d →
        (s.cache.clearPagesFromDisk k ps).file.readAt (q * k.slotStride) k.slotStride =
          some (k.sealSlot d) := by
      intro q d hq hd
      simp only [CacheFile.clearPagesFromDisk, hk, Bool.false_eq_true, if_false]
      exact readAt_foldl_punch hq ((onDisk_uncompressed hk).mp hd)
    refine ⟨?_, ?_, fun hc => absurd hc hcomp, fun hc => absurd hc hcomp, fun hc => absurd hc hcomp⟩
    · refine h.cache.restrict (fun q hq => ?_) fun q d hq hd => ?_
      · rw [isPresent_uncompressed hk] at hq ⊢
        exact ((hbit q).mp hq).1
      · rw [isPresent_uncompressed hk] at hq
        exact (onDisk_uncompressed hk).mpr (hfile q d ((hbit q).mp hq).2 hd)
    · refine h.persisted.restrict (fun q hq => hq) fun q d hq hd => ?_
      refine (onDisk_uncompressed hk).mpr (hfile q d (fun hmem => ?_) ?_)
      · exact absurd (hq.symm.trans (hsafe hk q hmem)) (by decide)
      · exact (onDisk_uncompressed hk).mpr ((onDisk_uncompressed hk).mp hd)
  | true =>
    -- the blobs stay in the file
    have hidx : ∀ q, (s.cache.clearPagesFromDisk k ps).index.lookup q =
        if q ∈ ps then none else s.cache.index.lookup q :=
      fun _ => lookup_clearPagesFromDisk hk
    have hfile : (s.cache.clearPagesFromDisk k ps).file = s.cache.file := by
      simp [CacheFile.clearPagesFromDisk, hk]
    have hsub : ∀ q e, (s.cache.clearPagesFromDisk k ps).index.lookup q = some e →
        s.cache.index.lookup q = some e ∧ q ∉ ps := by
      intro q e he
      rw [hidx] at he
      split at he
      · cases he
      · rename_i hq
        exact ⟨he, hq⟩
    refine ⟨?_, ?_, fun _ => (h.laid hk).restrict rfl fun q e he => ?_, h.laidPersisted, h.below⟩
    · refine h.cache.restrict (fun q hq => ?_) fun q d hq hd => ?_
      · obtain ⟨hb, e, he⟩ := (isPresent_compressed hk).mp hq
        exact (isPresent_compressed hk).mpr ⟨((hbit q).mp hb).1, e, (hsub q e he).1⟩
      · obtain ⟨hb, -⟩ := (isPresent_compressed hk).mp hq
        obtain ⟨e, he, hr⟩ := (onDisk_compressed hk).mp hd
        refine (onDisk_compressed hk).mpr ⟨e, ?_, by rw [hfile]; exact hr⟩
        rw [hidx, if_neg ((hbit q).mp hb).2]
        exact he
    · show Backed k (s.cache.clearPagesFromDisk k ps).file s.persisted s.stored
      rw [hfile]
      exact h.persisted
    · obtain ⟨he', hq⟩ := hsub q e he
      exact ⟨he', (hbit q).mpr ⟨(h.laid hk).marked q e he', hq⟩⟩

theorem inv_truncate {n : Nat} (h : Inv k s) (hsafe : Safe k s (.truncate n)) :
    Inv k { s with cache := s.cache.truncateToPageCount k n } := by
  have hbit : ∀ q, (s.cache.truncateToPageCount k n).bitmap q = true ↔
      s.cache.bitmap q = true ∧ q < n := by
    intro q
    simp [CacheFile.truncateToPageCount, CacheFile.truncateToLen]
  have hfile : ∀ {off len : Nat} {d : Bytes}, off + len ≤ n * k.slotStride →
      s.cache.file.readAt off len = some d →
      (s.cache.truncateToPageCount k n).file.readAt off len = some d :=
    fun hle hr => readAt_setLen hle hr
  cases hk : k.compressed with
  | false =>
    have hcomp : k.compressed ≠ true := by rw [hk]; decide
    have hslot : ∀ q, q < n → q * k.slotStride + k.slotStride ≤ n * k.slotStride := by
      intro q hq
      rw [← Nat.succ_mul]
      exact Nat.mul_le_mul_right _ hq
    refine ⟨?_, ?_, fun hc => absurd hc hcomp, fun hc => absurd hc hcomp, fun hc => absurd hc hcomp⟩
    · refine h.cache.restrict (fun q hq => ?_) fun q d hq hd => ?_
      · rw [isPresent_uncompressed hk] at hq ⊢
        exact ((hbit q).mp hq).1
      · rw [isPresent_uncompressed hk] at hq
        exact (onDisk_uncompressed hk).mpr
          (hfile (hslot q ((hbit q).mp hq).2) ((onDisk_uncompressed hk).mp hd))
    · refine h.persisted.restrict (fun q hq => hq) fun q d hq hd => ?_
      have hqn : q < n := by
        by_contra hge
        exact absurd (hq.symm.trans (hsafe.1 hk q (Nat.le_of_not_lt hge))) (by decide)
      exact (onDisk_uncompressed hk).mpr (hfile (hslot q hqn) ((onDisk_uncompressed hk).mp hd))
  | true =>
    obtain ⟨hlive, hwritten⟩ := hsafe.2 hk
    have hidx : ∀ q, (s.cache.truncateToPageCount k n).index.lookup q =
        if q < n then s.cache.index.lookup q else none :=
      fun _ => lookup_truncateToPageCount hk n
    have hsub : ∀ q e, (s.cache.truncateToPageCount k n).index.lookup q = some e →
        s.cache.index.lookup q = some e ∧ q < n := by
      intro q e he
      rw [hidx] at he
      split at he
      · rename_i hq
        exact ⟨he, hq⟩
      · cases he
    refine ⟨?_, ?_, fun _ => (h.laid hk).restrict rfl fun q e he => ?_, h.laidPersisted, h.below⟩
    · refine h.cache.restrict (fun q hq => ?_) fun q d hq hd => ?_
      · obtain ⟨hb, e, he⟩ := (isPresent_compressed hk).mp hq
        exact (isPresent_compressed hk).mpr ⟨((hbit q).mp hb).1, e, (hsub q e he).1⟩
      · obtain ⟨hb, -⟩ := (isPresent_compressed hk).mp hq
        obtain ⟨e, he, hr⟩ := (onDisk_compressed hk).mp hd
        have hq' := ((hbit q).mp hb).2
        refine (onDisk_compressed hk).mpr ⟨e, ?_, hfile (hlive q e he hq') hr⟩
        rw [hidx, if_pos hq']
        exact he
    · refine h.persisted.restrict (fun q hq => hq) fun q d hq hd => ?_
      obtain ⟨e, he, hr⟩ := (onDisk_compressed hk).mp hd
      exact (onDisk_compressed hk).mpr ⟨e, he, hfile (hwritten q e hq he) hr⟩
    · obtain ⟨he', hq⟩ := hsub q e he
      exact ⟨he', (hbit q).mpr ⟨(h.laid hk).marked q e he', hq⟩⟩

/-! ### Compaction -/

theorem mem_liveEntries {idx : HMap Nat CacheIndexEntry} {e : CacheIndexEntry} :
    (p, e) ∈ liveEntries idx ↔ idx.lookup p = some e := by
  unfold liveEntries
  rw [(List.perm_insertionSort _ _).mem_iff, ← Option.mem_def, AList.mem_lookup_iff]
  simp only [List.mem_map]
  constructor
  · rintro ⟨⟨q, e'⟩, hmem, heq⟩
    cases heq
    exact hmem
  · intro hmem
    exact ⟨⟨p, e⟩, hmem, rfl⟩

theorem nodup_liveEntries (idx : HMap Nat CacheIndexEntry) : ((liveEntries idx).map (·.1)).Nodup := by
  unfold liveEntries
  rw [((List.perm_insertionSort _ _).map _).nodup_iff, List.map_map]
  exact idx.nodupKeys

/-- The blob of a page. -/
def blobOf (k : CacheConfig) (stored : PageMap) (p : Nat) : Bytes :=
  match stored p with
  | some data => k.sealBlob data
  | none => []

/-- Blobs that lie apart and can be read can be packed. -/
theorem packable_liveEntries {idx : HMap Nat CacheIndexEntry} {file : File} {blob : Nat → Bytes}
    (hpos : ∀ p e, idx.lookup p = some e → 0 < e.compressedLen)
    (hapart : ∀ p q e e', p ≠ q → idx.lookup p = some e → idx.lookup q = some e' →
      e.stop ≤ e'.offset ∨ e'.stop ≤ e.offset)
    (hread : ∀ p e, idx.lookup p = some e →
      file.readAt e.offset e.compressedLen = some (blob p)) :
    Packable { file := file } (liveEntries idx) blob := by
  refine ⟨nodup_liveEntries _, ?_, fun _ _ => Nat.zero_le _,
    fun e he => hread e.1 e.2 (mem_liveEntries.mp he)⟩
  have hsort : (liveEntries idx).Pairwise fun a b => a.2.offset ≤ b.2.offset :=
    List.pairwise_insertionSort _ _
  have hne : (liveEntries idx).Pairwise fun a b => a.1 ≠ b.1 :=
    List.pairwise_map.mp (nodup_liveEntries _)
  refine (hsort.and hne).imp_of_mem fun {a b} ha hb hab => ?_
  have hlb := mem_liveEntries.mp hb
  have hpos' := hpos _ _ hlb
  cases hapart a.1 b.1 a.2 b.2 hab.2 (mem_liveEntries.mp ha) hlb with
  | inl hle => exact hle
  | inr hle =>
    have hord := hab.1
    unfold CacheIndexEntry.stop at hle
    omega

/-- The live blobs can be packed. -/
theorem Inv.packable (h : Inv k s) (hk : k.compressed = true) :
    Packable { file := s.cache.file } (liveEntries s.cache.index) (blobOf k s.stored) := by
  have hlaid := h.laid hk
  refine packable_liveEntries hlaid.pos hlaid.apart fun q e hl => ?_
  obtain ⟨data, hst, -, hdisk⟩ :=
    h.cache q ((isPresent_compressed hk).mpr ⟨hlaid.marked _ _ hl, _, hl⟩)
  obtain ⟨e', he', hr⟩ := (onDisk_compressed hk).mp hdisk
  rw [hl] at he'
  cases he'
  rw [blobOf, hst]
  exact hr

theorem blobBytes_append (xs ys : List (Nat × CacheIndexEntry)) :
    blobBytes (xs ++ ys) = blobBytes xs + blobBytes ys := by
  simp [blobBytes]

theorem packed_length (c : CacheFile) :
    c.packed (liveEntries c.index).length =
      (liveEntries c.index).foldl Packing.push { file := c.file } := by
  rw [CacheFile.packed, List.take_length]

/-- Where a compaction puts the blob of a live page. -/
theorem Inv.packed_at (h : Inv k s) (hk : k.compressed = true)
    {pre post : List (Nat × CacheIndexEntry)} {e : CacheIndexEntry}
    (hsplit : liveEntries s.cache.index = pre ++ (p, e) :: post) :
    (s.cache.packed (liveEntries s.cache.index).length).index.lookup p =
        some ⟨blobBytes pre, e.compressedLen⟩ ∧
      (s.cache.packed (liveEntries s.cache.index).length).file.readAt (blobBytes pre)
        e.compressedLen = some (blobOf k s.stored p) := by
  have hpk := h.packable hk
  rw [packed_length, hsplit]
  rw [hsplit] at hpk
  have hspec := hpk.foldl_split
  simp only [Nat.zero_add] at hspec
  exact hspec

theorem Inv.lookup_packed (h : Inv k s) (hk : k.compressed = true) {e : CacheIndexEntry}
    (he : (s.cache.packed (liveEntries s.cache.index).length).index.lookup p = some e) :
    ∃ pre e' post, liveEntries s.cache.index = pre ++ (p, e') :: post ∧
      e = ⟨blobBytes pre, e'.compressedLen⟩ ∧ s.cache.index.lookup p = some e' := by
  rw [packed_length] at he
  obtain ⟨pre, e', post, hsplit, hnew, _⟩ := (h.packable hk).of_lookup_foldl rfl he
  rw [Nat.zero_add] at hnew
  exact ⟨pre, e', post, hsplit, hnew, mem_liveEntries.mp (hsplit ▸ by simp)⟩

theorem Inv.cursor_packed (h : Inv k s) (hk : k.compressed = true) :
    (s.cache.packed (liveEntries s.cache.index).length).cursor = blobBytes (liveEntries s.cache.index) := by
  rw [packed_length, (h.packable hk).cursor_foldl]
  exact Nat.zero_add _

/-- The new blobs lie apart. -/
theorem Inv.laid_compact (h : Inv k s) (hk : k.compressed = true) :
    Laid (s.cache.compactCompressedCache k).toPresence := by
  have hnew : (s.cache.compactCompressedCache k).toPresence = { s.cache.toPresence with
      index := (s.cache.packed (liveEntries s.cache.index).length).index
      nextOffset := (s.cache.packed (liveEntries s.cache.index).length).cursor } := by
    simp [CacheFile.compactCompressedCache, hk]
  have hcursor := h.cursor_packed hk
  have hlaid := h.laid hk
  rw [hnew]
  refine ⟨fun q e he => ?_, fun q e he => ?_, fun q e he => ?_, fun q r e e' hqr he he' => ?_⟩
  · obtain ⟨-, e', -, -, -, hl⟩ := h.lookup_packed hk he
    exact hlaid.marked q e' hl
  · obtain ⟨-, e', -, -, rfl, hl⟩ := h.lookup_packed hk he
    exact hlaid.pos q e' hl
  · obtain ⟨pre, e', post, hsplit, rfl, -⟩ := h.lookup_packed hk he
    show blobBytes pre + e'.compressedLen ≤ (s.cache.packed _).cursor
    rw [hcursor, hsplit, blobBytes_append, blobBytes_cons]
    dsimp only
    omega
  · obtain ⟨pre, x, post, hsplit, rfl, hx⟩ := h.lookup_packed hk he
    obtain ⟨pre', y, post', hsplit', rfl, hy⟩ := h.lookup_packed hk he'
    -- the second page is before or after the first
    have hmem : (r, y) ∈ pre ++ (q, x) :: post := hsplit ▸ mem_liveEntries.mpr hy
    have hoff : ∀ a b, liveEntries s.cache.index = a ++ (r, y) :: b → blobBytes a = blobBytes pre' := by
      intro a b hab
      have h1 := (h.packed_at hk hab).1
      rw [(h.packed_at hk hsplit').1] at h1
      exact (congrArg CacheIndexEntry.offset (Option.some.inj h1)).symm
    rcases List.mem_append.mp hmem with hpre | hpost
    · obtain ⟨a, b, rfl⟩ := List.append_of_mem hpre
      right
      rw [← hoff a (b ++ (q, x) :: post) (by rw [hsplit]; simp), blobBytes_append, blobBytes_cons]
      show blobBytes a + y.compressedLen ≤ blobBytes a + (y.compressedLen + blobBytes b)
      omega
    · rcases List.mem_cons.mp hpost with heq | hpost
      · exact absurd (congrArg Prod.fst heq).symm hqr
      · obtain ⟨a, b, rfl⟩ := List.append_of_mem hpost
        left
        rw [← hoff (pre ++ (q, x) :: a) b (by rw [hsplit]; simp), blobBytes_append, blobBytes_cons]
        show blobBytes pre + x.compressedLen ≤ blobBytes pre + (x.compressedLen + blobBytes a)
        omega

/-- A compaction loses no page. -/
theorem Inv.isPresent_compact (h : Inv k s) (hp : s.cache.isPresent k p = true) :
    (s.cache.compactCompressedCache k).isPresent k p = true := by
  cases hk : k.compressed with
  | false =>
    have hsame : s.cache.compactCompressedCache k = s.cache := by
      simp [CacheFile.compactCompressedCache, hk]
    rw [hsame]
    exact hp
  | true =>
    obtain ⟨hb, e, he⟩ := (isPresent_compressed hk).mp hp
    obtain ⟨pre, post, hsplit⟩ := List.append_of_mem (mem_liveEntries.mpr he)
    have hnew : (s.cache.compactCompressedCache k).index =
        (s.cache.packed (liveEntries s.cache.index).length).index := by
      simp [CacheFile.compactCompressedCache, hk]
    have hbit : (s.cache.compactCompressedCache k).bitmap = s.cache.bitmap := by
      simp [CacheFile.compactCompressedCache, hk]
    rw [isPresent_compressed hk, hbit, hnew]
    exact ⟨hb, _, (h.packed_at hk hsplit).1⟩

/-- A page with no dead space before it is not moved. -/
theorem Inv.stays (h : Inv k s) (hk : k.compressed = true) {e : CacheIndexEntry}
    (hl : s.cache.index.lookup p = some e)
    (hoff : e.offset = blobBytes ((liveEntries s.cache.index).filter fun x => x.2.offset < e.offset)) :
    ∃ pre post, liveEntries s.cache.index = pre ++ (p, e) :: post ∧ e.offset = blobBytes pre := by
  obtain ⟨pre, post, hsplit⟩ := List.append_of_mem (mem_liveEntries.mpr hl)
  have hapart := (h.packable hk).apart
  rw [hsplit, List.pairwise_append] at hapart
  obtain ⟨-, hpost, hpre⟩ := hapart
  have hlaid := h.laid hk
  refine ⟨pre, post, hsplit, hoff.trans (congrArg blobBytes ?_)⟩
  rw [hsplit, List.filter_append, List.filter_cons_of_neg (by simp)]
  have hkeep : pre.filter (fun x => x.2.offset < e.offset) = pre := by
    refine List.filter_eq_self.mpr fun x hx => decide_eq_true ?_
    have hle : x.2.offset + x.2.compressedLen ≤ e.offset := hpre x hx (p, e) List.mem_cons_self
    have hpos := hlaid.pos x.1 x.2 (mem_liveEntries.mp (hsplit ▸ List.mem_append_left _ hx))
    omega
  have hdrop : post.filter (fun x => x.2.offset < e.offset) = [] := by
    refine List.filter_eq_nil_iff.mpr fun x hx => ?_
    have hle : e.offset + e.compressedLen ≤ x.2.offset := (List.pairwise_cons.mp hpost).1 x hx
    simp only [decide_eq_true_eq]
    omega
  rw [hkeep, hdrop, List.append_nil]

/-- A page that is not moved keeps its blob after any number of moves. -/
theorem Inv.readAt_packed (h : Inv k s) (hk : k.compressed = true) {e : CacheIndexEntry}
    {pre post : List (Nat × CacheIndexEntry)}
    (hsplit : liveEntries s.cache.index = pre ++ (p, e) :: post) (hoff : e.offset = blobBytes pre)
    (j : Nat) :
    (s.cache.packed j).file.readAt e.offset e.compressedLen = some (blobOf k s.stored p) := by
  have hpk := h.packable hk
  have htake : Packable { file := s.cache.file } ((liveEntries s.cache.index).take j)
      (blobOf k s.stored) :=
    hpk.sublist (List.take_sublist ..)
  unfold CacheFile.packed
  rw [hsplit] at hpk htake ⊢
  by_cases hj : j ≤ pre.length
  · -- the moves so far are of blobs before it
    rw [List.take_append_of_le_length hj] at htake ⊢
    have hpre := (List.pairwise_append.mp hpk.apart).2.2
    refine htake.readAt_foldl (.inr fun x hx => ?_) (hpk.readable (p, e) (by simp))
    exact hpre x (List.mem_of_mem_take hx) (p, e) List.mem_cons_self
  · obtain ⟨i, hi⟩ : ∃ i, j - pre.length = i + 1 := ⟨j - pre.length - 1, by omega⟩
    rw [List.take_append, List.take_of_length_le (by omega), hi, List.take_succ_cons] at htake ⊢
    have hspec := htake.foldl_split.2
    simp only [Nat.zero_add] at hspec
    rw [hoff]
    exact hspec

/-- The written-down pages of a safe compaction. -/
theorem Inv.backed_packed (h : Inv k s) (hk : k.compressed = true) (hsafe : StaysPacked k s) (j : Nat) :
    Backed k (s.cache.packed j).file s.persisted s.stored := by
  intro q hq
  obtain ⟨data, hst, hlen, hdisk⟩ := h.persisted q hq
  obtain ⟨e, he, -⟩ := (onDisk_compressed hk).mp hdisk
  obtain ⟨hl, hoff⟩ := hsafe q e hq he
  obtain ⟨pre, post, hsplit, hoff'⟩ := h.stays hk hl hoff
  refine ⟨data, hst, hlen, (onDisk_compressed hk).mpr ⟨e, he, ?_⟩⟩
  rw [h.readAt_packed hk hsplit hoff' j, blobOf, hst]

theorem blobBytes_take_le (es : List (Nat × CacheIndexEntry)) {i j : Nat} (h : i ≤ j) :
    blobBytes (es.take i) ≤ blobBytes (es.take j) := by
  obtain ⟨m, rfl⟩ := Nat.exists_eq_add_of_le h
  rw [List.take_add, blobBytes_append]
  exact Nat.le_add_right ..

/-- A move that is cut off stays in the place of its own blob. -/
theorem Inv.backed_tornMove (h : Inv k s) (hk : k.compressed = true) (hsafe : StaysPacked k s)
    (j written : Nat) : Backed k (tornMove s.cache j written) s.persisted s.stored := by
  have hcursor : (s.cache.packed j).cursor = blobBytes ((liveEntries s.cache.index).take j) := by
    have hpk := (h.packable hk).sublist (List.take_sublist j _)
    rw [CacheFile.packed, hpk.cursor_foldl]
    exact Nat.zero_add _
  refine (h.backed_packed hk hsafe j).restrict (fun q hq => hq) fun q d hq hd => ?_
  obtain ⟨e, he, hr⟩ := (onDisk_compressed hk).mp hd
  refine (onDisk_compressed hk).mpr ⟨e, he, ?_⟩
  obtain ⟨hl, hoff⟩ := hsafe q e hq he
  obtain ⟨pre, post, hsplit, hoff'⟩ := h.stays hk hl hoff
  have hpre : pre = (liveEntries s.cache.index).take pre.length := by rw [hsplit, List.take_left']; rfl
  unfold tornMove
  dsimp only
  split
  · exact hr
  · rename_i x hx
    split
    · exact hr
    · rename_i blob hblob
      split
      · exact hr
      · rename_i hmoves
        have hblen : (blob.take written).length ≤ x.2.compressedLen := by
          rw [← length_of_readAt hblob]
          exact List.length_take_le' ..
        have hnext : blobBytes ((liveEntries s.cache.index).take (j + 1)) =
            (s.cache.packed j).cursor + x.2.compressedLen := by
          rw [List.take_add_one, hx, blobBytes_append, hcursor]
          simp
        refine readAt_writeAt_disjoint ?_ hr
        rcases Nat.lt_trichotomy j pre.length with hlt | rfl | hgt
        · -- the blob that moves comes before this one
          have hle := blobBytes_take_le (liveEntries s.cache.index) (show j + 1 ≤ pre.length from hlt)
          rw [← hpre] at hle
          omega
        · -- this one does not move
          rw [hsplit, List.getElem?_append_right (Nat.le_refl _), Nat.sub_self] at hx
          cases hx
          rw [hcursor, ← hpre] at hmoves
          exact absurd hoff'.symm hmoves
        · -- and one that comes after it moves to a place after it
          have hle := blobBytes_take_le (liveEntries s.cache.index) (show pre.length + 1 ≤ j from hgt)
          have hthis : blobBytes ((liveEntries s.cache.index).take (pre.length + 1)) =
              blobBytes pre + e.compressedLen := by
            rw [hsplit, List.take_append, List.take_of_length_le (by omega), Nat.add_sub_cancel_left]
            simp [blobBytes_append]
          rw [hthis] at hle
          omega

theorem inv_compact (h : Inv k s) (hsafe : Safe k s .compact) :
    Inv k { s with cache := s.cache.compactCompressedCache k } := by
  cases hk : k.compressed with
  | false =>
    have hsame : s.cache.compactCompressedCache k = s.cache := by
      simp [CacheFile.compactCompressedCache, hk]
    rw [hsame]
    exact h
  | true =>
    have hnew : s.cache.compactCompressedCache k = { s.cache with
        file := (s.cache.packed (liveEntries s.cache.index).length).file.setLen
          (blobBytes (liveEntries s.cache.index))
        index := (s.cache.packed (liveEntries s.cache.index).length).index
        nextOffset := blobBytes (liveEntries s.cache.index) } := by
      simp [CacheFile.compactCompressedCache, hk, h.cursor_packed hk]
    have hlaid := h.laid_compact hk
    rw [hnew] at hlaid ⊢
    -- an unmoved blob ends inside the packed part
    have hbelow : ∀ q e, s.persisted.index.lookup q = some e →
        e.stop ≤ blobBytes (liveEntries s.cache.index) := by
      intro q e he
      have hq := (isPresent_compressed hk).mpr ⟨(h.laidPersisted hk).marked q e he, e, he⟩
      obtain ⟨hl, hoff⟩ := hsafe hk q e hq he
      obtain ⟨pre, post, hsplit, hoff'⟩ := h.stays hk hl hoff
      rw [hsplit, blobBytes_append, blobBytes_cons]
      show e.offset + e.compressedLen ≤ blobBytes pre + (e.compressedLen + blobBytes post)
      omega
    refine ⟨fun q hq => ?_, ?_, fun _ => hlaid, h.laidPersisted, fun _ => hbelow⟩
    · obtain ⟨hb, e, he⟩ := (isPresent_compressed hk).mp hq
      obtain ⟨pre, e', post, hsplit, rfl, hl⟩ := h.lookup_packed hk he
      obtain ⟨data, hst, hlen, -⟩ := h.cache q ((isPresent_compressed hk).mpr ⟨hb, e', hl⟩)
      have hr := (h.packed_at hk hsplit).2
      rw [blobOf, hst] at hr
      refine ⟨data, hst, hlen, (onDisk_compressed hk).mpr ⟨_, he, readAt_setLen ?_ hr⟩⟩
      rw [hsplit, blobBytes_append, blobBytes_cons]
      show blobBytes pre + e'.compressedLen ≤ blobBytes pre + (e'.compressedLen + blobBytes post)
      omega
    · have hb := h.backed_packed hk (hsafe hk) (liveEntries s.cache.index).length
      refine hb.restrict (fun q hq => hq) fun q d hq hd => ?_
      obtain ⟨e, he, hr⟩ := (onDisk_compressed hk).mp hd
      exact (onDisk_compressed hk).mpr ⟨e, he, readAt_setLen (hbelow q e he) hr⟩

/-! ### Runs -/

theorem inv_cutOff (hs : k.codec.FrameSized) (h : Inv k s) (hlen : data.length = k.pageSize)
    {written n : Nat} {s' : State} (hsafe : TearsNothing k s p data written)
    (hstep : s.cutOff k p data written n = some s') : Inv k s' := by
  unfold State.cutOff at hstep
  split at hstep
  · rename_i hwritten
    cases hstep
    exact inv_reopen (h.backed_torn hs hlen hwritten hsafe) h.laidPersisted n
  · cases hstep

theorem step_inv (hc : k.codec.codecs.Lawful) (hs : k.codec.FrameSized) {e : Event} {s' : State}
    (h : Inv k s) (hsafe : Safe k s e) (hstep : step k s e = some s') : Inv k s' := by
  cases e with
  | write p data =>
    simp only [step] at hstep
    split at hstep
    · cases hstep
      exact inv_writePage hc hs h ‹_› hsafe
    · cases hstep
  | install ps data =>
    cases hstep
    exact inv_install hc hs h (fun w hw => length_of_mem_writes hw) hsafe
  | evict ps =>
    cases hstep
    exact inv_evict h hsafe
  | truncate n =>
    cases hstep
    exact inv_truncate h hsafe
  | compact =>
    cases hstep
    exact inv_compact h hsafe
  | persist =>
    cases hstep
    exact ⟨h.cache, h.cache, h.laid, h.laid, fun hk => (h.laid hk).below⟩
  | restart n =>
    cases hstep
    exact inv_reopen h.persisted h.laidPersisted n
  | stopWrite p data written n =>
    simp only [step] at hstep
    split at hstep
    · exact inv_cutOff hs h ‹_› hsafe hstep
    · cases hstep
  | stopInstall ps data i written n =>
    simp only [step] at hstep
    split at hstep
    · cases hstep
    · rename_i w hw
      have hsized : ∀ x ∈ writes k ps data, x.2.length = k.pageSize := fun x hx => length_of_mem_writes hx
      have hinstalled := inv_install hc hs h (fun x hx => hsized x (List.mem_of_mem_take hx)) hsafe.1
      exact inv_cutOff hs hinstalled (hsized w (List.mem_of_getElem? hw)) (hsafe.2 w hw) hstep
  | stopCompaction j written n =>
    simp only [step] at hstep
    split at hstep
    · rename_i hk
      cases hstep
      exact inv_reopen (h.backed_tornMove hk (hsafe hk) j written) h.laidPersisted n
    · cases hstep

theorem inv_fresh (k : CacheConfig) : Inv k {} := by
  have hnone : ∀ p, ¬ ({} : Presence).isPresent k p = true := by
    intro p hp
    cases hp
  refine ⟨fun p hp => absurd hp (hnone p), fun p hp => absurd hp (hnone p), fun _ => laid_of_empty rfl,
    fun _ => laid_of_empty rfl, fun _ p e he => ?_⟩
  cases he

/-- From an empty cache, in every run whose events are all safe: wherever the process stops, the pages
that the next process takes for present are read as they were stored last. -/
theorem presence_survives_restart (hc : k.codec.codecs.Lawful) (hs : k.codec.FrameSized)
    {es : List Event} {s' : State} (hsafe : Meets (step k) (Safe k) {} es)
    (hrun : run (step k) {} es = some s') : Survives k s' :=
  (run_invariant (fun _ _ _ hi hcond hstep => step_inv hc hs hi hcond hstep) (inv_fresh k) hsafe
    hrun).survives hc

/-! ### A page of 512 bytes -/

namespace Example

/-- No encryption, no compression. -/
def config : CacheConfig := ⟨.plain, 512, false, by decide⟩

/-- A page full of one byte. -/
def page (n : UInt8) : Bytes := List.replicate 512 n

theorem step_write (s : State) (p : Nat) (n : UInt8) :
    step config s (.write p (page n)) = some (s.writePage config p (page n)) := by
  have hlen : (page n).length = config.pageSize := List.length_replicate
  simp only [step, hlen, if_true]

/-- Page 0 is written down. -/
def recorded : State :=
  let s := State.writePage config {} 0 (page 7)
  { s with persisted := s.cache.toPresence }

/-- Page 0 is stored again and page 1 is evicted. -/
def rewritten : State :=
  let s := recorded.writePage config 0 (page 8)
  { s with cache := s.cache.clearPagesFromDisk config [1] }

/-- Page 0 is evicted. -/
def evicted : State := { recorded with cache := recorded.cache.clearPagesFromDisk config [0] }

end Example

/-- Page 0 is found again, with the bytes of the second write. -/
theorem rewritten_page_survives :
    run (step Example.config) {} [.write 0 (Example.page 7), .persist, .write 0 (Example.page 8),
      .evict [1]] = some Example.rewritten ∧
    (Example.rewritten.reopened Example.config 1).isPresent Example.config 0 = true ∧
    Example.rewritten.stored 0 = some (Example.page 8) ∧ Survives Example.config Example.rewritten := by
  have hrun : run (step Example.config) {} [.write 0 (Example.page 7), .persist,
      .write 0 (Example.page 8), .evict [1]] = some Example.rewritten := by
    refine run_cons.mpr ⟨_, Example.step_write .., run_cons.mpr ⟨Example.recorded, rfl, ?_⟩⟩
    exact run_cons.mpr ⟨_, Example.step_write .., rfl⟩
  refine ⟨hrun, by decide +kernel, by decide +kernel,
    presence_survives_restart Codecs.plain_lawful (fun _ h => by cases h) ?_ hrun⟩
  refine .cons (fun h => by cases h) (Example.step_write ..) (.cons trivial rfl (.cons
    (fun h => by cases h) (Example.step_write ..) (.cons (fun _ p hp => ?_) rfl trivial)))
  obtain rfl := List.mem_singleton.mp hp
  rfl

/-- The written-down bitmap still has the evicted page, whose slot is a hole. -/
theorem evicted_page_reads_zeros :
    run (step Example.config) {} [.write 0 (Example.page 7), .persist, .evict [0]] =
      some Example.evicted ∧
    (Example.evicted.reopened Example.config 1).isPresent Example.config 0 = true ∧
    Example.evicted.stored 0 = some (Example.page 7) ∧
    (Example.evicted.reopened Example.config 1).readPage Example.config 0 = .ok (Example.page 0) ∧
    ¬ Survives Example.config Example.evicted := by
  have hstored : Example.evicted.stored 0 = some (Example.page 7) := rfl
  have hread : (Example.evicted.reopened Example.config 1).readPage Example.config 0 =
      .ok (Example.page 0) := by
    decide +kernel
  refine ⟨run_cons.mpr ⟨_, Example.step_write .., rfl⟩, by decide +kernel, hstored, hread,
    fun hsurv => ?_⟩
  obtain ⟨data, hst, hr⟩ := hsurv 1 0 (by decide +kernel)
  rw [hread] at hr
  cases hr
  rw [hstored] at hst
  exact absurd hst (by decide +kernel)

end Turbolite.CacheRestart
