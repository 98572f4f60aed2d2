import Turbolite.FlatFile

/-!
# Turbolite.CacheTruncation

`truncate_to_page_count` cuts the cache file to `page_count` slots in every mode. Uncompressed pages
lie in their slots. Compressed blobs lie in the order they were written, and the cut looks at no
offset. The length is a product of 64-bit words, which wraps. `truncation_keeps_iff` says when the pages
below the count are left alone.
-/

namespace Turbolite.CacheTruncation

open RawFile CacheFile

/-- The length the file is cut to. -/
def newLen (k : CacheConfig) (n : Nat) : Nat := n * k.slotStride % 2 ^ 64

/-- `truncate_to_page_count`. `File::set_len` takes a signed length. -/
def truncate (k : CacheConfig) (c : CacheFile) (n : Nat) : IoResult CacheFile :=
  if newLen k n < 2 ^ 63 then .ok (c.truncateToLen k (newLen k n) n)
  else .error (.io .invalidInput "out of range integral type conversion attempted")

/-- The file reaches the end of every blob in the index, and of every slot in use. -/
def Covers (k : CacheConfig) (c : CacheFile) : Prop :=
  if k.compressed then ∀ p e, c.index.lookup p = some e → e.stop ≤ c.file.len
  else ∀ p, c.isPresent k p = true → p * k.slotStride + k.slotStride ≤ c.file.len

/-- What is left of a cache after a truncation to `n` pages. -/
structure Keeps (k : CacheConfig) (c c' : CacheFile) (n : Nat) : Prop where
  kept : ∀ p, p < n → c.isPresent k p = true → c'.isPresent k p = true
  reads : ∀ p, p < n → c.isPresent k p = true → ∀ len data, len ≤ k.pageSize →
    c.readInto k p len = .ok data → c'.readInto k p len = .ok data
  gone : ∀ p, n ≤ p → c'.isPresent k p = false
  covers : Covers k c'

/-- The blob, or the slot, of every page that remains ends below the cut. -/
def EndsBelow (k : CacheConfig) (c : CacheFile) (n : Nat) : Prop :=
  if k.compressed then ∀ p e, p < n → c.index.lookup p = some e → e.stop ≤ newLen k n
  else ∀ p, p < n → c.isPresent k p = true → p * k.slotStride + k.slotStride ≤ newLen k n

variable {k : CacheConfig} {c c' : CacheFile} {p n len : Nat} {data : Bytes}

theorem truncate_eq_ok : truncate k c n = .ok c' ↔
    newLen k n < 2 ^ 63 ∧ c' = c.truncateToLen k (newLen k n) n := by
  unfold truncate
  split
  · rename_i h
    rw [and_iff_right h, Except.ok.injEq, eq_comm]
  · rename_i h
    exact iff_of_false (fun hok => by cases hok) fun hok => h hok.1

theorem newLen_of_lt (h : n * k.slotStride < 2 ^ 64) : newLen k n = n * k.slotStride := Nat.mod_eq_of_lt h

/-- For the page counts of databases this is the truncation of the other modules. -/
theorem truncate_eq_truncateToPageCount (h : n * k.slotStride < 2 ^ 63) :
    truncate k c n = .ok (c.truncateToPageCount k n) := by
  have hlen : newLen k n = n * k.slotStride := newLen_of_lt (by omega)
  unfold truncate
  rw [hlen, if_pos h]
  rfl

/-- Without compression only a product that wraps cuts a page that remains. -/
theorem endsBelow_of_lt (hk : k.compressed = false) (h : n * k.slotStride < 2 ^ 64) : EndsBelow k c n := by
  unfold EndsBelow
  rw [if_neg (by simp [hk]), newLen_of_lt h]
  intro p hp _
  rw [← Nat.succ_mul]
  exact Nat.mul_le_mul_right _ hp

/-- A read looks at the index entry, and at bytes of the file below `stop` only. -/
theorem readInto_truncate_compressed (hk : k.compressed = true) (hp : p < n) {e : CacheIndexEntry}
    (he : c.index.lookup p = some e) (hstop : e.stop ≤ newLen k n) (h : c.readInto k p len = .ok data) :
    (c.truncateToLen k (newLen k n) n).readInto k p len = .ok data := by
  have he' : (c.truncateToLen k (newLen k n) n).index.lookup p = some e := by
    rw [lookup_truncateToLen hk, if_pos hp, he]
  unfold CacheFile.readInto at h ⊢
  rw [if_pos hk] at h ⊢
  simp only [he] at h
  simp only [he']
  cases hread : c.file.readAt e.offset e.compressedLen with
  | none =>
    rw [hread] at h
    cases h
  | some blob =>
    have hread' : (c.truncateToLen k (newLen k n) n).file.readAt e.offset e.compressedLen = some blob :=
      readAt_setLen hstop hread
    rw [hread] at h
    rw [hread']
    exact h

theorem readInto_truncate_uncompressed (hk : k.compressed = false)
    (hslot : p * k.slotStride + k.slotStride ≤ newLen k n)
    (hlen : len ≤ k.pageSize) (h : c.readInto k p len = .ok data) :
    (c.truncateToLen k (newLen k n) n).readInto k p len = .ok data := by
  have hne : ¬ k.compressed = true := by simp [hk]
  unfold CacheFile.readInto at h ⊢
  rw [if_neg hne] at h ⊢
  cases hkey : k.codec.encryptionKey with
  | none =>
    -- the buffer is filled from the slot itself
    simp only [hkey] at h ⊢
    have hstride : k.slotStride = k.pageSize := by
      unfold CacheConfig.slotStride
      rw [hkey]
    cases hread : c.file.readAt (p * k.pageSize) len with
    | none =>
      rw [hread] at h
      cases h
    | some page =>
      have hle : p * k.pageSize + len ≤ newLen k n := by
        rw [hstride] at hslot
        omega
      have hread' : (c.truncateToLen k (newLen k n) n).file.readAt (p * k.pageSize) len = some page :=
        readAt_setLen hle hread
      rw [hread] at h
      rw [hread']
      exact h
  | some key =>
    simp only [hkey] at h ⊢
    cases hread : c.file.readAt (p * k.slotStride) k.slotStride with
    | none =>
      rw [hread] at h
      cases h
    | some frame =>
      have hread' : (c.truncateToLen k (newLen k n) n).file.readAt (p * k.slotStride) k.slotStride =
          some frame := readAt_setLen hslot hread
      rw [hread] at h
      rw [hread']
      exact h

/-- After the cut the file reaches as far as it must exactly when nothing that remains ended past it. -/
theorem covers_truncate_iff : Covers k (c.truncateToLen k (newLen k n) n) ↔ EndsBelow k c n := by
  unfold Covers EndsBelow
  split
  · rename_i hk
    constructor
    · intro h p e hp he
      refine h p e ?_
      rw [lookup_truncateToLen hk, if_pos hp, he]
    · intro h p e he
      rw [lookup_truncateToLen hk] at he
      split at he
      · rename_i hp
        exact h p e hp he
      · cases he
  · constructor
    · intro h p hp hpres
      exact h p ((isPresent_truncateToLen _ n).mpr ⟨hpres, hp⟩)
    · intro h p hpres
      obtain ⟨hpres, hp⟩ := (isPresent_truncateToLen _ n).mp hpres
      exact h p hp hpres

/-- A truncation of the cache keeps what remains exactly when no blob, and without compression no slot, of a
remaining page ends past the cut. -/
theorem truncation_keeps_iff (k : CacheConfig) (c : CacheFile) (n : Nat) :
    (∀ c', truncate k c n = .ok c' → Keeps k c c' n) ↔ (newLen k n < 2 ^ 63 → EndsBelow k c n) := by
  constructor
  · intro h hlen
    exact covers_truncate_iff.mp (h _ (truncate_eq_ok.mpr ⟨hlen, rfl⟩)).covers
  · intro h c' hc'
    obtain ⟨hlen, rfl⟩ := truncate_eq_ok.mp hc'
    have hends := h hlen
    refine ⟨fun p hp hpres => ?_, fun p hp hpres len data hle hread => ?_, fun p hp => ?_,
      covers_truncate_iff.mpr hends⟩
    · exact (isPresent_truncateToLen _ n).mpr ⟨hpres, hp⟩
    · unfold EndsBelow at hends
      cases hk : k.compressed with
      | false =>
        rw [if_neg (by simp [hk])] at hends
        exact readInto_truncate_uncompressed hk (hends p hp hpres) hle hread
      | true =>
        rw [if_pos hk] at hends
        obtain ⟨_, e, he⟩ := (isPresent_compressed hk).mp hpres
        exact readInto_truncate_compressed hk hp he (hends p e hp he) hread
    · rw [Bool.eq_false_iff]
      intro hpres
      have hlt := ((isPresent_truncateToLen _ n).mp hpres).2
      omega

namespace Example

theorem config_pos : 0 < 64 := by decide

/-- Compressed, with a codec that leaves the pages as they are. -/
def config : CacheConfig := ⟨.plain, 64, true, config_pos⟩

/-- Page 0 was written again after page 1, so its blob is the third in the file. -/
def rewritten : CacheFile :=
  let c := ({} : CacheFile).writePage config 0 (List.replicate 64 1)
  let c := c.writePage config 1 (List.replicate 64 2)
  c.writePage config 0 (List.replicate 64 3)

end Example

open Turbolite.CacheTruncation.Example

/-- Before the third write nothing is lost. -/
example : EndsBelow config (({} : CacheFile).writePage config 0 (List.replicate 64 1)) 1 := by
  have hcompressed : config.compressed = true := rfl
  rw [EndsBelow, if_pos hcompressed]
  intro p e hp he
  obtain rfl : p = 0 := by omega
  obtain rfl : e = ⟨0, 64⟩ := by
    have hlookup : (({} : CacheFile).writePage config 0 (List.replicate 64 1)).index.lookup 0 =
        some ⟨0, 64⟩ := by decide +kernel
    exact Option.some.inj (he.symm.trans hlookup)
  decide

/-- Two pages are truncated to two. Page 0 is still present, and its read ends past the file. -/
theorem truncation_cuts_blob : ∃ c', truncate config rewritten 2 = .ok c' ∧ ¬ Keeps config rewritten c' 2 ∧
    rewritten.isPresent config 0 = true ∧
    rewritten.readInto config 0 64 = .ok (List.replicate 64 3) ∧
    c'.isPresent config 0 = true ∧
    c'.readInto config 0 64 = .error (.io .unexpectedEof "failed to fill whole buffer") := by
  have hpres : rewritten.isPresent config 0 = true := by decide +kernel
  have hread : rewritten.readInto config 0 64 = .ok (List.replicate 64 3) := by decide +kernel
  have hcut : (rewritten.truncateToLen config 128 2).readInto config 0 64 =
      .error (.io .unexpectedEof "failed to fill whole buffer") := by decide +kernel
  refine ⟨rewritten.truncateToLen config 128 2, rfl, fun h => ?_, hpres, hread, by decide +kernel, hcut⟩
  have hkept := h.reads 0 (by decide) hpres 64 (List.replicate 64 3) (by decide) hread
  rw [hcut] at hkept
  cases hkept

end Turbolite.CacheTruncation
