import Mathlib.Data.List.TakeWhile
import Turbolite.Replay

/-!
# Turbolite.ReplayAtomicity

Is a `finalize` that fails without effect? The pre-images cover the pages that were written before the
one that failed, as far as the file had them. They do not cover the page whose write failed, nor a page
that was marked present past the end of the file; and the failures after the pages became visible (the
truncation and the lock of the pending flushes) return without any rollback. `finalize_atomic_iff`
says exactly when a failure leaves nothing behind, or a tainted cache with its log.
-/

namespace Turbolite

open Blocks Results RawFile

namespace Replay

variable (k : CacheConfig) (env : Faults)

/-! ### All or nothing -/

/-- The cached pages, the bitmap, the manifest and the queue are as they were. -/
structure Unchanged (s s' : ReplayContext) : Prop where
  bytes : ∀ q, s.cache.isPresent k q = true →
    (s'.cache.readPage k q).toOption = (s.cache.readPage k q).toOption
  bitmap : s'.cache.bitmap = s.cache.bitmap
  manifest : s'.manifest = s.manifest
  pendingFlushes : s'.pendingFlushes = s.pendingFlushes

/-- Nothing happened and the log is gone, or the cache is tainted and the log is there. -/
def AllOrNothing (s s' : ReplayContext) : Prop :=
  (Unchanged k s s' ∧ s.stagingSeq ∉ s'.stagingDir) ∨
    (s'.tainted = true ∧ s.stagingSeq ∈ s'.stagingDir)

/-- Every failure is all or nothing, or only the bitmap was not persisted. -/
def Atomic (s : ReplayContext) (r : ReplayHandle k.pageSize) : Prop :=
  ∀ s' e, finalize k env s r = (s', .error e) → AllOrNothing k s s' ∨
    ∃ report, finalize k { env with persistBitmap := false } s r = (s', .ok report)

/-! ### When it is -/

/-- Where the slot of a page ends. -/
def slotEnd (q : Nat) : Nat := q * k.slotStride + k.slotStride

/-- The slot of a page as it is in the file. -/
def raw (f : File) (q : Nat) : Bytes := f.range (q * k.slotStride) k.slotStride

/-- What a slot opens to. -/
def openSlot (slot : Bytes) : Option Bytes :=
  ((k.codec.decryptIfNeeded slot []).toOption).map (·.take k.pageSize)

/-- The pre-image of a page can be taken, or there is none to take. -/
def readsBack (s : ReplayContext) (p : Nat) : Bool := (preImage k env s s.cache.file p).toOption.isSome

/-- The loop of step 4 gets past the page. -/
def installs (s : ReplayContext) (p : Nat) : Bool :=
  readsBack k env s p && !s.tainted && !k.compressed && (env.writePage p).isNone

/-- How many bytes of its slot the failed write of the page wrote. -/
def tornAt (s : ReplayContext) (p : Nat) : Option Nat :=
  if readsBack k env s p && !s.tainted && !k.compressed then
    match env.writePage p with
    | some (.write n) => some n
    | _ => none
  else none

variable (s : ReplayContext) (r : ReplayHandle k.pageSize)

/-- The pages written before the failure. -/
def installed : List (Nat × Bytes) := r.pages.takeWhile fun w => installs k env s w.1

/-- The page at which step 4 fails. -/
def failing : Option (Nat × Bytes) := r.pages.find? fun w => !installs k env s w.1

/-- A page that is present is not affected by a failure at page `w`. One that was written before must
have been in the file; the one whose write failed must open to what it was, half written; any other
one must not come to lie inside the file, unless it does not open there. -/
def Spared (w : Nat × Bytes) (q : Nat) : Prop :=
  if q ∈ (installed k env s r).map (·.1) then slotEnd k q ≤ s.cache.file.len
  else
    match (if q = w.1 then tornAt k env s w.1 else none) with
    | some n => openSlot k ((k.sealSlot w.2).take n ++ (raw k s.cache.file q).drop n) =
        if slotEnd k q ≤ s.cache.file.len then openSlot k (raw k s.cache.file q) else none
    | none => slotEnd k q ≤ s.cache.file.len ∨ openSlot k (raw k s.cache.file q) = none ∨
        ∀ p, (p ∈ (installed k env s r).map (·.1) ∨ (p = w.1 ∧ (tornAt k env s p).isSome)) → p < q

/-- There is something to do and the target covers the staged pages. -/
def Runs : Prop :=
  r.maxSqlitePageId ≤ r.newPageCount s.manifest ∧
    ¬ (r.pages = [] ∧ r.newPageCount s.manifest = s.manifest.pageCount)

/-- Shrinking the cache file fails. -/
def truncateFails : Prop :=
  r.newPageCount s.manifest < s.manifest.pageCount ∧ env.setLen = true

/-- The exact condition, for every place where `finalize` can fail. -/
structure Covered : Prop where
  stagingLog : env.stagingLog = some true → env.removeFile = false ∨ s.tainted = true
  rollback : env.stagingLog = none → ∀ w, failing k env s r = some w →
    (∃ p ∈ (installed k env s r).map (·.1), s.cache.isPresent k p = true ∧
      slotEnd k p ≤ s.cache.file.len ∧ (env.rollback p).isSome) ∨
    if env.removeFile then s.tainted = true
    else k.compressed = true ∨ ∀ q, s.cache.isPresent k q = true → Spared k env s r w q
  visible : env.stagingLog = none → failing k env s r = none →
    truncateFails k env s r ∨ s.poisoned = true → s.tainted = true

variable {k env s r}

/-! ### Slots of the file -/

section Slots

variable {f : File} {p q n : Nat} {slot data : Bytes}

theorem slotEnd_le_iff : slotEnd k q ≤ slotEnd k p ↔ q ≤ p := by
  have hpos := k.slotStride_pos
  simp only [slotEnd, ← Nat.succ_mul]
  rw [Nat.mul_le_mul_right_iff hpos]
  exact Nat.succ_le_succ_iff

theorem readPage_eq (hk : k.compressed = false) (c : CacheFile) (q : Nat) :
    c.readPage k q = if slotEnd k q ≤ c.file.len then
        (do let page ← k.codec.decryptIfNeeded (raw k c.file q) []; .ok (page.take k.pageSize))
      else .error (.io .unexpectedEof "failed to fill whole buffer") := by
  have hread : c.file.readAt (q * k.slotStride) k.slotStride =
      if slotEnd k q ≤ c.file.len then some (raw k c.file q) else none := by
    rw [readAt_eq_range]
    simp only [k.slotStride_pos.ne', false_or]
    rfl
  simp only [CacheFile.readPage, hk, Bool.false_eq_true, if_false, hread]
  by_cases hle : slotEnd k q ≤ c.file.len
  · simp only [if_pos hle]
  · simp only [if_neg hle]

theorem readPage_toOption (hk : k.compressed = false) (c : CacheFile) (q : Nat) :
    (c.readPage k q).toOption =
      if slotEnd k q ≤ c.file.len then openSlot k (raw k c.file q) else none := by
  rw [readPage_eq hk]
  split
  · unfold openSlot
    cases k.codec.decryptIfNeeded (raw k c.file q) [] with
    | error e => rfl
    | ok page => rfl
  · rfl

theorem openSlot_sealSlot (hc : k.codec.codecs.Lawful) (hlen : data.length = k.pageSize) :
    openSlot k (k.sealSlot data) = some data := by
  unfold openSlot CacheConfig.sealSlot CodecConfig.decryptIfNeeded
  have htake : data.take k.pageSize = data := List.take_of_length_le hlen.le
  cases k.codec.encryptionKey with
  | none => simp [Except.toOption, htake]
  | some key => simp [hc.decrypt_encrypt, Except.toOption, htake]

theorem raw_writeAt (hlen : slot.length = k.slotStride) :
    raw k (f.writeAt (p * k.slotStride) slot) q = if q = p then slot else raw k f q := by
  split
  · rename_i hq
    rw [hq, raw, ← hlen, range_writeAt]
  · rename_i hq
    refine range_writeAt_disjoint ?_
    rw [hlen]
    exact CacheFile.slots_disjoint hq

theorem slotEnd_le_writeAt (hlen : slot.length = k.slotStride) :
    slotEnd k q ≤ (f.writeAt (p * k.slotStride) slot).len ↔ slotEnd k q ≤ f.len ∨ q ≤ p := by
  rw [← slotEnd_le_iff (k := k) (q := q) (p := p)]
  have hne : slot ≠ [] := List.ne_nil_of_length_pos (hlen ▸ k.slotStride_pos)
  rw [len_writeAt _ _ hne, hlen, le_max_iff]
  rfl

/-- A write that extended the file and stopped after `n` bytes. -/
def tornWrite (k : CacheConfig) (f : File) (p : Nat) (slot : Bytes) (n : Nat) : File :=
  (f.setLen (max f.len (p * k.slotStride + slot.length))).writeAt (p * k.slotStride) (slot.take n)

theorem raw_tornWrite (hlen : slot.length = k.slotStride) :
    raw k (tornWrite k f p slot n) q =
      if q = p then slot.take n ++ (raw k f p).drop n else raw k f q := by
  unfold tornWrite raw
  split
  · rename_i hq
    rw [hq, ← hlen, range_writeAt_take, range_setLen (Nat.le_max_left ..)]
  · rename_i hq
    rw [range_writeAt_disjoint, range_setLen (Nat.le_max_left ..)]
    have hdisj : q * k.slotStride + k.slotStride ≤ p * k.slotStride ∨
        p * k.slotStride + k.slotStride ≤ q * k.slotStride := CacheFile.slots_disjoint hq
    rw [List.length_take, hlen]
    omega

theorem slotEnd_le_tornWrite (hlen : slot.length = k.slotStride) :
    slotEnd k q ≤ (tornWrite k f p slot n).len ↔ slotEnd k q ≤ f.len ∨ q ≤ p := by
  have hlen' : (tornWrite k f p slot n).len = max f.len (slotEnd k p) := by
    unfold tornWrite
    by_cases hnil : slot.take n = []
    · rw [hnil, writeAt_nil, hlen]
      rfl
    · rw [len_writeAt _ _ hnil]
      show max (max f.len (p * k.slotStride + slot.length)) (p * k.slotStride + (slot.take n).length) = _
      rw [List.length_take, hlen, slotEnd]
      omega
  rw [hlen', le_max_iff, slotEnd_le_iff]

end Slots

/-! ### The loop -/

section Loop

/-- The pre-image only depends on the page's own slot. -/
theorem preImage_congr (hk : k.compressed = false) {f g : File} {p : Nat} (hraw : raw k f p = raw k g p)
    (hlen : slotEnd k p ≤ f.len ↔ slotEnd k p ≤ g.len) :
    preImage k env s f p = preImage k env s g p := by
  simp only [preImage, readPage_eq hk, hraw, hlen]

/-- A pre-image that can be taken is the page as it was, if it was in the file. -/
theorem preImage_of_readsBack {p : Nat}
    (h : readsBack k env s p = true) : preImage k env s s.cache.file p = .ok
      (if s.cache.isPresent k p then (s.cache.readPage k p).toOption else none) := by
  unfold readsBack at h
  obtain ⟨pre, hpre⟩ := Option.isSome_iff_exists.mp h
  have hok : preImage k env s s.cache.file p = .ok pre := by
    cases hx : preImage k env s s.cache.file p with
    | error e => rw [hx] at hpre; cases hpre
    | ok a => rw [hx] at hpre; cases hpre; rfl
  rw [hok]
  unfold preImage at hok
  split at hok
  · rename_i hp
    rw [if_pos hp]
    split at hok
    · cases hok
    · split at hok
      · cases hok
      · split at hok
        · rename_i old hold
          have hold' : s.cache.readPage k p = .ok old := hold
          rw [hold']
          cases hok
          rfl
        · rename_i msg hold
          have hold' : s.cache.readPage k p = .error (.io .unexpectedEof msg) := hold
          rw [hold']
          cases hok
          rfl
        · cases hok
  · rename_i hp
    rw [if_neg hp]
    cases hok
    rfl

/-- The pre-image of a page, if step 4 took one. -/
def captured (k : CacheConfig) (s : ReplayContext) (w : Nat × Bytes) : Option (Nat × Bytes) :=
  if s.cache.isPresent k w.1 then ((s.cache.readPage k w.1).toOption).map (w.1, ·) else none

/-- Step 4 after the pages `ws`. -/
structure Wrote (k : CacheConfig) (s : ReplayContext) (ws : List (Nat × Bytes)) (st : Progress) :
    Prop where
  raw_of_mem : ∀ w ∈ ws, raw k st.file w.1 = k.sealSlot w.2
  raw_of_notMem : ∀ q, q ∉ ws.map (·.1) → raw k st.file q = raw k s.cache.file q
  len : ∀ q, slotEnd k q ≤ st.file.len ↔ slotEnd k q ≤ s.cache.file.len ∨ ∃ p ∈ ws.map (·.1), q ≤ p
  preImages : st.preImages = (ws.filterMap (captured k s)).reverse

theorem wrote_nil : Wrote k s [] ⟨s.cache.file, []⟩ where
  raw_of_mem w hw := absurd hw List.not_mem_nil
  raw_of_notMem q _ := rfl
  len q := by simp
  preImages := rfl

variable {ws rest : List (Nat × Bytes)} {st : Progress} {w : Nat × Bytes}

theorem Wrote.snoc (h : Wrote k s ws st) (hs : k.codec.FrameSized) (hsize : w.2.length = k.pageSize)
    (hnew : w.1 ∉ ws.map (·.1)) :
    Wrote k s (ws ++ [w]) (st.next (st.file.writeAt (w.1 * k.slotStride) (k.sealSlot w.2)) w.1
      (if s.cache.isPresent k w.1 then (s.cache.readPage k w.1).toOption else none)) where
  raw_of_mem x hx := by
    rw [Progress.next_file, raw_writeAt (CacheFile.length_sealSlot hs hsize)]
    rcases List.mem_append.mp hx with hx | hx
    · rw [if_neg, h.raw_of_mem x hx]
      intro he
      exact hnew (he ▸ List.mem_map_of_mem hx)
    · rw [List.mem_singleton.mp hx, if_pos rfl]
  raw_of_notMem q hq := by
    rw [List.map_append, List.mem_append, not_or] at hq
    rw [Progress.next_file, raw_writeAt (CacheFile.length_sealSlot hs hsize), if_neg,
      h.raw_of_notMem q hq.1]
    intro he
    exact hq.2 (he ▸ List.mem_singleton_self _)
  len q := by
    rw [Progress.next_file, slotEnd_le_writeAt (CacheFile.length_sealSlot hs hsize), h.len,
      List.map_append]
    simp only [List.mem_append, List.map_cons, List.map_nil, List.mem_singleton, or_assoc, or_and_right,
      exists_or, exists_eq_left]
  preImages := by
    rw [List.filterMap_append, List.reverse_append, ← h.preImages]
    unfold captured Progress.next
    simp only [List.filterMap_cons, List.filterMap_nil]
    cases s.cache.isPresent k w.1 with
    | false => rfl
    | true =>
      cases (s.cache.readPage k w.1).toOption with
      | none => rfl
      | some old => rfl

/-- The file after the write of a page failed. -/
def failedFile (k : CacheConfig) (env : Faults) (s : ReplayContext) (f : File) (w : Nat × Bytes) : File :=
  match tornAt k env s w.1 with
  | some n => tornWrite k f w.1 (k.sealSlot w.2) n
  | none => f

/-- The pages written so far end before the next one. -/
theorem Wrote.preImage (env : Faults) (h : Wrote k s ws st) (hk : k.compressed = false)
    (hlt : ∀ x ∈ ws, x.1 < w.1) :
    preImage k env s st.file w.1 = preImage k env s s.cache.file w.1 := by
  refine preImage_congr hk (h.raw_of_notMem _ fun hmem => ?_) ((h.len _).trans (or_iff_left ?_))
  · obtain ⟨x, hx, he⟩ := List.mem_map.mp hmem
    exact absurd (hlt x hx) (by omega)
  · rintro ⟨p, hp, hle⟩
    obtain ⟨x, hx, rfl⟩ := List.mem_map.mp hp
    exact absurd (hlt x hx) (by omega)

/-- A page the loop gets past. -/
theorem installPages_of_installs (h : Wrote k s ws st) (hlt : ∀ x ∈ ws, x.1 < w.1)
    (hi : installs k env s w.1 = true) : installPages k env s (w :: rest) st =
      installPages k env s rest (st.next (st.file.writeAt (w.1 * k.slotStride) (k.sealSlot w.2)) w.1
        (if s.cache.isPresent k w.1 then (s.cache.readPage k w.1).toOption else none)) := by
  simp only [installs, Bool.and_eq_true, Bool.not_eq_true', Option.isNone_iff_eq_none] at hi
  obtain ⟨⟨⟨hrb, ht⟩, hk⟩, hw⟩ := hi
  have hpre := (h.preImage env hk hlt).trans (preImage_of_readsBack hrb)
  simp only [installPages, hpre, writePageNoVisibility, ht, writeNoVisibility, hk, hw,
    Bool.false_eq_true, if_false]

/-- The page at which the loop fails. -/
theorem installPages_of_fails (hk : k.compressed = false) (h : Wrote k s ws st)
    (hlt : ∀ x ∈ ws, x.1 < w.1) (hi : installs k env s w.1 = false) :
    ∃ e, installPages k env s (w :: rest) st =
      (⟨failedFile k env s st.file w, st.preImages⟩, some e) := by
  have hpre := h.preImage env hk hlt
  cases hrb : readsBack k env s w.1 with
  | false =>
    obtain ⟨e, he⟩ : ∃ e, preImage k env s s.cache.file w.1 = .error e := by
      unfold readsBack at hrb
      cases hx : preImage k env s s.cache.file w.1 with
      | error e => exact ⟨e, rfl⟩
      | ok a => rw [hx] at hrb; cases hrb
    have htorn : tornAt k env s w.1 = none := by simp [tornAt, hrb]
    refine ⟨e, ?_⟩
    simp only [installPages, hpre, he, failedFile, htorn]
  | true =>
    rw [preImage_of_readsBack hrb] at hpre
    cases ht : s.tainted with
    | true =>
      have htorn : tornAt k env s w.1 = none := by simp [tornAt, ht]
      refine ⟨taintedError, ?_⟩
      simp only [installPages, hpre, writePageNoVisibility, ht, if_true, failedFile, htorn]
    | false =>
      cases hw : env.writePage w.1 with
      | none => simp [installs, hrb, ht, hk, hw] at hi
      | some fault =>
        cases fault with
        | encode =>
          have htorn : tornAt k env s w.1 = none := by simp [tornAt, hw]
          refine ⟨.io .other "Encryption failed", ?_⟩
          simp only [installPages, hpre, writePageNoVisibility, ht, writeNoVisibility, hk, hw,
            Bool.false_eq_true, if_false, failedFile, htorn]
        | extend =>
          have htorn : tornAt k env s w.1 = none := by simp [tornAt, hw]
          refine ⟨.io .other "set_len failed", ?_⟩
          simp only [installPages, hpre, writePageNoVisibility, ht, writeNoVisibility, hk, hw,
            Bool.false_eq_true, if_false, failedFile, htorn]
        | write n =>
          have htorn : tornAt k env s w.1 = some n := by simp [tornAt, hrb, ht, hk, hw]
          refine ⟨.io .other "write failed", ?_⟩
          simp only [installPages, hpre, writePageNoVisibility, ht, writeNoVisibility, hk, hw,
            Bool.false_eq_true, if_false, failedFile, htorn, tornWrite]

/-- The loop over the sorted pages: it writes all of them, or those before the first that fails. -/
theorem installPages_spec (env : Faults) (hk : k.compressed = false) (hs : k.codec.FrameSized)
    (hsize : ∀ w ∈ rest, w.2.length = k.pageSize)
    (hsort : (ws ++ rest).Pairwise fun a b => a.1 < b.1) (h : Wrote k s ws st) :
    (rest.find? (fun w => !installs k env s w.1) = none ∧ ∃ st', installPages k env s rest st =
      (st', none) ∧ Wrote k s (ws ++ rest) st') ∨
    ∃ w st₁ e, rest.find? (fun w => !installs k env s w.1) = some w ∧
      Wrote k s (ws ++ rest.takeWhile fun w => installs k env s w.1) st₁ ∧
      installPages k env s rest st = (⟨failedFile k env s st₁.file w, st₁.preImages⟩, some e) := by
  induction rest generalizing ws st with
  | nil => exact .inl ⟨rfl, st, rfl, by rw [List.append_nil]; exact h⟩
  | cons w rest ih =>
    have hlt : ∀ x ∈ ws, x.1 < w.1 :=
      fun x hx => (List.pairwise_append.mp hsort).2.2 x hx w List.mem_cons_self
    cases hi : installs k env s w.1 with
    | false =>
      obtain ⟨e, he⟩ : ∃ e, installPages k env s (w :: rest) st =
          (⟨failedFile k env s st.file w, st.preImages⟩, some e) := installPages_of_fails hk h hlt hi
      refine .inr ⟨w, st, e, by rw [List.find?_cons_of_pos (by simp [hi])], ?_, he⟩
      rw [List.takeWhile_cons_of_neg (by simp [hi]), List.append_nil]
      exact h
    | true =>
      have hnew : w.1 ∉ ws.map (·.1) := by
        intro hmem
        obtain ⟨x, hx, he⟩ := List.mem_map.mp hmem
        exact absurd (hlt x hx) (by omega)
      have hstep := h.snoc hs (hsize w List.mem_cons_self) hnew
      rw [installPages_of_installs h hlt hi, List.find?_cons_of_neg (by simp [hi]),
        List.takeWhile_cons_of_pos (by exact hi)]
      have hrec := ih (fun x hx => hsize x (List.mem_cons_of_mem w hx))
        (by rw [List.append_assoc]; exact hsort) hstep
      rw [List.append_assoc, List.append_assoc] at hrec
      exact hrec

end Loop

/-! ### The rollback -/

section Rollback

variable {f : File} {pres : List (Nat × Bytes)}

theorem rollback_complete_iff (hk : k.compressed = false) :
    (rollbackPreImages k env f pres).2 = [] ↔ ∀ x ∈ pres, env.rollback x.1 = none := by
  induction pres generalizing f with
  | nil => simp [rollbackPreImages]
  | cons x pres ih =>
    obtain ⟨p, old⟩ := x
    rw [List.forall_mem_cons]
    cases hr : env.rollback p with
    | none =>
      simp only [rollbackPreImages, writeNoVisibility, hk, hr, Bool.false_eq_true, if_false, true_and]
      exact ih
    | some fault =>
      cases fault <;>
        simp [rollbackPreImages, writeNoVisibility, hk, hr]

/-- A rollback that went through. -/
theorem rollbackPreImages_spec (hk : k.compressed = false) (hs : k.codec.FrameSized)
    (hsize : ∀ x ∈ pres, x.2.length = k.pageSize) (hnd : (pres.map (·.1)).Nodup)
    (hin : ∀ x ∈ pres, slotEnd k x.1 ≤ f.len) (hr : ∀ x ∈ pres, env.rollback x.1 = none) :
    (∀ q, slotEnd k q ≤ (rollbackPreImages k env f pres).1.len ↔ slotEnd k q ≤ f.len) ∧
    (∀ x ∈ pres, raw k (rollbackPreImages k env f pres).1 x.1 = k.sealSlot x.2) ∧
    ∀ q, q ∉ pres.map (·.1) → raw k (rollbackPreImages k env f pres).1 q = raw k f q := by
  induction pres generalizing f with
  | nil => exact ⟨fun _ => Iff.rfl, fun x hx => absurd hx List.not_mem_nil, fun _ _ => rfl⟩
  | cons x pres ih =>
    obtain ⟨p, old⟩ := x
    obtain ⟨hp, hnd'⟩ := List.nodup_cons.mp hnd
    have hslot := CacheFile.length_sealSlot hs (hsize (p, old) List.mem_cons_self)
    have hend : slotEnd k p ≤ f.len := hin (p, old) List.mem_cons_self
    have hlen : ∀ q, slotEnd k q ≤ (f.writeAt (p * k.slotStride) (k.sealSlot old)).len ↔
        slotEnd k q ≤ f.len := by
      intro q
      rw [slotEnd_le_writeAt hslot]
      exact or_iff_left_of_imp fun hq => (slotEnd_le_iff.mpr hq).trans hend
    have hstep : rollbackPreImages k env f ((p, old) :: pres) =
        rollbackPreImages k env (f.writeAt (p * k.slotStride) (k.sealSlot old)) pres := by
      simp only [rollbackPreImages, writeNoVisibility, hk, hr (p, old) List.mem_cons_self,
        Bool.false_eq_true, if_false]
    obtain ⟨ih1, ih2, ih3⟩ := ih (f := f.writeAt (p * k.slotStride) (k.sealSlot old))
      (fun y hy => hsize y (List.mem_cons_of_mem _ hy)) hnd'
      (fun y hy => (hlen y.1).mpr (hin y (List.mem_cons_of_mem _ hy)))
      (fun y hy => hr y (List.mem_cons_of_mem _ hy))
    rw [hstep]
    refine ⟨fun q => (ih1 q).trans (hlen q), fun y hy => ?_, fun q hq => ?_⟩
    · rcases List.mem_cons.mp hy with rfl | hy
      · rw [ih3 _ hp, raw_writeAt hslot, if_pos rfl]
      · exact ih2 y hy
    · rw [List.map_cons, List.mem_cons, not_or] at hq
      rw [ih3 q hq.2, raw_writeAt hslot, if_neg hq.1]

end Rollback

/-! ### A failure in step 4 -/

section Failure

variable {w : Nat × Bytes} {st : Progress}

/-- A page of the file is a whole page. -/
theorem length_readPage (ho : k.codec.OpenSized) (hk : k.compressed = false) {c : CacheFile} {q : Nat}
    {d : Bytes} (h : (c.readPage k q).toOption = some d) : d.length = k.pageSize := by
  rw [readPage_toOption hk] at h
  split at h
  · have hlen : (raw k c.file q).length = k.slotStride := length_range ..
    unfold openSlot CodecConfig.decryptIfNeeded at h
    unfold CacheConfig.slotStride at hlen
    cases hkey : k.codec.encryptionKey with
    | none =>
      rw [hkey] at h hlen
      cases h
      dsimp only at hlen
      rw [List.length_take]
      omega
    | some key =>
      rw [hkey] at h hlen
      dsimp only at h hlen
      cases hd : k.codec.codecs.decrypt key [] (raw k c.file q) with
      | none => rw [hd] at h; cases h
      | some plain =>
        rw [hd] at h
        cases h
        have hplain := ho key hkey _ _ hd
        rw [List.length_take]
        omega
  · cases h

/-- A page the loop got past was read if the file had it. -/
theorem readPage_of_installs (hk : k.compressed = false) {p : Nat} (hi : installs k env s p = true)
    (hp : s.cache.isPresent k p = true) (hin : slotEnd k p ≤ s.cache.file.len) :
    ∃ old, (s.cache.readPage k p).toOption = some old := by
  simp only [installs, Bool.and_eq_true] at hi
  have hpre := preImage_of_readsBack hi.1.1.1
  rw [preImage, if_pos hp, if_pos hp] at hpre
  split at hpre
  · cases hpre
  · split at hpre
    · cases hpre
    · split at hpre
      · rename_i old hold
        exact ⟨old, by rw [show s.cache.readPage k p = .ok old from hold]; rfl⟩
      · rename_i msg hold
        have heof : s.cache.readPage k p = .error (.io .unexpectedEof msg) := hold
        rw [readPage_eq hk, if_pos hin] at heof
        unfold CodecConfig.decryptIfNeeded at heof
        split at heof
        · cases heof
        · split at heof <;> cases heof
      · cases hpre

theorem installs_of_mem_installed (h : w ∈ installed k env s r) : installs k env s w.1 = true := by
  unfold installed at h
  have hp := List.mem_takeWhile_imp h
  exact hp

theorem mem_captured {ws : List (Nat × Bytes)} {x : Nat × Bytes} :
    x ∈ (ws.filterMap (captured k s)).reverse ↔ x.1 ∈ ws.map (·.1) ∧
      s.cache.isPresent k x.1 = true ∧ (s.cache.readPage k x.1).toOption = some x.2 := by
  rw [List.mem_reverse, List.mem_filterMap]
  constructor
  · rintro ⟨y, hy, hx⟩
    unfold captured at hx
    split at hx
    · rename_i hp
      obtain ⟨old, hold, rfl⟩ := Option.map_eq_some_iff.mp hx
      exact ⟨List.mem_map.mpr ⟨y, hy, rfl⟩, hp, hold⟩
    · cases hx
  · rintro ⟨hx, hp, hold⟩
    obtain ⟨y, hy, he⟩ := List.mem_map.mp hx
    refine ⟨y, hy, ?_⟩
    rw [captured, he, if_pos hp, hold]
    rfl

theorem nodup_captured {ws : List (Nat × Bytes)} (h : ws.Pairwise fun a b => a.1 < b.1) :
    ((ws.filterMap (captured k s)).reverse.map (·.1)).Nodup := by
  rw [List.map_reverse, List.nodup_reverse]
  have hsub : ((ws.filterMap (captured k s)).map (·.1)).Sublist (ws.map (·.1)) := by
    rw [List.map_filterMap]
    clear h
    induction ws with
    | nil => exact List.Sublist.refl _
    | cons x ws ih =>
      rw [List.filterMap_cons]
      split
      · exact ih.cons _
      · rename_i y hy
        obtain ⟨z, hz, rfl⟩ := Option.map_eq_some_iff.mp hy
        unfold captured at hz
        split at hz
        · obtain ⟨old, -, rfl⟩ := Option.map_eq_some_iff.mp hz
          exact ih.cons_cons _
        · cases hz
  refine List.Nodup.sublist hsub ?_
  rw [List.nodup_iff_pairwise_ne, List.pairwise_map]
  exact h.imp fun hlt => Nat.ne_of_lt hlt

variable (hc : k.codec.codecs.Lawful) (hs : k.codec.FrameSized) (ho : k.codec.OpenSized)
  (hk : k.compressed = false) (hw : Wrote k s (installed k env s r) st)

/-- A page that nobody wrote, in a file that may have become longer. -/
theorem untouched_iff {α : Type} {P Q : Prop} [Decidable P] [Decidable Q] {R : Nat → Prop} {q : Nat}
    {x : Option α} (hQ : Q ↔ P ∨ ∃ p, R p ∧ q ≤ p) :
    ((if Q then x else none) = if P then x else none) ↔ P ∨ x = none ∨ ∀ p, R p → p < q := by
  by_cases hP : P
  · simp [hP, hQ.mpr (.inl hP)]
  · by_cases hR : ∃ p, R p ∧ q ≤ p
    · obtain ⟨p, hp, hle⟩ := hR
      rw [if_pos (hQ.mpr (.inr ⟨p, hp, hle⟩)), if_neg hP]
      refine ⟨fun h => .inr (.inl h), ?_⟩
      rintro (h | h | h)
      · exact absurd h hP
      · exact h
      · exact absurd (h p hp) (by omega)
    · rw [if_neg (fun hq => (hQ.mp hq).elim hP hR), if_neg hP]
      refine iff_of_true rfl (.inr (.inr fun p hp => ?_))
      by_contra hlt
      exact hR ⟨p, hp, by omega⟩

include hs hw in
/-- The file at the failure. -/
theorem failedFile_spec (hsize : w.2.length = k.pageSize) (hnew : w.1 ∉ (installed k env s r).map (·.1)) :
    (∀ x ∈ installed k env s r, raw k (failedFile k env s st.file w) x.1 = k.sealSlot x.2) ∧
    (∀ q, q ∉ (installed k env s r).map (·.1) → raw k (failedFile k env s st.file w) q =
      match (if q = w.1 then tornAt k env s w.1 else none) with
      | some n => (k.sealSlot w.2).take n ++ (raw k s.cache.file q).drop n
      | none => raw k s.cache.file q) ∧
    ∀ q, slotEnd k q ≤ (failedFile k env s st.file w).len ↔ slotEnd k q ≤ s.cache.file.len ∨
      ∃ p, (p ∈ (installed k env s r).map (·.1) ∨ (p = w.1 ∧ (tornAt k env s p).isSome)) ∧ q ≤ p := by
  have hslot := CacheFile.length_sealSlot hs hsize
  unfold failedFile
  cases ht : tornAt k env s w.1 with
  | none =>
    refine ⟨hw.raw_of_mem, fun q hq => ?_, fun q => ?_⟩
    · rw [ite_self]
      exact hw.raw_of_notMem q hq
    · rw [hw.len]
      refine or_congr_right ⟨fun ⟨p, hp, hle⟩ => ⟨p, .inl hp, hle⟩, ?_⟩
      rintro ⟨p, hp | ⟨rfl, hsome⟩, hle⟩
      · exact ⟨p, hp, hle⟩
      · rw [ht] at hsome
        cases hsome
  | some n =>
    refine ⟨fun x hx => ?_, fun q hq => ?_, fun q => ?_⟩
    · rw [raw_tornWrite hslot,
        if_neg (fun he : x.1 = w.1 => hnew (he ▸ List.mem_map_of_mem hx))]
      exact hw.raw_of_mem x hx
    · rw [raw_tornWrite hslot]
      by_cases hq' : q = w.1
      · rw [if_pos hq', if_pos hq', hq', hw.raw_of_notMem w.1 hnew]
      · rw [if_neg hq', if_neg hq', hw.raw_of_notMem q hq]
    · rw [slotEnd_le_tornWrite hslot, hw.len, or_assoc]
      refine or_congr_right ⟨?_, ?_⟩
      · rintro (⟨p, hp, hle⟩ | hle)
        · exact ⟨p, .inl hp, hle⟩
        · exact ⟨w.1, .inr ⟨rfl, by rw [ht]; rfl⟩, hle⟩
      · rintro ⟨p, hp | ⟨rfl, -⟩, hle⟩
        · exact .inl ⟨p, hp, hle⟩
        · exact .inr hle

include hc hs ho hk hw in
/-- A page that is present after a complete rollback. -/
theorem readPage_rolledBack (hsize : w.2.length = k.pageSize)
    (hnew : w.1 ∉ (installed k env s r).map (·.1)) (hr : ∀ x ∈ st.preImages, env.rollback x.1 = none)
    {q : Nat} (hq : s.cache.isPresent k q = true) :
    ((({ s.cache with file := (rollbackPreImages k env (failedFile k env s st.file w)
        st.preImages).1 } : CacheFile).readPage k q).toOption = (s.cache.readPage k q).toOption) ↔
      Spared k env s r w q := by
  obtain ⟨hmem, hother, hlen⟩ := failedFile_spec hs hw hsize hnew
  have hpages : (installed k env s r).Pairwise fun a b => a.1 < b.1 :=
    r.pairwise_pages.sublist (List.takeWhile_sublist _)
  rw [hw.preImages] at hr ⊢
  -- the pre-images taken are whole pages, inside the file that the failed install left
  have hpre : ∀ x ∈ ((installed k env s r).filterMap (captured k s)).reverse,
      x.2.length = k.pageSize ∧ slotEnd k x.1 ≤ (failedFile k env s st.file w).len := by
    intro x hx
    obtain ⟨-, -, hread⟩ := mem_captured.mp hx
    refine ⟨length_readPage ho hk hread, (hlen x.1).mpr (.inl ?_)⟩
    rw [readPage_toOption hk] at hread
    split at hread
    · assumption
    · cases hread
  obtain ⟨hlen', hback, hkept⟩ := rollbackPreImages_spec
    (f := failedFile k env s st.file w) hk hs (fun x hx => (hpre x hx).1) (nodup_captured hpages)
    (fun x hx => (hpre x hx).2) hr
  rw [readPage_toOption hk, readPage_toOption hk]
  have hreach := (hlen' q).trans (hlen q)
  unfold Spared
  by_cases hin : q ∈ (installed k env s r).map (·.1)
  · rw [if_pos hin, if_pos (hreach.mpr (.inr ⟨q, .inl hin, Nat.le_refl q⟩))]
    obtain ⟨x, hx, rfl⟩ := List.mem_map.mp hin
    have hi := installs_of_mem_installed hx
    -- a page that was installed: its pre-image is back, if one could be taken
    by_cases hend : slotEnd k x.1 ≤ s.cache.file.len
    · obtain ⟨old, hold⟩ := readPage_of_installs hk hi hq hend
      have hcap := hback (x.1, old) (mem_captured.mpr ⟨hin, hq, hold⟩)
      rw [hcap, openSlot_sealSlot hc (length_readPage ho hk hold), ← hold, readPage_toOption hk]
      simp only [hend]
    · have hnot : x.1 ∉ (((installed k env s r).filterMap (captured k s)).reverse).map (·.1) := by
        intro hmem'
        obtain ⟨y, hy, he⟩ := List.mem_map.mp hmem'
        obtain ⟨-, -, hread⟩ := mem_captured.mp hy
        rw [he, readPage_toOption hk, if_neg hend] at hread
        cases hread
      have hx' : x.2.length = k.pageSize :=
        ReplayHandle.sized_of_mem_pages ((List.takeWhile_sublist _).subset hx)
      rw [hkept x.1 hnot, hmem x hx, openSlot_sealSlot hc hx', if_neg hend]
      simp [hend]
  · have hnot : q ∉ (((installed k env s r).filterMap (captured k s)).reverse).map (·.1) := by
      intro hmem'
      obtain ⟨y, hy, he⟩ := List.mem_map.mp hmem'
      exact hin (he ▸ (mem_captured.mp hy).1)
    rw [if_neg hin, hkept q hnot, hother q hin]
    -- the page of the write that failed, or one that was never reached
    by_cases hqw : q = w.1
    · subst hqw
      simp only [if_true]
      cases ht : tornAt k env s w.1 with
      | some n =>
        rw [if_pos (hreach.mpr (.inr ⟨w.1, .inr ⟨rfl, by rw [ht]; rfl⟩, Nat.le_refl _⟩))]
      | none =>
        exact untouched_iff hreach
    · simp only [if_neg hqw]
      exact untouched_iff hreach

/-- In compressed mode the first page fails, and the file is left alone. -/
theorem installPages_of_compressed (hk : k.compressed = true) {rest : List (Nat × Bytes)} :
    ∃ e, installPages k env s (w :: rest) st = (st, some e) := by
  obtain ⟨p, data⟩ := w
  rw [installPages]
  cases preImage k env s st.file p with
  | error e => exact ⟨e, rfl⟩
  | ok pre =>
    dsimp only [writePageNoVisibility]
    split
    · rename_i f e hw
      split at hw
      · cases hw
        exact ⟨_, rfl⟩
      · rw [writeNoVisibility, if_pos hk] at hw
        cases hw
        exact ⟨_, rfl⟩
    · rename_i f hw
      split at hw
      · cases hw
      · rw [writeNoVisibility, if_pos hk] at hw
        cases hw

end Failure

/-! ### The exact condition -/

section Finalize

/-- The context when step 4 begins. -/
def logged (k : CacheConfig) (s : ReplayContext) (r : ReplayHandle k.pageSize) : ReplayContext :=
  { s with
    stagingSeq := s.stagingSeq + 1
    stagingDir := s.stagingDir.insert s.stagingSeq (r.stagingLog s.manifest s.stagingSeq)
    replayEpoch := s.replayEpoch + 1 }

theorem mem_stagingDir_logged : s.stagingSeq ∈ (logged k s r).stagingDir :=
  AList.mem_insert _ |>.mpr (.inl rfl)

theorem unchanged_refl : Unchanged k s s := ⟨fun _ _ => rfl, rfl, rfl, rfl⟩

theorem installPages_logged {ws : List (Nat × Bytes)} {st : Progress} :
    installPages k env (logged k s r) ws st = installPages k env s ws st := by
  induction ws generalizing st with
  | nil => rfl
  | cons w ws ih =>
    have hpre : preImage k env (logged k s r) st.file w.1 = preImage k env s st.file w.1 := rfl
    simp only [installPages, hpre, ih]
    rfl

/-- The fault of the last step is not looked at before. -/
theorem installPages_persistBitmap {ws : List (Nat × Bytes)} {st : Progress} :
    installPages k { env with persistBitmap := false } s ws st = installPages k env s ws st := by
  induction ws generalizing st with
  | nil => rfl
  | cons w ws ih =>
    have hpre : preImage k { env with persistBitmap := false } s st.file w.1 =
        preImage k env s st.file w.1 := rfl
    simp only [installPages, hpre, ih]
    rfl

theorem rollbackPreImages_persistBitmap {f : File} {pres : List (Nat × Bytes)} :
    rollbackPreImages k { env with persistBitmap := false } f pres = rollbackPreImages k env f pres := by
  induction pres generalizing f with
  | nil => rfl
  | cons x pres ih => simp only [rollbackPreImages, ih]

/-- A handle that has nothing to do, or is refused, leaves the context alone. -/
theorem finalize_of_not_runs (h : ¬ Runs k s r) : (finalize k env s r).1 = s := by
  unfold finalize
  dsimp only
  split
  · rfl
  · rename_i hn
    split
    · rfl
    · rename_i hwork
      exact absurd ⟨by omega, hwork⟩ h

/-- The staging log could not be written. -/
theorem finalize_of_stagingLog (env : Faults) (h : Runs k s r) {left : Bool}
    (hlog : env.stagingLog = some left) : finalize k env s r =
      ({ s with
        stagingSeq := s.stagingSeq + 1
        stagingDir := if left && env.removeFile then
          s.stagingDir.insert s.stagingSeq (r.stagingLog s.manifest s.stagingSeq)
          else s.stagingDir }, .error (.io .other "staging log failed")) := by
  unfold finalize
  dsimp only
  rw [if_neg (by have := h.1; omega), if_neg h.2, hlog]

/-- The staging log is there. -/
theorem finalize_of_logged (env : Faults) (h : Runs k s r) (hlog : env.stagingLog = none) :
    finalize k env s r =
      match installPages k env s r.pages ⟨s.cache.file, []⟩ with
      | (st, some e) => (handleCommitPhaseFailure k env (logged k s r) s.stagingSeq st, .error e)
      | (st, none) =>
        match commit k env (logged k s r) r s.stagingSeq st.file with
        | (s, .error e) => (s, .error e)
        | (s, .ok report) =>
          if env.persistBitmap then (s, .error (.io .other "persist_bitmap failed"))
          else (s, .ok report) := by
  rw [← installPages_logged (r := r)]
  unfold finalize
  dsimp only
  rw [if_neg (by have := h.1; omega), if_neg h.2, hlog]
  rfl

variable {s' : ReplayContext} {e : IoError} {w : Nat × Bytes} {st : Progress}

/-- A failure that does not come from the last step. -/
theorem atomic_iff_of_error (h : finalize k env s r = (s', .error e))
    (h' : finalize k { env with persistBitmap := false } s r = (s', .error e)) :
    Atomic k env s r ↔ AllOrNothing k s s' := by
  constructor
  · intro ha
    rcases ha s' e h with hall | ⟨report, hok⟩
    · exact hall
    · rw [h'] at hok
      cases hok
  · intro hall s'' e'' he
    rw [h] at he
    cases he
    exact .inl hall

/-- With its log still there, only the taint excuses a failure. -/
theorem allOrNothing_of_mem (h : s.stagingSeq ∈ s'.stagingDir) :
    AllOrNothing k s s' ↔ s'.tainted = true :=
  ⟨fun hall => hall.elim (fun hu => absurd h hu.2) And.left, fun ht => .inr ⟨ht, h⟩⟩

theorem allOrNothing_of_notMem (h : s.stagingSeq ∉ s'.stagingDir) :
    AllOrNothing k s s' ↔ Unchanged k s s' :=
  ⟨fun hall => hall.elim And.left fun ht => absurd ht.2 h, fun hu => .inl ⟨hu, h⟩⟩

/-- A rollback that was not complete taints the cache and keeps the log. -/
theorem allOrNothing_of_incomplete (h : (rollbackPreImages k env st.file st.preImages).2 ≠ []) :
    AllOrNothing k s (handleCommitPhaseFailure k env (logged k s r) s.stagingSeq st) := by
  unfold handleCommitPhaseFailure
  dsimp only
  rw [if_neg h]
  exact .inr ⟨rfl, mem_stagingDir_logged⟩

/-- A complete rollback removes the log, and what counts are the bytes. -/
theorem allOrNothing_of_complete (h : (rollbackPreImages k env st.file st.preImages).2 = []) :
    AllOrNothing k s (handleCommitPhaseFailure k env (logged k s r) s.stagingSeq st) ↔
      if env.removeFile then s.tainted = true
      else ∀ q, s.cache.isPresent k q = true →
        (({ s.cache with file := (rollbackPreImages k env st.file st.preImages).1 } : CacheFile).readPage
          k q).toOption = (s.cache.readPage k q).toOption := by
  unfold handleCommitPhaseFailure
  dsimp only
  rw [if_pos h]
  cases hrm : env.removeFile with
  | true =>
    refine (allOrNothing_of_mem ?_).trans (by rfl)
    exact mem_stagingDir_logged
  | false =>
    refine (allOrNothing_of_notMem ?_).trans ?_
    · show s.stagingSeq ∉ AList.erase s.stagingSeq _
      simp
    · rw [if_neg (by decide)]
      exact ⟨Unchanged.bytes, fun hbytes => ⟨hbytes, rfl, rfl, rfl⟩⟩

/-- No page gets past the loop in compressed mode. -/
theorem installed_of_compressed (hk : k.compressed = true) : installed k env s r = [] := by
  unfold installed
  cases r.pages with
  | nil => rfl
  | cons w ws => rw [List.takeWhile_cons_of_neg (by simp [installs, hk])]

/-- A pre-image that is not written back. -/
theorem incomplete_iff (hk : k.compressed = false) (hw : Wrote k s (installed k env s r) st) :
    (∃ x ∈ st.preImages, env.rollback x.1 ≠ none) ↔
      ∃ p ∈ (installed k env s r).map (·.1), s.cache.isPresent k p = true ∧
        slotEnd k p ≤ s.cache.file.len ∧ (env.rollback p).isSome := by
  rw [hw.preImages]
  constructor
  · rintro ⟨x, hx, hr⟩
    obtain ⟨hin, hp, hread⟩ := mem_captured.mp hx
    refine ⟨x.1, hin, hp, ?_, Option.isSome_iff_ne_none.mpr hr⟩
    rw [readPage_toOption hk] at hread
    split at hread
    · assumption
    · cases hread
  · rintro ⟨p, hin, hp, hend, hr⟩
    obtain ⟨y, hy, rfl⟩ := List.mem_map.mp hin
    obtain ⟨old, hold⟩ := readPage_of_installs hk (installs_of_mem_installed hy) hp hend
    exact ⟨(y.1, old), mem_captured.mpr ⟨hin, hp, hold⟩, Option.isSome_iff_ne_none.mp hr⟩

/-- Step 4 in the two modes: what it leaves, and the page at which it failed. -/
theorem installPages_pages (hk : k.compressed = false) (hs : k.codec.FrameSized) :
    (failing k env s r = none ∧ ∃ st, installPages k env s r.pages ⟨s.cache.file, []⟩ = (st, none)) ∨
    ∃ w st e, failing k env s r = some w ∧ Wrote k s (installed k env s r) st ∧
      installPages k env s r.pages ⟨s.cache.file, []⟩ =
        (⟨failedFile k env s st.file w, st.preImages⟩, some e) := by
  have hspec := installPages_spec env hk hs (fun w hw => ReplayHandle.sized_of_mem_pages hw)
    r.pairwise_pages (wrote_nil (s := s))
  rcases hspec with ⟨hnone, st, hst, -⟩ | h
  · exact .inl ⟨hnone, st, hst⟩
  · exact .inr h

/-- A failure in step 4. -/
theorem allOrNothing_of_failing (hc : k.codec.codecs.Lawful) (hs : k.codec.FrameSized)
    (ho : k.codec.OpenSized) (hw : failing k env s r = some w) :
    ∃ st e, installPages k env s r.pages ⟨s.cache.file, []⟩ = (st, some e) ∧
      (AllOrNothing k s (handleCommitPhaseFailure k env (logged k s r) s.stagingSeq st) ↔
        (∃ p ∈ (installed k env s r).map (·.1), s.cache.isPresent k p = true ∧
          slotEnd k p ≤ s.cache.file.len ∧ (env.rollback p).isSome) ∨
        if env.removeFile then s.tainted = true
        else k.compressed = true ∨ ∀ q, s.cache.isPresent k q = true → Spared k env s r w q) := by
  cases hk : k.compressed with
  | true =>
    obtain ⟨x, rest, hpages⟩ : ∃ x rest, r.pages = x :: rest := by
      unfold failing at hw
      cases hp : r.pages with
      | nil => rw [hp] at hw; cases hw
      | cons x rest => exact ⟨x, rest, rfl⟩
    obtain ⟨e, he⟩ : ∃ e, installPages k env s (x :: rest) ⟨s.cache.file, []⟩ =
        (⟨s.cache.file, []⟩, some e) := installPages_of_compressed hk
    refine ⟨⟨s.cache.file, []⟩, e, by rw [hpages, he], (allOrNothing_of_complete rfl).trans ?_⟩
    rw [installed_of_compressed hk]
    simp [rollbackPreImages]
  | false =>
    rcases installPages_pages hk hs with ⟨hnone, -⟩ | ⟨w', st, e, hw', hwrote, hst⟩
    · rw [hw] at hnone
      cases hnone
    · rw [hw] at hw'
      cases hw'
      refine ⟨_, e, hst, ?_⟩
      have hmem : w ∈ r.pages := List.mem_of_find?_eq_some hw
      have hnew : w.1 ∉ (installed k env s r).map (·.1) := by
        intro hin
        obtain ⟨x, hx, he⟩ := List.mem_map.mp hin
        have hfails := List.find?_some hw
        rw [← he, installs_of_mem_installed hx] at hfails
        cases hfails
      rw [← incomplete_iff hk hwrote]
      by_cases hr : ∃ x ∈ st.preImages, env.rollback x.1 ≠ none
      · refine iff_of_true (allOrNothing_of_incomplete ?_) (.inl hr)
        rw [Ne, rollback_complete_iff hk]
        obtain ⟨x, hx, hne⟩ := hr
        exact fun hall => hne (hall x hx)
      · have hall : ∀ x ∈ st.preImages, env.rollback x.1 = none :=
          fun x hx => not_not.mp fun hne => hr ⟨x, hx, hne⟩
        have hdone : (rollbackPreImages k env (failedFile k env s st.file w) st.preImages).2 = [] :=
          (rollback_complete_iff hk).mpr hall
        rw [or_iff_right hr]
        refine allOrNothing_of_complete hdone |>.trans ?_
        cases env.removeFile with
        | true => rfl
        | false =>
          simp only [Bool.false_eq_true, if_false, false_or]
          exact forall₂_congr fun q hq => readPage_rolledBack hc hs ho hk hwrote
            (ReplayHandle.sized_of_mem_pages hmem) hnew hall hq

/-- The failures after step 4 keep the log. -/
theorem commit_error {file : File} (h : commit k env (logged k s r) r s.stagingSeq file =
    (s', .error e)) : s.stagingSeq ∈ s'.stagingDir ∧ s'.tainted = s.tainted := by
  unfold commit at h
  dsimp only at h
  split at h
  · cases h
    exact ⟨mem_stagingDir_logged, rfl⟩
  · split at h
    · cases h
      exact ⟨mem_stagingDir_logged, rfl⟩
    · cases h

/-- They are the truncation and the queue. -/
theorem commit_fails_iff {file : File} :
    (∃ s' e, commit k env (logged k s r) r s.stagingSeq file = (s', .error e)) ↔
      truncateFails k env s r ∨ s.poisoned = true := by
  have hlog : (logged k s r).manifest = s.manifest ∧ (logged k s r).poisoned = s.poisoned := ⟨rfl, rfl⟩
  unfold commit truncateFails
  rw [hlog.1, hlog.2]
  dsimp only
  split
  · rename_i htr
    exact iff_of_true ⟨_, _, rfl⟩ (.inl htr)
  · rename_i htr
    split
    · rename_i hp
      exact iff_of_true ⟨_, _, rfl⟩ (.inr hp)
    · rename_i hp
      refine iff_of_false ?_ (not_or.mpr ⟨htr, hp⟩)
      rintro ⟨s', e, h⟩
      cases h

/-- Step 4 goes through when no page fails. -/
theorem installPages_of_not_failing (hs : k.codec.FrameSized) (h : failing k env s r = none) :
    ∃ st, installPages k env s r.pages ⟨s.cache.file, []⟩ = (st, none) := by
  cases hk : k.compressed with
  | true =>
    have hpages : r.pages = [] := by
      refine List.eq_nil_iff_forall_not_mem.mpr fun w hw => ?_
      have hall := List.find?_eq_none.mp h w hw
      simp [installs, hk] at hall
    exact ⟨_, by rw [hpages]; rfl⟩
  | false =>
    rcases installPages_pages hk hs with ⟨-, hst⟩ | ⟨w, st, e, hw, -⟩
    · exact hst
    · rw [h] at hw
      cases hw

/-- No staging log. -/
theorem atomic_of_stagingLog (hfresh : s.stagingSeq ∉ s.stagingDir) (h : Runs k s r) {left : Bool}
    (hlog : env.stagingLog = some left) :
    Atomic k env s r ↔ (env.stagingLog = some true → env.removeFile = false ∨ s.tainted = true) := by
  have herr := finalize_of_stagingLog env h hlog
  have herr' := finalize_of_stagingLog { env with persistBitmap := false } h hlog
  rw [atomic_iff_of_error herr herr', hlog]
  cases hleft : (left && env.removeFile) with
  | true =>
    obtain ⟨rfl, hrm⟩ := Bool.and_eq_true_iff.mp hleft
    rw [allOrNothing_of_mem (by rw [if_pos rfl]; exact mem_stagingDir_logged)]
    simp [hrm]
  | false =>
    rw [allOrNothing_of_notMem (by rw [if_neg Bool.false_ne_true]; exact hfresh)]
    refine iff_of_true ⟨fun _ _ => rfl, rfl, rfl, rfl⟩ fun htrue => .inl ?_
    cases htrue
    simpa using hleft

/-- A failure in step 4. -/
theorem atomic_of_failing (hc : k.codec.codecs.Lawful) (hs : k.codec.FrameSized)
    (ho : k.codec.OpenSized) (h : Runs k s r) (hlog : env.stagingLog = none)
    (hw : failing k env s r = some w) : Atomic k env s r ↔
      (∃ p ∈ (installed k env s r).map (·.1), s.cache.isPresent k p = true ∧
        slotEnd k p ≤ s.cache.file.len ∧ (env.rollback p).isSome) ∨
      if env.removeFile then s.tainted = true
      else k.compressed = true ∨ ∀ q, s.cache.isPresent k q = true → Spared k env s r w q := by
  obtain ⟨st, e, hst, hall⟩ := allOrNothing_of_failing hc hs ho hw
  have herr := finalize_of_logged env h hlog
  have herr' := finalize_of_logged { env with persistBitmap := false } h hlog
  have hsame : handleCommitPhaseFailure k { env with persistBitmap := false } (logged k s r)
      s.stagingSeq st = handleCommitPhaseFailure k env (logged k s r) s.stagingSeq st := by
    simp only [handleCommitPhaseFailure, rollbackPreImages_persistBitmap]
  rw [hst] at herr
  rw [installPages_persistBitmap, hst] at herr'
  dsimp only at herr herr'
  rw [hsame] at herr'
  rw [atomic_iff_of_error herr herr', hall]

/-- The steps after step 4. -/
theorem atomic_of_not_failing (hs : k.codec.FrameSized) (h : Runs k s r)
    (hlog : env.stagingLog = none) (hw : failing k env s r = none) : Atomic k env s r ↔
      (truncateFails k env s r ∨ s.poisoned = true → s.tainted = true) := by
  obtain ⟨st, hst⟩ := installPages_of_not_failing hs hw
  have heq := finalize_of_logged env h hlog
  have heq' := finalize_of_logged { env with persistBitmap := false } h hlog
  rw [hst] at heq
  rw [installPages_persistBitmap, hst] at heq'
  have hsame : commit k { env with persistBitmap := false } (logged k s r) r s.stagingSeq st.file =
    commit k env (logged k s r) r s.stagingSeq st.file := rfl
  dsimp only at heq heq'
  rw [hsame] at heq'
  cases hcom : commit k env (logged k s r) r s.stagingSeq st.file with
  | mk s' res =>
    rw [hcom] at heq heq'
    cases res with
    | error e =>
      obtain ⟨hmem, htaint⟩ := commit_error hcom
      rw [atomic_iff_of_error heq heq', allOrNothing_of_mem hmem, htaint,
        imp_iff_right (commit_fails_iff.mp ⟨s', e, hcom⟩)]
    | ok report =>
      refine iff_of_true (fun s'' e he => .inr ⟨report, ?_⟩) fun hfails => ?_
      · -- only the last step can still have failed, and it changes nothing
        rw [heq']
        rw [heq] at he
        dsimp only at he
        split at he
        · cases he
          rfl
        · cases he
      · have hcommit : ∃ s'' e, commit k env (logged k s r) r s.stagingSeq st.file = (s'', .error e) :=
          commit_fails_iff.mpr hfails
        obtain ⟨s'', e, he⟩ := hcommit
        rw [hcom] at he
        cases he

/-- `finalize` is all or nothing exactly when every step that fails is covered. -/
theorem finalize_atomic_iff (k : CacheConfig) (env : Faults) (s : ReplayContext)
    (r : ReplayHandle k.pageSize) (hc : k.codec.codecs.Lawful) (hs : k.codec.FrameSized)
    (ho : k.codec.OpenSized) (hfresh : s.stagingSeq ∉ s.stagingDir) :
    Atomic k env s r ↔ (Runs k s r → Covered k env s r) := by
  by_cases hruns : Runs k s r
  · rw [imp_iff_right hruns]
    cases hlog : env.stagingLog with
    | some left =>
      rw [atomic_of_stagingLog hfresh hruns hlog]
      refine ⟨fun hstaging => ⟨hstaging, fun hnone => ?_, fun hnone => ?_⟩, Covered.stagingLog⟩ <;>
      · rw [hlog] at hnone
        cases hnone
    | none =>
      have hvac : env.stagingLog = some true → env.removeFile = false ∨ s.tainted = true := by
        intro h
        rw [hlog] at h
        cases h
      cases hw : failing k env s r with
      | some w =>
        rw [atomic_of_failing hc hs ho hruns hlog hw]
        refine ⟨fun hroll => ⟨hvac, fun _ w' hw' => ?_, fun _ hnone => ?_⟩,
          fun hcov => hcov.rollback hlog w hw⟩
        · rw [hw] at hw'
          cases hw'
          exact hroll
        · rw [hw] at hnone
          cases hnone
      | none =>
        rw [atomic_of_not_failing hs hruns hlog hw]
        refine ⟨fun hvis => ⟨hvac, fun _ w' hw' => ?_, fun _ _ => hvis⟩,
          fun hcov => hcov.visible hlog hw⟩
        rw [hw] at hw'
        cases hw'
  · refine iff_of_true (fun s' e h => .inl ?_) fun h => absurd h hruns
    have hsame : (finalize k env s r).1 = s := finalize_of_not_runs hruns
    rw [h] at hsame
    dsimp only at hsame
    rw [hsame]
    exact .inl ⟨unchanged_refl, hfresh⟩

end Finalize

/-! ### One cached page -/

namespace Example

/-- No encryption, no compression. -/
theorem config_pos : 0 < 512 := by decide

/-- A plain cache of pages of 512 bytes. -/
def config : CacheConfig := ⟨.plain, 512, false, config_pos⟩

/-- A page full of one byte. -/
def page (n : UInt8) : Bytes := List.replicate 512 n

/-- A database of one page, which is cached. -/
def context : ReplayContext where
  cache := CacheFile.writePage config {} 0 (page 7)
  manifest := { version := 1, pageCount := 1, pageSize := 512 }
  vfsPageCount := 1

theorem present_iff {q : Nat} : context.cache.isPresent config q = true ↔ q = 0 := by
  have hempty : ¬ ({} : CacheFile).isPresent config q = true := Bool.false_ne_true
  exact (CacheFile.isPresent_writePage _).trans (or_iff_left hempty)

theorem onDisk_written {data : Bytes} (h : data.length = 512) :
    CacheFile.OnDisk config (CacheFile.writePage config {} 0 data).file
      (CacheFile.writePage config {} 0 data).toPresence 0 data := by
  have hread := readAt_writeAt_same RawFile.empty 0 data
  rw [h] at hread
  unfold CacheFile.OnDisk
  rw [if_neg (by decide)]
  exact hread

/-- SQLite page 1 is replayed. -/
def handle : ReplayHandle 512 where
  staged := AList.insert 0 (page 9) ∅
  maxSqlitePageId := 1
  sized p d h := by
    rw [(ReplayHandle.lookup_single h).2]
    exact List.length_replicate
  below p d h := by
    rw [(ReplayHandle.lookup_single h).1]
    exact Nat.one_pos

/-- The file cannot be extended. -/
def full : Faults := { writePage := fun _ => some .extend }

/-- The write stops after one byte. -/
def torn : Faults := { writePage := fun _ => some (.write 1) }

theorem raw_written {data : Bytes} (h : data.length = 512) :
    raw config (CacheFile.writePage config {} 0 data).file 0 = data := by
  have hrange := range_writeAt RawFile.empty 0 data
  rw [h] at hrange
  exact hrange

/-- The only page fails, and nothing was written before it. -/
theorem finalize_torn : ∃ e, finalize config torn context handle =
    (handleCommitPhaseFailure config torn (logged config context handle) context.stagingSeq
      ⟨tornWrite config context.cache.file 0 (page 9) 1, []⟩, .error e) := by
  have hpages : @ReplayHandle.pages config.pageSize handle = [(0, page 9)] := by decide +kernel
  have hruns : Runs config context handle := ⟨by decide +kernel, by decide +kernel⟩
  have hfails : installs config torn context 0 = false := by decide +kernel
  have htorn : tornAt config torn context 0 = some 1 := by decide +kernel
  obtain ⟨e, hinst⟩ := installPages_of_fails (w := (0, page 9)) rfl
    (wrote_nil (k := config) (s := context)) (fun _ hx => absurd hx List.not_mem_nil) hfails
  have hfile : failedFile config torn context context.cache.file (0, page 9) =
      tornWrite config context.cache.file 0 (page 9) 1 := by
    unfold failedFile
    rw [htorn]
    rfl
  refine ⟨e, ?_⟩
  rw [finalize_of_logged torn hruns rfl, hpages, hinst, hfile]

end Example

open Example

/-- A write that does not reach the file is rolled back. -/
theorem full_disk_is_atomic : context.stagingSeq ∉ context.stagingDir ∧
    (finalize config full context handle).2.toOption.isNone ∧ Atomic config full context handle := by
  have hinst : installed config full context handle = [] := by decide +kernel
  have htorn : ∀ p, tornAt config full context p = none := by
    intro p
    unfold tornAt
    split <;> rfl
  have hfail : (failing config full context handle).isSome := by decide +kernel
  refine ⟨by decide, by decide +kernel, (finalize_atomic_iff config full context handle
    Codecs.plain_lawful (fun _ h => by cases h) (fun _ h => by cases h) (by decide)).mpr
    fun _ => ⟨fun h => (by cases h), fun _ w hw => .inr ?_, fun _ h => ?_⟩⟩
  · refine .inr fun q hq => ?_
    unfold Spared
    rw [hinst, List.map_nil, if_neg List.not_mem_nil, htorn, ite_self, present_iff.mp hq]
    exact .inl (by decide +kernel)
  · rw [h] at hfail
    cases hfail

/-- The page whose write failed is not among the pre-images. -/
theorem torn_page_stays : (finalize config torn context handle).1.tainted = false ∧
    (finalize config torn context handle).1.stagingDir.keys = [] ∧
    (finalize config torn context handle).1.cache.readPage config 0 = .ok (9 :: List.replicate 511 7) ∧
    ¬ Atomic config torn context handle := by
  obtain ⟨e, hfin⟩ := finalize_torn
  have htaint : (finalize config torn context handle).1.tainted = false := by
    rw [hfin]
    rfl
  have hdir : (finalize config torn context handle).1.stagingDir.keys = [] := by
    rw [hfin]
    show ((logged config context handle).stagingDir.erase 0).keys = []
    decide +kernel
  have hread : (finalize config torn context handle).1.cache.readPage config 0 =
      .ok (9 :: List.replicate 511 7) := by
    have hlen : (page 9).length = config.slotStride := List.length_replicate
    have hslot : raw config (tornWrite config context.cache.file 0 (page 9) 1) 0 =
        9 :: List.replicate 511 7 := by
      rw [raw_tornWrite hlen, if_pos rfl, show raw config context.cache.file 0 = page 7 from
        raw_written List.length_replicate]
      decide +kernel
    have hend : slotEnd config 0 ≤ (tornWrite config context.cache.file 0 (page 9) 1).len := by
      decide +kernel
    rw [hfin, readPage_eq rfl]
    refine (if_pos hend).trans ?_
    show Except.ok ((raw config (tornWrite config context.cache.file 0 (page 9) 1) 0).take 512) = _
    rw [hslot]
    decide +kernel
  have hbefore : context.cache.readPage config 0 = .ok (page 7) :=
    (onDisk_written List.length_replicate).readPage Codecs.plain_lawful List.length_replicate
  have herr : (finalize config torn context handle).2.toOption = none := by
    rw [hfin]
    rfl
  refine ⟨htaint, hdir, hread, fun h => ?_⟩
  cases hf : finalize config torn context handle with
  | mk s' res =>
    rw [hf] at htaint hread herr
    cases res with
    | ok report => cases herr
    | error e =>
      rcases h s' e hf with (⟨hu, -⟩ | ⟨ht, -⟩) | ⟨report, hok⟩
      · have hbytes := hu.bytes 0 (present_iff.mpr rfl)
        dsimp only at hread
        rw [hread, hbefore] at hbytes
        exact absurd hbytes (by decide +kernel)
      · rw [htaint] at ht
        cases ht
      · have hsame : finalize config torn context handle = (s', .ok report) := hok
        rw [hf] at hsame
        cases hsame

end Replay

end Turbolite
