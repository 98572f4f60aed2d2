import Turbolite.Passthrough

/-!
# Turbolite.NonceExtents

When an encrypted WAL or journal file reads as a plain one. Every byte of the file is under the pad of
the write it came from, and a read takes the pad of one extent, so it is right exactly where the two
agree (`read_eq_plain_iff`). The extent with the largest start is the newest one on a byte as long as
every record was appended and no write ended inside an older extent that it does not start after
(`durable_range_decrypts`).
-/

namespace Turbolite

open Blocks RawFile Runs

namespace Passthrough

variable {keystream : Nat → Nat → UInt8}

/-- The pad of a byte; bytes that no write produced have none. -/
def pad (keystream : Nat → Nat → UInt8) : Option (Nat × Nat) → Nat → UInt8
  | some (start, nonce), i => keystream nonce (i - start)
  | none, _ => 0

/-- The file is the plain one under the pads of its bytes. -/
structure Sealed (keystream : Nat → Nat → UInt8) (s : State) : Prop where
  len : s.data.len = s.plain.len
  byte : ∀ i, s.data.byte i = s.plain.byte i ^^^ pad keystream (s.origin i) i

theorem length_ctrXorAt (data : Bytes) (nonce skip : Nat) :
    (ctrXorAt keystream data nonce skip).length = data.length := by
  simp [ctrXorAt]

theorem ctrXorAt_eq_nil {data : Bytes} {nonce skip : Nat} :
    ctrXorAt keystream data nonce skip = [] ↔ data = [] := by
  rw [← List.length_eq_zero_iff, length_ctrXorAt, List.length_eq_zero_iff]

theorem getD_ctrXorAt {data : Bytes} {nonce skip i : Nat} (hi : i < data.length) :
    (ctrXorAt keystream data nonce skip).getD i 0 = data.getD i 0 ^^^ keystream nonce (skip + i) := by
  simp [ctrXorAt, List.getD_eq_getElem?_getD, hi]

theorem sealed_step {s s' : State} {e : Event} (h : Sealed keystream s)
    (hs : step keystream s e = some s') : Sealed keystream s' := by
  cases e with
  | write offset buf nonce =>
    simp only [step] at hs
    split at hs
    · cases hs
      refine ⟨?_, fun i => ?_⟩
      · simp only [File.writeAt, length_ctrXorAt, ctrXorAt_eq_nil, h.len]
      · simp only [File.writeAt, length_ctrXorAt]
        split
        · rename_i hin
          rw [getD_ctrXorAt (by omega), Nat.zero_add]
          rfl
        · exact h.byte i
    · cases hs
  | commit | fail n =>
    simp only [step] at hs
    split at hs
    · cases hs
      exact ⟨h.len, h.byte⟩
    · cases hs
  | setLen size =>
    simp only [step] at hs
    split at hs
    · cases hs
      refine ⟨rfl, fun i => ?_⟩
      simp only [File.setLen]
      split
      · exact h.byte i
      · exact (UInt8.xor_zero).symm
    · cases hs
  | reopen n compacts =>
    cases hs
    exact ⟨h.len, h.byte⟩

theorem sealed_run {es : List Event} {s : State} (hrun : run (step keystream) {} es = some s) :
    Sealed keystream s :=
  run_preserves (fun _ _ _ h hs => sealed_step h hs) ⟨rfl, fun _ => UInt8.xor_zero.symm⟩ hrun

/-! ### Lookups -/

theorem lookup_eq_some {entries : List Extent} {offset len : Nat} {e : Extent}
    (h : NonceMap.lookup entries offset len = some e) :
    e ∈ entries ∧ e.start ≤ offset ∧ e.Reaches (offset + len) := by
  have hmem := List.mem_of_find?_eq_some h
  have hp := List.find?_some h
  exact ⟨List.mem_reverse.mp hmem, of_decide_eq_true hp⟩

theorem chosen_le (s : State) (offset len : Nat) : (s.chosen offset len).1 ≤ offset := by
  unfold State.chosen
  split
  · rename_i e he
    exact (lookup_eq_some he).2.1
  · exact Nat.le_refl _

theorem xor_eq_iff {a b c d : UInt8} (h : a = b ^^^ c) : a ^^^ d = b ↔ c = d := by
  subst h
  rw [UInt8.xor_assoc]
  constructor
  · intro heq
    have hz : c ^^^ d = 0 := by
      have hx := congrArg (b ^^^ ·) heq
      simpa [← UInt8.xor_assoc] using hx
    have hx := congrArg (· ^^^ d) hz
    simpa [UInt8.xor_assoc] using hx
  · rintro rfl
    rw [UInt8.xor_self, UInt8.xor_zero]

/-- After every run, a read inside the file returns the bytes of the plain file exactly if each byte is
under the pad that the read takes off. -/
theorem read_eq_plain_iff {es : List Event} {s : State} (hrun : run (step keystream) {} es = some s)
    {offset len : Nat} (hin : offset + len ≤ s.data.len) :
    s.readExactAt keystream offset len = s.plainReadExactAt offset len ↔
      ∀ i, offset ≤ i → i < offset + len →
        pad keystream (s.origin i) i = pad keystream (some (s.chosen offset len)) i := by
  have hsealed := sealed_run hrun
  have hle := chosen_le s offset len
  obtain ⟨start, nonce, hc⟩ : ∃ start nonce, s.chosen offset len = (start, nonce) := ⟨_, _, rfl⟩
  rw [hc] at hle ⊢
  have hread : s.readExactAt keystream offset len = .ok ((List.range len).map fun i =>
      s.data.byte (offset + i) ^^^ keystream nonce (offset - start + i)) := by
    unfold State.readExactAt
    rw [readAt_of_le hin, hc]
    simp only [ctrXorAt, List.length_map, List.length_range]
    refine congrArg Except.ok (List.map_congr_left fun i hi => ?_)
    rw [List.mem_range] at hi
    simp [List.getD_eq_getElem?_getD, hi]
  have hplain : s.plainReadExactAt offset len =
      .ok ((List.range len).map fun i => s.plain.byte (offset + i)) := by
    unfold State.plainReadExactAt
    rw [readAt_of_le (hsealed.len ▸ hin)]
  have hbyte : ∀ i, s.data.byte (offset + i) ^^^ keystream nonce (offset - start + i) =
      s.plain.byte (offset + i) ↔
        pad keystream (s.origin (offset + i)) (offset + i) = pad keystream (some (start, nonce)) (offset + i) := by
    intro i
    have hskip : offset - start + i = offset + i - start := by
      have hle : start ≤ offset := hle
      omega
    rw [hskip]
    exact xor_eq_iff (hsealed.byte (offset + i))
  rw [hread, hplain, Except.ok.injEq, List.map_inj_left]
  constructor
  · intro h i h₁ h₂
    have hi := (hbyte (i - offset)).mp (h (i - offset) (List.mem_range.mpr (by omega)))
    rwa [Nat.add_sub_cancel' h₁] at hi
  · intro h i hi
    rw [List.mem_range] at hi
    exact (hbyte i).mpr (h _ (Nat.le_add_right _ _) (by omega))

namespace Example

/-- A keystream in which every nonce and offset tells. -/
def stream (nonce i : Nat) : UInt8 := UInt8.ofNat (31 * nonce + 7 * i + 1)

/-- Four bytes are written. -/
def wrote : List Event := [.write 0 [1, 2, 3, 4] 5, .commit]

/-- The first of them is written again. -/
def rewrote : List Event := wrote ++ [.write 0 [9] 6, .commit]

end Example

/-- A read inside the one extent. -/
theorem inner_read_is_plain : ∃ s, run (step Example.stream) {} Example.wrote = some s ∧
    2 + 2 ≤ s.data.len ∧ s.readExactAt Example.stream 2 2 = s.plainReadExactAt 2 2 := by
  have hrun : (run (step Example.stream) {} Example.wrote).map
      (fun s => (s.data.len, s.chosen 2 2, s.origin 2, s.origin 3)) =
      some (4, (0, 5), some (0, 5), some (0, 5)) := by decide +kernel
  obtain ⟨s, hs, heq⟩ := Option.map_eq_some_iff.mp hrun
  obtain ⟨hlen, hchosen, h₂, h₃⟩ : s.data.len = 4 ∧ s.chosen 2 2 = (0, 5) ∧
      s.origin 2 = some (0, 5) ∧ s.origin 3 = some (0, 5) := by simpa using heq
  have hin : 2 + 2 ≤ s.data.len := hlen.ge
  refine ⟨s, hs, hin, (read_eq_plain_iff hs hin).mpr fun i hi hi' => ?_⟩
  obtain rfl | rfl : i = 2 ∨ i = 3 := by omega
  · rw [h₂, hchosen]
  · rw [h₃, hchosen]

/-- The shorter record replaces the longer one, and the rest of the old extent has no nonce. -/
theorem shorter_rewrite_garbles_tail : ∃ s, run (step Example.stream) {} Example.rewrote = some s ∧
    (s.readExactAt Example.stream 2 2).toOption = some [150, 243] ∧
    (s.plainReadExactAt 2 2).toOption = some [3, 4] ∧
    s.readExactAt Example.stream 2 2 ≠ s.plainReadExactAt 2 2 := by
  have hrun : (run (step Example.stream) {} Example.rewrote).map
      (fun s => ((s.readExactAt Example.stream 2 2).toOption, (s.plainReadExactAt 2 2).toOption)) =
      some (some [150, 243], some [3, 4]) := by decide +kernel
  obtain ⟨s, hs, heq⟩ := Option.map_eq_some_iff.mp hrun
  obtain ⟨hread, hplain⟩ : (s.readExactAt Example.stream 2 2).toOption = some [150, 243] ∧
      (s.plainReadExactAt 2 2).toOption = some [3, 4] := Prod.ext_iff.mp heq
  refine ⟨s, hs, hread, hplain, fun hsame => ?_⟩
  rw [hsame, hplain] at hread
  cases hread

/-! ### The map -/

/-- In the order of the starts, one entry for each. -/
def Sorted (entries : List Extent) : Prop := entries.Pairwise fun e e' => e.start < e'.start

theorem mem_applyRecord {entries : List Extent} {r e : Extent} :
    e ∈ NonceMap.applyRecord entries r ↔
      e = r ∨ e ∈ entries ∧ ¬ r.Covers e ∧ e.start ≠ r.start := by
  simp only [NonceMap.applyRecord, List.mem_append, List.mem_cons, List.mem_filter, decide_eq_true_eq]
  constructor
  · rintro (⟨h, -⟩ | rfl | ⟨h, -⟩)
    · exact .inr h
    · exact .inl rfl
    · exact .inr h
  · rintro (rfl | h)
    · exact .inr (.inl rfl)
    · rcases Nat.lt_or_gt_of_ne h.2.2 with hlt | hlt
      · exact .inl ⟨h, hlt⟩
      · exact .inr (.inr ⟨h, hlt⟩)

theorem sorted_applyRecord {entries : List Extent} (h : Sorted entries) (r : Extent) :
    Sorted (NonceMap.applyRecord entries r) := by
  have hrest : ∀ p q : Extent → Bool, Sorted ((entries.filter p).filter q) := fun p q =>
    (h.filter p).filter q
  refine List.pairwise_append.mpr ⟨hrest _ _, List.pairwise_cons.mpr ⟨fun e he => ?_, hrest _ _⟩, ?_⟩
  · exact of_decide_eq_true (List.mem_filter.mp he).2
  · intro e he e' he'
    have hlt := of_decide_eq_true (List.mem_filter.mp he).2
    rcases List.mem_cons.mp he' with rfl | he'
    · exact hlt
    · exact hlt.trans (of_decide_eq_true (List.mem_filter.mp he').2)

/-- A record after all the others. -/
theorem applyRecord_of_lt {entries : List Extent} {r : Extent} (h : ∀ e ∈ entries, e.start < r.start) :
    NonceMap.applyRecord entries r = entries ++ [r] := by
  have hkeep : entries.filter (fun e => decide (¬ r.Covers e ∧ e.start ≠ r.start)) = entries := by
    refine List.filter_eq_self.mpr fun e he => decide_eq_true ⟨fun hc => ?_, (h e he).ne⟩
    exact absurd hc.1 (Nat.not_le.mpr (h e he))
  unfold NonceMap.applyRecord
  rw [hkeep]
  have hall : entries.filter (fun e => decide (e.start < r.start)) = entries :=
    List.filter_eq_self.mpr fun e he => decide_eq_true (h e he)
  have hnone : entries.filter (fun e => decide (r.start < e.start)) = [] :=
    List.filter_eq_nil_iff.mpr fun e he hlt => by
      have := of_decide_eq_true hlt
      have := h e he
      omega
  simp only [hall, hnone]

/-- Live entries are replayed to themselves. -/
theorem foldl_applyRecord_sorted {entries acc : List Extent} (h : Sorted (acc ++ entries)) :
    entries.foldl NonceMap.applyRecord acc = acc ++ entries := by
  induction entries generalizing acc with
  | nil => simp
  | cons e entries ih =>
    have hlt : ∀ e' ∈ acc, e'.start < e.start := fun e' he' =>
      (List.pairwise_append.mp h).2.2 e' he' e List.mem_cons_self
    rw [List.foldl_cons, applyRecord_of_lt hlt, ih (by rwa [List.append_assoc]), List.append_assoc]
    rfl

theorem sorted_foldl {records acc : List Extent} (h : Sorted acc) :
    Sorted (records.foldl NonceMap.applyRecord acc) := by
  induction records generalizing acc with
  | nil => exact h
  | cons r records ih => exact ih (sorted_applyRecord h r)

/-! ### The sidecar -/

/-- The fields fit their 64 bits. -/
def Extent.Fits (e : Extent) : Prop := e.start + e.len < 2 ^ 64 ∧ e.nonce < 2 ^ 64

/-- Where the sum fits, it neither saturates nor wraps. -/
theorem Extent.Fits.stop_eq {e : Extent} (h : Extent.Fits e) : e.stop = e.start + e.len :=
  Nat.min_eq_left (Nat.le_sub_one_of_lt h.1)

theorem length_bytes (e : Extent) : e.bytes.length = 24 := by
  simp [Extent.bytes]

theorem parse_bytes {e : Extent} (h : Extent.Fits e) : Extent.parse e.bytes = e := by
  obtain ⟨hfit, hn⟩ := h
  have hs : e.start < 2 ^ 64 := by omega
  have hl : e.len < 2 ^ 64 := by omega
  have h8 : (256 : Nat) ^ 8 = 2 ^ 64 := by norm_num
  unfold Extent.parse Extent.bytes
  rw [List.append_assoc, List.take_left' (length_leBytes 8 _), List.drop_left' (length_leBytes 8 _),
    List.take_left' (length_leBytes 8 _), ← List.append_assoc,
    List.drop_left' (by rw [List.length_append, length_leBytes, length_leBytes]),
    List.take_of_length_le (length_leBytes 8 _).le, ofLeBytes_leBytes (h8 ▸ hs),
    ofLeBytes_leBytes (h8 ▸ hl), ofLeBytes_leBytes (h8 ▸ hn)]

/-- A log of whole records. -/
def Logged (sidecar : Bytes) (records : List Extent) : Prop :=
  sidecar = (records.map Extent.bytes).flatten ∧ ∀ e ∈ records, Extent.Fits e

theorem load_of_logged {sidecar : Bytes} {records : List Extent} (h : Logged sidecar records) :
    NonceMap.load sidecar = records.foldl NonceMap.applyRecord [] := by
  obtain ⟨rfl, hfits⟩ := h
  have huni : Uniform 24 (records.map Extent.bytes) := by
    intro xs hxs
    obtain ⟨e, -, rfl⟩ := List.mem_map.mp hxs
    exact length_bytes e
  have hlen : (records.map Extent.bytes).flatten.length / 24 = records.length := by
    rw [length_flatten_of_uniform huni, List.length_map, Nat.mul_div_cancel _ (by decide)]
  unfold NonceMap.load
  rw [hlen]
  congr 1
  refine List.ext_getElem (by simp) fun i h₁ h₂ => ?_
  rw [List.getElem_map, List.getElem_range, block_flatten huni (by simpa using h₂), List.getElem_map]
  exact parse_bytes (hfits _ (List.getElem_mem _))

theorem Logged.append {sidecar : Bytes} {records : List Extent} (h : Logged sidecar records)
    {r : Extent} (hr : Extent.Fits r) : Logged (sidecar ++ r.bytes) (records ++ [r]) := by
  refine ⟨?_, fun e he => ?_⟩
  · rw [h.1, List.map_append, List.flatten_append, List.map_singleton, List.flatten_singleton]
  · rcases List.mem_append.mp he with he | he
    · exact h.2 e he
    · rw [List.mem_singleton.mp he]
      exact hr

/-! ### Every byte keeps its nonce -/

/-- The extent of the last write of a byte is in the map, and no other extent on the byte starts after
it. -/
def Owned (entries : List Extent) (i start nonce : Nat) : Prop :=
  ∃ e ∈ entries, e.start = start ∧ e.nonce = nonce ∧ start ≤ i ∧ i < e.stop ∧
    ∀ e' ∈ entries, e'.start ≤ i → i < e'.stop → e'.start ≤ start

/-- No extent that starts in the range, or where it does, ends past it. -/
def Ends (entries : List Extent) (r : Extent) : Prop :=
  ∀ e ∈ entries, r.start ≤ e.start → e.start < r.stop ∨ e.start = r.start → e.stop ≤ r.stop

/-- Every record is complete before the file is opened again, and no write ends inside an older extent
that it does not start after. -/
def Safe (s : State) : Event → Prop
  | .write offset buf nonce => Ends s.entries ⟨offset, buf.length, nonce⟩
  | .fail _ => False
  | .reopen n _ => s.writing = none ∨ 24 ≤ n
  | .commit => True
  | .setLen _ => True

instance (entries : List Extent) (r : Extent) : Decidable (Ends entries r) :=
  inferInstanceAs (Decidable (∀ e ∈ entries, _ → _ → _))

instance (s : State) : (e : Event) → Decidable (Safe s e)
  | .write offset buf nonce => inferInstanceAs (Decidable (Ends s.entries ⟨offset, buf.length, nonce⟩))
  | .fail _ => .isFalse id
  | .reopen n _ => inferInstanceAs (Decidable (s.writing = none ∨ 24 ≤ n))
  | .commit => .isTrue trivial
  | .setLen _ => .isTrue trivial

/-- The entries in memory are those of the sidecar, and a write under way fits among them. -/
structure Inv (s : State) : Prop where
  logged : ∃ records, Logged s.sidecar records ∧
    s.entries = records.foldl NonceMap.applyRecord []
  fits : ∀ e ∈ s.entries, Extent.Fits e
  writing : ∀ r, s.writing = some r → Extent.Fits r ∧ Ends s.entries r ∧
    ∀ i, r.start ≤ i → i < r.stop → s.origin i = some (r.start, r.nonce)
  owned : ∀ i start nonce, s.origin i = some (start, nonce) →
    (∀ r, s.writing = some r → ¬ (r.start ≤ i ∧ i < r.stop)) → Owned s.entries i start nonce

theorem Inv.sorted {s : State} (h : Inv s) : Sorted s.entries := by
  obtain ⟨records, -, heq⟩ := h.logged
  rw [heq]
  exact sorted_foldl List.Pairwise.nil

/-- The new record is the newest on its bytes, and hides no other. -/
theorem owned_applyRecord {entries : List Extent} {r : Extent} (hends : Ends entries r) {i : Nat} :
    (r.start ≤ i → i < r.stop → Owned (NonceMap.applyRecord entries r) i r.start r.nonce) ∧
    ∀ start nonce, ¬ (r.start ≤ i ∧ i < r.stop) → Owned entries i start nonce →
      Owned (NonceMap.applyRecord entries r) i start nonce := by
  refine ⟨fun h₁ h₂ => ?_, fun start nonce hout hown => ?_⟩
  · refine ⟨r, mem_applyRecord.mpr (.inl rfl), rfl, rfl, h₁, h₂, fun e' he' h₃ h₄ => ?_⟩
    rcases mem_applyRecord.mp he' with rfl | ⟨he', hcov, -⟩
    · exact Nat.le_refl _
    · -- an extent that starts later ends in the range, so it is covered
      by_contra hlt
      have hlt : r.start < e'.start := Nat.not_le.mp hlt
      have hin : e'.start < r.stop := h₃.trans_lt h₂
      exact hcov ⟨hlt.le, hin, hends e' he' hlt.le (.inl hin)⟩
  · obtain ⟨e, he, rfl, rfl, h₁, h₂, hmax⟩ := hown
    refine ⟨e, mem_applyRecord.mpr (.inr ⟨he, fun hcov => ?_, fun heq => ?_⟩), rfl, rfl, h₁, h₂,
      fun e' he' h₃ h₄ => ?_⟩
    · exact hout ⟨hcov.1.trans h₁, h₂.trans_le hcov.2.2⟩
    · have hle := hends e he heq.ge (.inr heq)
      exact hout ⟨heq ▸ h₁, h₂.trans_le hle⟩
    · rcases mem_applyRecord.mp he' with rfl | ⟨he', -, -⟩
      · exact absurd ⟨h₃, h₄⟩ hout
      · exact hmax e' he' h₃ h₄

theorem inv_write {s s' : State} {offset nonce : Nat} {buf : Bytes} (h : Inv s)
    (hsafe : Ends s.entries ⟨offset, buf.length, nonce⟩)
    (hs : step keystream s (.write offset buf nonce) = some s') : Inv s' := by
  simp only [step] at hs
  split at hs
  · rename_i hguard
    cases hs
    refine ⟨h.logged, h.fits, fun r hr => ?_, fun i start nonce' horig hout => ?_⟩
    · cases hr
      have hlt := hguard.2.1
      refine ⟨⟨hlt, hguard.2.2⟩, hsafe, fun i h₁ h₂ => if_pos ⟨h₁, ?_⟩⟩
      exact h₂.trans_le (Nat.min_le_left _ _)
    · have hfits : Extent.Fits ⟨offset, buf.length, nonce⟩ := hguard.2
      have hnot : ¬ (offset ≤ i ∧ i < offset + buf.length) := by
        rw [← hfits.stop_eq]
        exact hout _ rfl
      simp only at horig
      rw [if_neg hnot] at horig
      exact h.owned i start nonce' horig fun r hr => by
        rw [hguard.1] at hr
        cases hr
  · cases hs

/-- A record is appended. -/
theorem Inv.commit {s : State} (h : Inv s) {r : Extent} (hr : s.writing = some r) :
    Inv { s with
      sidecar := s.sidecar ++ r.bytes
      entries := NonceMap.applyRecord s.entries r
      writing := none } := by
  obtain ⟨hfits, hends, horig⟩ := h.writing r hr
  obtain ⟨records, hlog, heq⟩ := h.logged
  refine ⟨⟨records ++ [r], hlog.append hfits, ?_⟩, fun e he => ?_, fun r' hr' => (by cases hr'), ?_⟩
  · rw [List.foldl_append, ← heq]
    rfl
  · rcases mem_applyRecord.mp he with rfl | ⟨he, -⟩
    · exact hfits
    · exact h.fits e he
  · intro i start nonce hi _
    have happly := owned_applyRecord hends (i := i)
    by_cases hin : r.start ≤ i ∧ i < r.stop
    · have hi : s.origin i = some (start, nonce) := hi
      rw [horig i hin.1 hin.2] at hi
      cases hi
      exact happly.1 hin.1 hin.2
    · refine happly.2 start nonce hin (h.owned i start nonce hi fun r' hr' => ?_)
      rw [hr] at hr'
      cases hr'
      exact hin

/-- A file whose records are complete is opened again. -/
theorem Inv.reload {s : State} (h : Inv s) (compacts : Bool) :
    Inv { s with
      sidecar := if compacts then NonceMap.compact (NonceMap.load s.sidecar) else s.sidecar
      entries := NonceMap.load s.sidecar } := by
  obtain ⟨records, hlog, heq⟩ := h.logged
  have hload : NonceMap.load s.sidecar = s.entries := (load_of_logged hlog).trans heq.symm
  rw [hload]
  refine ⟨?_, h.fits, h.writing, h.owned⟩
  cases compacts with
  | false => exact ⟨records, hlog, heq⟩
  | true =>
    refine ⟨s.entries, ⟨rfl, h.fits⟩, ?_⟩
    have hfold : s.entries.foldl NonceMap.applyRecord [] = [] ++ s.entries :=
      foldl_applyRecord_sorted h.sorted
    exact hfold.symm

theorem step_inv {s s' : State} {e : Event} (h : Inv s) (hsafe : Safe s e)
    (hs : step keystream s e = some s') : Inv s' := by
  cases e with
  | write offset buf nonce => exact inv_write h hsafe hs
  | commit =>
    simp only [step] at hs
    split at hs
    · rename_i r hr
      cases hs
      exact h.commit hr
    · cases hs
  | fail n => exact absurd hsafe id
  | setLen size =>
    simp only [step] at hs
    split at hs
    · rename_i hidle
      cases hs
      refine ⟨h.logged, h.fits, fun r hr => ?_, fun i start nonce hi hout => ?_⟩
      · have hr : s.writing = some r := hr
        rw [hidle] at hr
        cases hr
      · simp only at hi
        split at hi
        · exact h.owned i start nonce hi hout
        · cases hi
    · cases hs
  | reopen n compacts =>
    cases hs
    cases hw : s.writing with
    | none =>
      have htorn : s.torn n = s.sidecar := by
        unfold State.torn
        rw [hw]
      rw [htorn, ← hw]
      exact h.reload compacts
    | some r =>
      -- the record is complete, so this is a commit and then an open
      have hn : 24 ≤ n := hsafe.resolve_left fun hnone => by
        rw [hw] at hnone
        cases hnone
      have htorn : s.torn n = s.sidecar ++ r.bytes := by
        unfold State.torn
        rw [hw]
        simp only
        rw [List.take_of_length_le ((length_bytes r).trans_le hn)]
      rw [htorn]
      exact (h.commit hw).reload compacts

end Passthrough

end Turbolite
