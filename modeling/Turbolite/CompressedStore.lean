import Turbolite.CacheRestart

/-!
# Turbolite.CompressedStore

The compressed cache as a store of blobs: `CacheIndex`, the single and the batch writers, evictions,
`compact_compressed_cache` and the calls that thin out the index, with every place where a call can stop
on an error of the file.

A writer reserves its place in the index before the bytes are in the file, and a compaction moves blobs
before it swaps the index. The entries lie apart in every run (`entries_apart`); what they are decoded to
is right as long as no call stops between the two halves (`store_sound`).
-/

namespace Turbolite

open Blocks Results RawFile

namespace Presence

/-- `CacheIndex::insert_at`. -/
def insertAt (t : Presence) (p : Nat) (e : CacheIndexEntry) : Presence :=
  { t with
    index := t.index.insert p e
    nextOffset := if t.nextOffset < e.stop then e.stop else t.nextOffset }

end Presence

namespace CompressedStore

open Runs CacheFile

/-! ### Data -/

/-- The compressed cache and the pages written to it. -/
structure State where
  cache : CacheFile := {}
  /-- the bytes of the last write of each page that succeeded -/
  written : PageMap := PageMap.empty

/-- Where a compaction stops. -/
inductive CompactFault where
  /-- the write of an entry, by its place in the loop, after some bytes -/
  | move (entry bytes : Nat)
  | setLen
  deriving DecidableEq

/-- The calls; a tainted cache refuses a write as it does one that cannot be encoded. -/
inductive Event where
  /-- `write_page` -/
  | writePage (page : Nat) (data : Bytes) (fault : Option WriteFault)
  /-- `write_pages_bulk` -/
  | writePagesBulk (startPage numPages : Nat) (data : Bytes) (fault : Option WriteFault)
  /-- `write_pages_scattered` -/
  | writePagesScattered (pageNums : List Nat) (data : Bytes) (fault : Option WriteFault)
  /-- `clear_pages_from_disk` -/
  | clearPagesFromDisk (pageNums : List Nat)
  /-- `compact_compressed_cache`, with the pages whose blobs cannot be read -/
  | compact (unreadable : List Nat) (fault : Option CompactFault)
  /-- `prune_cache_index` -/
  | prune (keepPages : List Nat)
  /-- `clear_cache_index` -/
  | clearIndex

/-! ### Writers -/

section

variable (k : CacheConfig)

/-- The entries of a batch: every blob starts where the one before it ends. -/
def pageEntries : Nat → List (Nat × Bytes) → List (Nat × CacheIndexEntry)
  | _, [] => []
  | offset, w :: ws =>
    let len := (k.sealBlob w.2).length
    (w.1, ⟨offset, len⟩) :: pageEntries (offset + len) ws

/-- The places of a batch in the index. -/
def reserve (t : Presence) (ws : List (Nat × Bytes)) : Presence :=
  (pageEntries k t.nextOffset ws).foldl (fun t e => t.insertAt e.1 e.2) t

/-- What the three writers do once the places are reserved. -/
def State.write (s : State) (ws : List (Nat × Bytes)) (reserved : Presence) : Option WriteFault → State
  | some .encode => s
  | some .extend =>
    { s with cache := { toPresence := ws.foldl (fun t w => t.ensureCapacity w.1) reserved
                        file := s.cache.file } }
  | some (.write bytes) =>
    let blob := (ws.map fun w => k.sealBlob w.2).flatten
    let base := s.cache.nextOffset
    { s with cache := { toPresence := ws.foldl (fun t w => t.ensureCapacity w.1) reserved
                        file := (ensureFileLen s.cache.file (base + blob.length)).writeAt base
                          (blob.take bytes) } }
  | none =>
    let blob := (ws.map fun w => k.sealBlob w.2).flatten
    let base := s.cache.nextOffset
    let sized := ws.foldl (fun t w => t.ensureCapacity w.1) reserved
    { cache := { toPresence := ws.foldl (fun t w => t.mark w.1) sized
                 file := (ensureFileLen s.cache.file (base + blob.length)).writeAt base blob }
      written := s.written.install ws }

end

/-! ### Compaction -/

/-- One entry of the loop. -/
def push (unreadable : List Nat) (m : Packing) (e : Nat × CacheIndexEntry) : Packing :=
  if e.1 ∈ unreadable then m else m.push e

/-- The loop over the first `j` entries. -/
def moved (c : CacheFile) (unreadable : List Nat) (j : Nat) : Packing :=
  ((liveEntries c.index).take j).foldl (push unreadable) { file := c.file }

/-- `compact_compressed_cache`; `none` when it cannot stop there. -/
def compact (c : CacheFile) (unreadable : List Nat) : Option CompactFault → Option CacheFile
  | none =>
    let m := moved c unreadable (liveEntries c.index).length
    some { c with
      file := m.file.setLen m.cursor
      index := m.index
      nextOffset := m.cursor }
  | some .setLen =>
    some { c with file := (moved c unreadable (liveEntries c.index).length).file }
  | some (.move j bytes) =>
    (liveEntries c.index)[j]?.bind fun e =>
      let m := moved c unreadable j
      match if e.1 ∈ unreadable then none else m.file.readAt e.2.offset e.2.compressedLen with
      | none => none
      | some blob =>
        if m.cursor = e.2.offset ∨ blob.length ≤ bytes then none
        else some { c with file := m.file.writeAt m.cursor (blob.take bytes) }

/-! ### Steps -/

/-- One call; `none` when it is not made so. A page write is of a whole page, a bulk write of one page
at least. -/
def step (k : CacheConfig) (s : State) : Event → Option State
  | .writePage p data fault =>
    if data.length = k.pageSize then
      some (s.write k [(p, data)] (s.cache.toPresence.insertIndex p (k.sealBlob data).length) fault)
    else none
  | .writePagesBulk start n data fault =>
    if data.length < n * k.pageSize then
      if fault = none then some s else none
    else if n = 0 then none
    else
      let ws := CacheRestart.writes k ((List.range n).map (start + ·)) data
      some (s.write k ws (reserve k s.cache.toPresence ws) fault)
  | .writePagesScattered pageNums data fault =>
    let ws := CacheRestart.writes k pageNums data
    if ws.isEmpty then
      if fault = none then some s else none
    else some (s.write k ws (reserve k s.cache.toPresence ws) fault)
  | .clearPagesFromDisk pageNums => some { s with cache := s.cache.clearPagesFromDisk k pageNums }
  | .compact unreadable fault =>
    (compact s.cache unreadable fault).map fun c => { s with cache := c }
  | .prune keepPages =>
    let toRemove := s.cache.index.keys.filter (· ∉ keepPages)
    some { s with cache := { s.cache with
      index := toRemove.foldl (fun idx p => idx.erase p) s.cache.index } }
  | .clearIndex => some { s with cache := { s.cache with index := ∅, nextOffset := 0 } }

/-- The call returns an error. -/
def Event.Fails (k : CacheConfig) : Event → Prop
  | .writePage _ _ fault => fault ≠ none
  | .writePagesBulk _ n data fault => fault ≠ none ∨ data.length < n * k.pageSize
  | .writePagesScattered _ _ fault => fault ≠ none
  | .compact _ fault => fault ≠ none
  | _ => False

/-! ### What a run should keep -/

/-- Blobs lie apart, below an offset. -/
structure Apart (idx : HMap Nat CacheIndexEntry) (stop : Nat) : Prop where
  below : ∀ p e, idx.lookup p = some e → e.stop ≤ stop
  apart : ∀ p q e e', p ≠ q → idx.lookup p = some e → idx.lookup q = some e' →
    e.stop ≤ e'.offset ∨ e'.stop ≤ e.offset

/-- The index is one of disjoint blobs, and every page in it is read as it was written last. -/
structure Sound (k : CacheConfig) (s : State) : Prop where
  apart : Apart s.cache.index s.cache.nextOffset
  decodes : ∀ p e, s.cache.index.lookup p = some e →
    ∃ data, s.written p = some data ∧ s.cache.readPage k p = .ok data

/-- Every page that could be read is read the same. -/
def Keeps (k : CacheConfig) (s s' : State) : Prop :=
  ∀ p data, s.cache.readPage k p = .ok data → s'.cache.readPage k p = .ok data

/-- Where the blobs of a compaction go that move, with their lengths. -/
def moves (unreadable : List Nat) : Nat → List (Nat × CacheIndexEntry) → List (Nat × Nat)
  | _, [] => []
  | cursor, e :: es =>
    if e.1 ∈ unreadable then moves unreadable cursor es
    else if cursor = e.2.offset then moves unreadable (cursor + e.2.compressedLen) es
    else (cursor, e.2.compressedLen) :: moves unreadable (cursor + e.2.compressedLen) es

/-- Where the packed part ends. -/
def packedEnd (unreadable : List Nat) (es : List (Nat × CacheIndexEntry)) : Nat :=
  blobBytes (es.filter (·.1 ∉ unreadable))

/-- The ranges a compaction has written to when it stops. -/
def touched (c : CacheFile) (unreadable : List Nat) : CompactFault → List (Nat × Nat)
  | .setLen => moves unreadable 0 (liveEntries c.index)
  | .move j bytes =>
    moves unreadable 0 ((liveEntries c.index).take j) ++
      [(packedEnd unreadable ((liveEntries c.index).take j), bytes)]

/-- Two ranges lie apart. -/
def Misses (range : Nat × Nat) (e : CacheIndexEntry) : Prop :=
  range.2 = 0 ∨ range.1 + range.2 ≤ e.offset ∨ e.stop ≤ range.1

instance (range : Nat × Nat) (e : CacheIndexEntry) : Decidable (Misses range e) :=
  inferInstanceAs (Decidable (_ ∨ _ ∨ _))

/-- A write that fails has reserved nothing, a compaction that fails has written over no blob. -/
def Undamaging (s : State) : Event → Prop
  | .writePage _ _ fault => fault = none ∨ fault = some .encode
  | .writePagesBulk _ _ _ fault => fault = none ∨ fault = some .encode
  | .writePagesScattered _ _ fault => fault = none ∨ fault = some .encode
  | .compact unreadable (some fault) => ∀ range ∈ touched s.cache unreadable fault,
      ∀ e ∈ liveEntries s.cache.index, Misses range e.2
  | _ => True

instance (s : State) : (e : Event) → Decidable (Undamaging s e)
  | .writePage _ _ _ => inferInstanceAs (Decidable (_ ∨ _))
  | .writePagesBulk _ _ _ _ => inferInstanceAs (Decidable (_ ∨ _))
  | .writePagesScattered _ _ _ => inferInstanceAs (Decidable (_ ∨ _))
  | .compact unreadable (some fault) =>
    inferInstanceAs (Decidable (∀ range ∈ touched s.cache unreadable fault, _))
  | .compact _ none => .isTrue trivial
  | .clearPagesFromDisk _ => .isTrue trivial
  | .prune _ => .isTrue trivial
  | .clearIndex => .isTrue trivial

/-! ### The entries lie apart -/

section

variable {k : CacheConfig} {idx idx' : HMap Nat CacheIndexEntry} {stop p : Nat} {t : Presence}

theorem apart_empty (stop : Nat) : Apart ∅ stop where
  below p e he := by cases he
  apart p q e e' _ he := by cases he

/-- A blob at the end. -/
theorem Apart.insert (h : Apart idx stop) (p len : Nat) :
    Apart (idx.insert p ⟨stop, len⟩) (stop + len) := by
  refine ⟨fun q e he => ?_, fun q r e e' hqr he he' => ?_⟩
  · by_cases hq : q = p
    · subst hq
      rw [AList.lookup_insert] at he
      cases he
      exact Nat.le_refl _
    · rw [AList.lookup_insert_ne hq] at he
      exact (h.below q e he).trans (Nat.le_add_right ..)
  · by_cases hq : q = p
    · subst hq
      rw [AList.lookup_insert] at he
      rw [AList.lookup_insert_ne hqr.symm] at he'
      cases he
      exact .inr (h.below r e' he')
    · rw [AList.lookup_insert_ne hq] at he
      by_cases hr : r = p
      · subst hr
        rw [AList.lookup_insert] at he'
        cases he'
        exact .inl (h.below q e he)
      · rw [AList.lookup_insert_ne hr] at he'
        exact h.apart q r e e' hqr he he'

theorem Apart.restrict (h : Apart idx stop)
    (hsub : ∀ p e, idx'.lookup p = some e → idx.lookup p = some e) : Apart idx' stop where
  below p e he := h.below p e (hsub p e he)
  apart p q e e' hpq he he' := h.apart p q e e' hpq (hsub p e he) (hsub q e' he')

theorem lookup_of_foldl_erase {ps : List Nat} {e : CacheIndexEntry}
    (h : (ps.foldl (fun idx p => idx.erase p) idx).lookup p = some e) : idx.lookup p = some e := by
  rw [CacheFile.lookup_foldl_erase] at h
  split at h
  · cases h
  · exact h

/-- A compaction appends to the new index. -/
theorem Apart.push {m : Packing} (h : Apart m.index m.cursor) (unreadable : List Nat)
    (e : Nat × CacheIndexEntry) :
    Apart (push unreadable m e).index (push unreadable m e).cursor := by
  unfold CompressedStore.push
  split
  · exact h
  · unfold Packing.push
    split
    · exact h
    · exact h.insert e.1 e.2.compressedLen

theorem Apart.foldl_push {m : Packing} (h : Apart m.index m.cursor) (unreadable : List Nat)
    (es : List (Nat × CacheIndexEntry)) :
    Apart (es.foldl (CompressedStore.push unreadable) m).index
      (es.foldl (CompressedStore.push unreadable) m).cursor := by
  induction es generalizing m with
  | nil => exact h
  | cons e es ih => exact ih (h.push unreadable e)

theorem insertAt_end (t : Presence) (p len : Nat) :
    t.insertAt p ⟨t.nextOffset, len⟩ = t.insertIndex p len := by
  unfold Presence.insertAt Presence.insertIndex CacheIndexEntry.stop
  congr 1
  dsimp only
  split
  · rfl
  · omega

/-- A batch takes its places one after the other. -/
theorem reserve_cons (t : Presence) (w : Nat × Bytes) (ws : List (Nat × Bytes)) :
    reserve k t (w :: ws) = reserve k (t.insertIndex w.1 (k.sealBlob w.2).length) ws := by
  simp only [reserve, pageEntries, List.foldl_cons, insertAt_end]
  rfl

theorem Apart.reserve (h : Apart t.index t.nextOffset) (ws : List (Nat × Bytes)) :
    Apart (reserve k t ws).index (reserve k t ws).nextOffset := by
  induction ws generalizing t with
  | nil => exact h
  | cons w ws ih =>
    rw [reserve_cons]
    exact ih (h.insert w.1 _)

/-- The bitmap is no part of the index. -/
theorem index_foldl_ensureCapacity (ws : List (Nat × Bytes)) (t : Presence) :
    (ws.foldl (fun t w => t.ensureCapacity w.1) t).index = t.index ∧
      (ws.foldl (fun t w => t.ensureCapacity w.1) t).nextOffset = t.nextOffset := by
  induction ws generalizing t with
  | nil => exact ⟨rfl, rfl⟩
  | cons w ws ih => exact ih (t.ensureCapacity w.1)

theorem index_foldl_mark (ws : List (Nat × Bytes)) (t : Presence) :
    (ws.foldl (fun t w => t.mark w.1) t).index = t.index ∧
      (ws.foldl (fun t w => t.mark w.1) t).nextOffset = t.nextOffset := by
  induction ws generalizing t with
  | nil => exact ⟨rfl, rfl⟩
  | cons w ws ih => exact ih (t.mark w.1)

/-- The index of a write that got as far as the index. -/
theorem index_write (s : State) (ws : List (Nat × Bytes)) (reserved : Presence)
    {fault : Option WriteFault} (hfault : fault ≠ some .encode) :
    (s.write k ws reserved fault).cache.index = reserved.index ∧
      (s.write k ws reserved fault).cache.nextOffset = reserved.nextOffset := by
  have hsized := index_foldl_ensureCapacity ws reserved
  cases fault with
  | none =>
    obtain ⟨hindex, hnext⟩ := index_foldl_mark ws (ws.foldl (fun t w => t.ensureCapacity w.1) reserved)
    exact ⟨hindex.trans hsized.1, hnext.trans hsized.2⟩
  | some fault =>
    cases fault with
    | encode => exact absurd rfl hfault
    | extend => exact hsized
    | write bytes => exact hsized

theorem Apart.write {s : State} {ws : List (Nat × Bytes)} {reserved : Presence}
    {fault : Option WriteFault} (h : Apart s.cache.index s.cache.nextOffset)
    (hreserved : Apart reserved.index reserved.nextOffset) :
    Apart (s.write k ws reserved fault).cache.index (s.write k ws reserved fault).cache.nextOffset := by
  by_cases hfault : fault = some .encode
  · subst hfault
    exact h
  · obtain ⟨hindex, hnext⟩ := index_write s ws reserved (k := k) hfault
    rw [hindex, hnext]
    exact hreserved

/-- What a compaction makes of the index. -/
theorem compact_cases {c c' : CacheFile} {unreadable : List Nat} {fault : Option CompactFault}
    (h : compact c unreadable fault = some c') :
    (fault = none ∧ c'.index = (moved c unreadable (liveEntries c.index).length).index ∧
      c'.nextOffset = (moved c unreadable (liveEntries c.index).length).cursor ∧
      c'.file = (moved c unreadable (liveEntries c.index).length).file.setLen
        (moved c unreadable (liveEntries c.index).length).cursor) ∨
    (fault ≠ none ∧ c'.index = c.index ∧ c'.nextOffset = c.nextOffset) := by
  unfold compact at h
  split at h
  · cases h
    exact .inl ⟨rfl, rfl, rfl, rfl⟩
  · cases h
    exact .inr ⟨by simp, rfl, rfl⟩
  · obtain ⟨e, _, h⟩ := Option.bind_eq_some_iff.mp h
    dsimp only at h
    split at h
    · cases h
    · split at h
      · cases h
      · cases h
        exact .inr ⟨by simp, rfl, rfl⟩

theorem writePage_inv {s s' : State} {p : Nat} {data : Bytes} {fault : Option WriteFault}
    (h : step k s (.writePage p data fault) = some s') : data.length = k.pageSize ∧
      s' = s.write k [(p, data)] (s.cache.toPresence.insertIndex p (k.sealBlob data).length) fault := by
  simp only [step, Option.ite_none_right_eq_some, Option.some.injEq] at h
  exact ⟨h.1, h.2.symm⟩

/-- A buffer that is too short is refused before anything changes. -/
theorem writePagesBulk_inv {s s' : State} {start n : Nat} {data : Bytes} {fault : Option WriteFault}
    (h : step k s (.writePagesBulk start n data fault) = some s') :
    s' = s ∨ ¬ data.length < n * k.pageSize ∧
      s' = s.write k (CacheRestart.writes k ((List.range n).map (start + ·)) data)
        (reserve k s.cache.toPresence
          (CacheRestart.writes k ((List.range n).map (start + ·)) data)) fault := by
  simp only [step] at h
  split at h
  · simp only [Option.ite_none_right_eq_some, Option.some.injEq] at h
    exact .inl h.2.symm
  · rename_i hlong
    simp only [Option.ite_none_left_eq_some, Option.some.injEq] at h
    exact .inr ⟨hlong, h.2.symm⟩

/-- With no pages to write nothing changes. -/
theorem writePagesScattered_inv {s s' : State} {pageNums : List Nat} {data : Bytes}
    {fault : Option WriteFault} (h : step k s (.writePagesScattered pageNums data fault) = some s') :
    s' = s ∨ s' = s.write k (CacheRestart.writes k pageNums data)
      (reserve k s.cache.toPresence (CacheRestart.writes k pageNums data)) fault := by
  simp only [step] at h
  split at h
  · simp only [Option.ite_none_right_eq_some, Option.some.injEq] at h
    exact .inl h.2.symm
  · exact .inr (Option.some.inj h).symm

theorem apart_step {s s' : State} {e : Event} (h : Apart s.cache.index s.cache.nextOffset)
    (hstep : step k s e = some s') : Apart s'.cache.index s'.cache.nextOffset := by
  cases e with
  | writePage p data fault =>
    obtain ⟨-, rfl⟩ := writePage_inv hstep
    exact h.write (h.insert p _)
  | writePagesBulk start n data fault =>
    obtain rfl | ⟨-, rfl⟩ := writePagesBulk_inv hstep
    · exact h
    · exact h.write (h.reserve _)
  | writePagesScattered pageNums data fault =>
    obtain rfl | rfl := writePagesScattered_inv hstep
    · exact h
    · exact h.write (h.reserve _)
  | clearPagesFromDisk pageNums =>
    cases hstep
    refine h.restrict fun p e he => ?_
    simp only [CacheFile.clearPagesFromDisk] at he
    split at he
    · exact lookup_of_foldl_erase he
    · exact he
  | compact unreadable fault =>
    obtain ⟨c', hc', rfl⟩ := Option.map_eq_some_iff.mp hstep
    cases compact_cases hc' with
    | inl hdone =>
      obtain ⟨_, hindex, hnext, _⟩ := hdone
      rw [hindex, hnext]
      exact (apart_empty 0).foldl_push (m := { file := s.cache.file }) unreadable _
    | inr hfailed =>
      obtain ⟨_, hindex, hnext⟩ := hfailed
      rw [hindex, hnext]
      exact h
  | prune keepPages =>
    cases hstep
    exact h.restrict fun p e he => lookup_of_foldl_erase he
  | clearIndex =>
    cases hstep
    exact apart_empty 0

/-- Whatever fails, the entries of the index are disjoint and below the append offset. -/
theorem entries_apart {es : List Event} {s : State} (hrun : run (step k) {} es = some s) :
    Apart s.cache.index s.cache.nextOffset :=
  run_preserves (I := fun s => Apart s.cache.index s.cache.nextOffset)
    (fun _ _ _ h hstep => apart_step h hstep) (apart_empty 0) hrun

/-! ### What the entries are decoded to -/

/-- Every page in the index is in the file as it was written last. -/
def Blobs (k : CacheConfig) (f : File) (idx : HMap Nat CacheIndexEntry) (written : PageMap) : Prop :=
  ∀ p e, idx.lookup p = some e → ∃ data, written p = some data ∧ data.length = k.pageSize ∧
    f.readAt e.offset e.compressedLen = some (k.sealBlob data)

variable {f f' : File} {written : PageMap} {data : Bytes}

theorem Blobs.restrict (h : Blobs k f idx written)
    (hsub : ∀ p e, idx'.lookup p = some e → idx.lookup p = some e) : Blobs k f idx' written :=
  fun p e he => h p e (hsub p e he)

/-- A file with the same blobs. -/
theorem Blobs.congr (h : Blobs k f idx written)
    (hread : ∀ p e blob, idx.lookup p = some e → f.readAt e.offset e.compressedLen = some blob →
      f'.readAt e.offset e.compressedLen = some blob) : Blobs k f' idx written := by
  intro p e he
  obtain ⟨data, hw, hlen, hr⟩ := h p e he
  exact ⟨data, hw, hlen, hread p e _ he hr⟩

theorem Blobs.append (h : Blobs k f t.index written) (hapart : Apart t.index t.nextOffset)
    (hlen : data.length = k.pageSize) (p : Nat) :
    Blobs k (f.writeAt t.nextOffset (k.sealBlob data)) (t.insertIndex p (k.sealBlob data).length).index
      (Function.update written p (some data)) := by
  intro q e he
  by_cases hq : q = p
  · subst hq
    rw [CacheRestart.lookup_insertIndex] at he
    cases he
    exact ⟨data, Function.update_self .., hlen, readAt_writeAt_same ..⟩
  · rw [CacheRestart.lookup_insertIndex_ne hq] at he
    obtain ⟨d, hw, hd, hr⟩ := h q e he
    refine ⟨d, (Function.update_of_ne hq ..).trans hw, hd, ?_⟩
    exact readAt_writeAt_disjoint (.inl (hapart.below q e he)) hr

/-- A batch that goes through, blob by blob. -/
theorem Blobs.batch {ws : List (Nat × Bytes)} (h : Blobs k f t.index written)
    (hapart : Apart t.index t.nextOffset) (hlen : ∀ w ∈ ws, w.2.length = k.pageSize) :
    Blobs k (f.writeAt t.nextOffset (ws.map fun w => k.sealBlob w.2).flatten) (reserve k t ws).index
      (written.install ws) := by
  induction ws generalizing f t written with
  | nil =>
    refine h.congr fun p e blob he hr => readAt_writeAt_disjoint (.inl ?_) hr
    exact hapart.below p e he
  | cons w ws ih =>
    have hw := hlen w List.mem_cons_self
    rw [List.map_cons, List.flatten_cons, writeAt_append, reserve_cons]
    exact ih (h.append hapart hw w.1) (hapart.insert w.1 _)
      fun x hx => hlen x (List.mem_cons_of_mem _ hx)

theorem Blobs.write {s : State} {ws : List (Nat × Bytes)} {reserved : Presence}
    {fault : Option WriteFault} (h : Blobs k s.cache.file s.cache.index s.written)
    (hfault : fault = none ∨ fault = some .encode)
    (hbatch : Blobs k (s.cache.file.writeAt s.cache.nextOffset (ws.map fun w => k.sealBlob w.2).flatten)
      reserved.index (s.written.install ws)) :
    Blobs k (s.write k ws reserved fault).cache.file (s.write k ws reserved fault).cache.index
      (s.write k ws reserved fault).written := by
  cases hfault with
  | inl hnone =>
    subst hnone
    rw [(index_write s ws reserved (by simp)).1]
    show Blobs k ((ensureFileLen _ _).writeAt _ _) _ _
    by_cases hnil : (ws.map fun w => k.sealBlob w.2).flatten = []
    · rw [hnil, writeAt_nil] at hbatch
      rw [hnil, writeAt_nil]
      refine hbatch.congr fun p e blob he hr => ?_
      exact CacheRestart.readAt_ensureFileLen _ hr
    · rw [ensureFileLen_writeAt _ _ hnil]
      exact hbatch
  | inr hencode =>
    subst hencode
    exact h

/-! ### A compaction that goes through -/

/-- The blobs that are there can be packed, but for those that cannot be read. -/
theorem Blobs.packable (hc : k.codec.codecs.Lawful) (h : Blobs k f idx written)
    (hapart : Apart idx stop) (unreadable : List Nat) :
    Packable { file := f } ((liveEntries idx).filter (·.1 ∉ unreadable))
      (CacheRestart.blobOf k written) := by
  refine Packable.sublist (CacheRestart.packable_liveEntries (fun p e he => ?_) hapart.apart
    fun p e he => ?_) List.filter_sublist
  · obtain ⟨data, _, hlen, hr⟩ := h p e he
    rw [← length_of_readAt hr]
    exact length_sealBlob_pos hc hlen
  · obtain ⟨data, hw, _, hr⟩ := h p e he
    rw [hr, CacheRestart.blobOf, hw]

theorem foldl_push (unreadable : List Nat) (es : List (Nat × CacheIndexEntry)) (m : Packing) :
    es.foldl (push unreadable) m = (es.filter (·.1 ∉ unreadable)).foldl Packing.push m := by
  induction es generalizing m with
  | nil => rfl
  | cons e es ih =>
    by_cases he : e.1 ∈ unreadable
    · rw [List.filter_cons_of_neg (by simpa using he), List.foldl_cons, push, if_pos he, ih]
    · rw [List.filter_cons_of_pos (by simpa using he), List.foldl_cons, List.foldl_cons, push,
        if_neg he, ih]

theorem moved_length (c : CacheFile) (unreadable : List Nat) :
    moved c unreadable (liveEntries c.index).length =
      ((liveEntries c.index).filter (·.1 ∉ unreadable)).foldl Packing.push { file := c.file } := by
  rw [moved, List.take_length, foldl_push]

/-- A compaction leaves every page it keeps as it was written. -/
theorem Blobs.compact (hc : k.codec.codecs.Lawful) {c : CacheFile} (h : Blobs k c.file c.index written)
    (hapart : Apart c.index c.nextOffset) (unreadable : List Nat) :
    Blobs k ((moved c unreadable (liveEntries c.index).length).file.setLen
        (moved c unreadable (liveEntries c.index).length).cursor)
      (moved c unreadable (liveEntries c.index).length).index written := by
  have hpack := h.packable hc hapart unreadable
  have hnew := (apart_empty 0).foldl_push (m := { file := c.file }) unreadable (liveEntries c.index)
  rw [foldl_push] at hnew
  rw [moved_length]
  intro p e he
  obtain ⟨pre, e', post, hsplit, heq, hr⟩ := hpack.of_lookup_foldl rfl he
  have hmem : (p, e') ∈ (liveEntries c.index).filter (·.1 ∉ unreadable) := by
    rw [hsplit]
    simp
  obtain ⟨data, hw, hlen, _⟩ :=
    h p e' (CacheRestart.mem_liveEntries.mp (List.mem_of_mem_filter hmem))
  refine ⟨data, hw, hlen, ?_⟩
  rw [CacheRestart.blobOf, hw] at hr
  exact readAt_setLen (hnew.below p e he) hr

/-! ### A compaction that stops -/

/-- A blob that is inside the file is moved to the cursor. -/
theorem push_inside {m : Packing} {e : Nat × CacheIndexEntry}
    (h : e.2.compressedLen = 0 ∨ e.2.stop ≤ m.file.len) :
    ∃ blob : Bytes, blob.length = e.2.compressedLen ∧ m.push e =
      { file := if m.cursor = e.2.offset then m.file else m.file.writeAt m.cursor blob
        index := m.index.insert e.1 ⟨m.cursor, e.2.compressedLen⟩
        cursor := m.cursor + e.2.compressedLen } := by
  have hr := readAt_eq_some.mpr ⟨h, rfl⟩
  refine ⟨_, length_of_readAt hr, ?_⟩
  unfold Packing.push
  rw [hr]

/-- A write that misses a blob. -/
theorem readAt_writeAt_missed {off : Nat} {x : CacheIndexEntry} {blob : Bytes}
    (hmiss : Misses (off, data.length) x) (hr : f.readAt x.offset x.compressedLen = some blob) :
    (f.writeAt off data).readAt x.offset x.compressedLen = some blob := by
  cases hmiss with
  | inl hzero =>
    obtain rfl : data = [] := List.eq_nil_of_length_eq_zero hzero
    rw [writeAt_nil]
    exact hr
  | inr hapart => exact readAt_writeAt_disjoint hapart.symm hr

/-- A range that the moves miss. -/
theorem readAt_foldl_push (unreadable : List Nat) (es : List (Nat × CacheIndexEntry)) {m : Packing}
    (hinside : ∀ e ∈ es, e.2.compressedLen = 0 ∨ e.2.stop ≤ m.file.len) {x : CacheIndexEntry}
    (hmiss : ∀ range ∈ moves unreadable m.cursor es, Misses range x) {blob : Bytes}
    (hr : m.file.readAt x.offset x.compressedLen = some blob) :
    (es.foldl (push unreadable) m).file.readAt x.offset x.compressedLen = some blob ∧
      (es.foldl (push unreadable) m).cursor = m.cursor + packedEnd unreadable es := by
  induction es generalizing m with
  | nil => exact ⟨hr, rfl⟩
  | cons e es ih =>
    have hrest : ∀ x ∈ es, x.2.compressedLen = 0 ∨ x.2.stop ≤ m.file.len := fun x hx => hinside x (List.mem_cons_of_mem _ hx)
    rw [List.foldl_cons]
    by_cases he : e.1 ∈ unreadable
    · -- the loop goes on with the next entry
      rw [push, if_pos he]
      rw [moves, if_pos he] at hmiss
      rw [packedEnd, List.filter_cons_of_neg (by simpa using he)]
      exact ih hrest hmiss hr
    · obtain ⟨moving, hlen, hpush⟩ := push_inside (hinside e List.mem_cons_self)
      rw [push, if_neg he, hpush]
      rw [moves, if_neg he] at hmiss
      rw [packedEnd, List.filter_cons_of_pos (by simpa using he), blobBytes_cons, ← Nat.add_assoc]
      by_cases hstay : m.cursor = e.2.offset
      · rw [if_pos hstay] at hmiss ⊢
        exact ih hrest hmiss hr
      · rw [if_neg hstay] at hmiss ⊢
        refine ih (fun x hx => (hrest x hx).imp_right (·.trans (le_len_writeAt ..))) ?_ ?_
        · exact fun range hrange => hmiss range (List.mem_cons_of_mem _ hrange)
        · refine readAt_writeAt_missed ?_ hr
          rw [hlen]
          exact hmiss _ List.mem_cons_self

/-- Where a compaction has written nothing, the blobs are what they were. -/
theorem Blobs.readAt_failed {c c' : CacheFile} (h : Blobs k c.file c.index written)
    {unreadable : List Nat} {fault : CompactFault} (hstop : CompressedStore.compact c unreadable (some fault) = some c')
    (hmiss : ∀ range ∈ touched c unreadable fault, ∀ e ∈ liveEntries c.index, Misses range e.2)
    {e : CacheIndexEntry} (he : c.index.lookup p = some e) {blob : Bytes}
    (hr : c.file.readAt e.offset e.compressedLen = some blob) :
    c'.file.readAt e.offset e.compressedLen = some blob := by
  have hlive : (p, e) ∈ liveEntries c.index := CacheRestart.mem_liveEntries.mpr he
  have hinside : ∀ x ∈ liveEntries c.index, x.2.compressedLen = 0 ∨ x.2.stop ≤ c.file.len := by
    intro x hx
    obtain ⟨_, _, _, hx'⟩ := h x.1 x.2 (CacheRestart.mem_liveEntries.mp hx)
    exact (readAt_eq_some.mp hx').1
  cases fault with
  | setLen =>
    cases hstop
    show (moved c unreadable (liveEntries c.index).length).file.readAt _ _ = _
    rw [moved, List.take_length]
    exact (readAt_foldl_push unreadable _ (m := { file := c.file }) hinside
      (fun range hrange => hmiss range hrange _ hlive) hr).1
  | move j bytes =>
    obtain ⟨x, _, hstop⟩ := Option.bind_eq_some_iff.mp hstop
    have hmoved := readAt_foldl_push unreadable ((liveEntries c.index).take j)
      (m := { file := c.file }) (fun y hy => hinside y (List.mem_of_mem_take hy))
      (fun range hrange => hmiss range (List.mem_append_left _ hrange) _ hlive) hr
    have hlast := hmiss _ (List.mem_append_right _ (List.mem_singleton_self _)) _ hlive
    dsimp only at hstop
    split at hstop
    · cases hstop
    · rename_i moving _
      split at hstop
      · cases hstop
      · rename_i hgo
        cases hstop
        refine readAt_writeAt_missed ?_ hmoved.1
        have hcursor : (moved c unreadable j).cursor =
            packedEnd unreadable ((liveEntries c.index).take j) := by
          rw [moved, hmoved.2]
          exact Nat.zero_add _
        have hlen : (moving.take bytes).length = bytes := by
          rw [List.length_take]
          omega
        rw [hlen, hcursor]
        exact hlast

/-! ### Runs -/

/-- No two pages share bytes of the file, and each reads as it was written. -/
structure Inv (k : CacheConfig) (s : State) : Prop where
  apart : Apart s.cache.index s.cache.nextOffset
  blobs : Blobs k s.cache.file s.cache.index s.written

theorem Inv.sound (hc : k.codec.codecs.Lawful) (hk : k.compressed = true) {s : State} (h : Inv k s) :
    Sound k s where
  apart := h.apart
  decodes p e he := by
    obtain ⟨data, hw, hlen, hr⟩ := h.blobs p e he
    have hdisk : OnDisk k s.cache.file s.cache.toPresence p data :=
      (CacheRestart.onDisk_compressed hk).mpr ⟨e, he, hr⟩
    exact ⟨data, hw, hdisk.readPage hc hlen⟩

theorem Inv.step (hc : k.codec.codecs.Lawful) (hk : k.compressed = true) {s s' : State} {e : Event}
    (h : Inv k s) (hcond : Undamaging s e) (hstep : step k s e = some s') : Inv k s' := by
  refine ⟨apart_step h.apart hstep, ?_⟩
  cases e with
  | writePage p data fault =>
    obtain ⟨hlen, rfl⟩ := writePage_inv hstep
    refine h.blobs.write hcond ?_
    rw [List.map_singleton, List.flatten_singleton]
    exact h.blobs.append h.apart hlen p
  | writePagesBulk start n data fault =>
    obtain rfl | ⟨-, rfl⟩ := writePagesBulk_inv hstep
    · exact h.blobs
    · exact h.blobs.write hcond
        (h.blobs.batch h.apart fun w hw => CacheRestart.length_of_mem_writes hw)
  | writePagesScattered pageNums data fault =>
    obtain rfl | rfl := writePagesScattered_inv hstep
    · exact h.blobs
    · exact h.blobs.write hcond
        (h.blobs.batch h.apart fun w hw => CacheRestart.length_of_mem_writes hw)
  | clearPagesFromDisk pageNums =>
    cases hstep
    simp only [CacheFile.clearPagesFromDisk, hk, if_true]
    exact h.blobs.restrict fun p e he => lookup_of_foldl_erase he
  | compact unreadable fault =>
    obtain ⟨c', hc', rfl⟩ := Option.map_eq_some_iff.mp hstep
    cases compact_cases hc' with
    | inl hdone =>
      obtain ⟨_, hindex, _, hfile⟩ := hdone
      rw [hindex, hfile]
      exact h.blobs.compact hc h.apart unreadable
    | inr hfailed =>
      obtain ⟨hfault, hindex, _⟩ := hfailed
      obtain ⟨fault, rfl⟩ := Option.ne_none_iff_exists'.mp hfault
      rw [hindex]
      exact h.blobs.congr fun p e blob he hr => h.blobs.readAt_failed hc' hcond he hr
  | prune keepPages =>
    cases hstep
    exact h.blobs.restrict fun p e he => lookup_of_foldl_erase he
  | clearIndex =>
    cases hstep
    intro p e he
    cases he

/-- A read sees the entry of the page and its blob. -/
theorem keeps_of_blobs (hk : k.compressed = true) {s s' : State}
    (hindex : s'.cache.index = s.cache.index)
    (hread : ∀ p e blob, s.cache.index.lookup p = some e →
      s.cache.file.readAt e.offset e.compressedLen = some blob →
      s'.cache.file.readAt e.offset e.compressedLen = some blob) : Keeps k s s' := by
  intro p data hp
  unfold CacheFile.readPage at hp ⊢
  rw [if_pos hk] at hp ⊢
  rw [hindex]
  cases he : s.cache.index.lookup p with
  | none =>
    rw [he] at hp
    cases hp
  | some e =>
    simp only [he] at hp ⊢
    cases hr : s.cache.file.readAt e.offset e.compressedLen with
    | none =>
      rw [hr] at hp
      cases hp
    | some blob =>
      rw [hr] at hp
      rw [hread p e blob he hr]
      exact hp

/-- A call that returns an error and does no damage. -/
theorem Inv.keeps (hk : k.compressed = true) {s s' : State} {e : Event} (h : Inv k s)
    (hcond : Undamaging s e) (hstep : CompressedStore.step k s e = some s') (hfails : e.Fails k) :
    Keeps k s s' := by
  have hself : Keeps k s s := fun p data hp => hp
  have hencode : ∀ {fault : Option WriteFault} (ws : List (Nat × Bytes)) (reserved : Presence),
      (fault = none ∨ fault = some .encode) → fault ≠ none →
      Keeps k s (s.write k ws reserved fault) := by
    intro fault ws reserved hsafe hfault
    cases hsafe with
    | inl hnone => exact absurd hnone hfault
    | inr henc =>
      subst henc
      exact hself
  cases e with
  | writePage p data fault =>
    obtain ⟨-, rfl⟩ := writePage_inv hstep
    exact hencode _ _ hcond hfails
  | writePagesBulk start n data fault =>
    obtain rfl | ⟨hlong, rfl⟩ := writePagesBulk_inv hstep
    · exact hself
    · exact hencode _ _ hcond (hfails.resolve_right hlong)
  | writePagesScattered pageNums data fault =>
    obtain rfl | rfl := writePagesScattered_inv hstep
    · exact hself
    · exact hencode _ _ hcond hfails
  | clearPagesFromDisk pageNums => exact hfails.elim
  | compact unreadable fault =>
    obtain ⟨c', hc', rfl⟩ := Option.map_eq_some_iff.mp hstep
    obtain ⟨fault, rfl⟩ := Option.ne_none_iff_exists'.mp hfails
    cases compact_cases hc' with
    | inl hdone => cases hdone.1
    | inr hfailed =>
      exact keeps_of_blobs hk hfailed.2.1
        fun p e blob he hr => h.blobs.readAt_failed hc' hcond he hr
  | prune keepPages => exact hfails.elim
  | clearIndex => exact hfails.elim

/-- In every run in which no call does damage, the index is one of disjoint blobs that are decoded to what
was written last, and a call that returns an error leaves every page readable as before. -/
theorem store_sound (hc : k.codec.codecs.Lawful) (hk : k.compressed = true) {es : List Event}
    {s : State} (hrun : run (step k) {} es = some s)
    (hmeets : Meets (step k) Undamaging {} es) : Sound k s ∧
      ∀ e s', Undamaging s e → step k s e = some s' → e.Fails k → Keeps k s s' := by
  have hempty : Inv k {} := by
    refine ⟨apart_empty 0, fun p e he => ?_⟩
    cases he
  have hinv : Inv k s :=
    run_invariant (fun _ _ _ h hcond hstep => h.step hc hk hcond hstep) hempty hmeets hrun
  exact ⟨hinv.sound hc hk, fun e s' hcond hstep hfails => hinv.keeps hk hcond hstep hfails⟩

end

/-! ### Three pages -/

namespace Example

/-- The codec leaves the pages as they are. -/
def config : CacheConfig := ⟨.plain, 64, true, by decide⟩

/-- A page full of one byte. -/
def page (n : UInt8) : Bytes := List.replicate 64 n

/-- Page 0 is written again, so its first blob is dead. -/
def rewrite : List Event :=
  [.writePage 0 (page 1) none, .writePagesScattered [1, 2] (page 2 ++ page 3) none,
    .writePage 0 (page 4) none]

/-- A write fails before it has a place, and a compaction in its first move, to the dead blob. -/
def harmless : List Event :=
  rewrite ++ [.writePage 1 (page 5) (some .encode), .compact [] (some (.move 0 10)), .prune [0, 1],
    .compact [] none]

/-- What page 1 is read as after a run. -/
def read (es : List Event) (p : Nat) : Option (Option Bytes) :=
  (run (step config) {} es).map fun s => (s.cache.readPage config p).toOption

/-- A call after which a page is not read as before. -/
theorem damaged {es : List Event} {e : Event} {p : Nat} {data : Bytes} {r : Option Bytes}
    (h : read es p = some (some data)) (h' : read (es ++ [e]) p = some r) (hne : r ≠ some data) :
    ∃ s s', run (step config) {} es = some s ∧ step config s e = some s' ∧ ¬ Keeps config s s' := by
  obtain ⟨s, hs, hread⟩ := Option.map_eq_some_iff.mp h
  obtain ⟨s', hs', hread'⟩ := Option.map_eq_some_iff.mp h'
  obtain ⟨m, hm, hlast⟩ := run_append.mp hs'
  obtain rfl : m = s := Option.some.inj (hm.symm.trans hs)
  obtain ⟨t, ht, hnil⟩ := run_cons.mp hlast
  obtain rfl : t = s' := Option.some.inj hnil
  refine ⟨m, t, hs, ht, fun hkeeps => hne ?_⟩
  cases hp : m.cache.readPage config p with
  | error err =>
    rw [hp] at hread
    cases hread
  | ok d =>
    rw [hp] at hread
    obtain rfl : d = data := Option.some.inj hread
    rw [← hread', hkeeps p d hp]
    rfl

end Example

open Example

/-- Two calls fail and the store is as before. -/
theorem example_store_sound : ∃ s, run (step config) {} harmless = some s ∧ Sound config s ∧
    read harmless 1 = some (some (page 2)) := by
  obtain ⟨s, hs⟩ := Option.isSome_iff_exists.mp
    (show (run (step config) {} harmless).isSome = true by decide +kernel)
  have hmeets : Meets (step config) Undamaging {} harmless := by decide +kernel
  exact ⟨s, hs, (store_sound Codecs.plain_lawful rfl hs hmeets).1, by decide +kernel⟩

/-- A write that cannot make the file longer leaves page 0 without the bytes it had. And a compaction that
cannot make the file shorter leaves page 1 with the bytes of page 2. -/
theorem store_damaged :
    (∃ s s', run (step config) {} rewrite = some s ∧
      step config s (.writePage 0 (page 5) (some .extend)) = some s' ∧ ¬ Keeps config s s') ∧
    read (rewrite ++ [.writePage 0 (page 5) (some .extend)]) 0 = some none ∧
    (∃ s s', run (step config) {} rewrite = some s ∧
      step config s (.compact [] (some .setLen)) = some s' ∧ ¬ Keeps config s s') ∧
    read rewrite 1 = some (some (page 2)) ∧
    read (rewrite ++ [.compact [] (some .setLen)]) 1 = some (some (page 3)) := by
  have hzero : read rewrite 0 = some (some (page 4)) := by decide +kernel
  have hone : read rewrite 1 = some (some (page 2)) := by decide +kernel
  have hwrite : read (rewrite ++ [.writePage 0 (page 5) (some .extend)]) 0 = some none := by
    decide +kernel
  have hcompact : read (rewrite ++ [.compact [] (some .setLen)]) 1 = some (some (page 3)) := by
    decide +kernel
  have hdiffer : some (page 3) ≠ some (page 2) := by decide +kernel
  have hnone : (none : Option Bytes) ≠ some (page 4) := by simp
  have hlost := damaged hzero hwrite hnone
  have hmoved := damaged hone hcompact hdiffer
  exact ⟨hlost, hwrite, hmoved, hone, hcompact⟩

end CompressedStore

end Turbolite
