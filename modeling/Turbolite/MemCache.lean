import Turbolite.FetchedBytes
import Turbolite.FlatFile

/-!
# Turbolite.MemCache

The pages that the disk cache also holds in memory (`mem_cache`), in uncompressed mode. Every call that
changes pages is a sequence of loops over its pages and of calls of the file, in the order of the source;
between any two of them pages may be read, and each call of the file may fail.

`mem_cache_coherent` says along which runs a page is read as the latest write or install has it, and a
slot holds what the file has.
-/

namespace Turbolite.MemCache

open Blocks Results RawFile Runs CacheFile

/-! ### Data -/

/-- The parts of a call. -/
inductive Act where
  /-- `install_mem_cache_page`, page by page -/
  | promote (ws : List (Nat × Bytes))
  | clearSlots (pageNums : List Nat)
  | ensureCapacity (pageNums : List Nat)
  /-- encryption, where it comes before every write -/
  | encode
  | extend (needed : Nat)
  /-- `write_all_at`, page by page -/
  | write (ws : List (Nat × Bytes))
  | mark (pageNums : List Nat)
  | unmark (pageNums : List Nat)
  | punch (pageNums : List Nat)
  | setLen (pageCount : Nat)
  /-- the bits and slots of a truncation, up to the capacity of the bitmap -/
  | unmarkFrom (pageCount : Nat)
  | clearSlotsFrom (pageCount : Nat)
  /-- step 4 of `finalize` -/
  | replay (ws : List (Nat × Bytes))
  /-- `rollback_pre_images` -/
  | restore
  /-- after a rollback: all pages restored, or not -/
  | settle
  | taint
  /-- the pages count as written; nothing is done -/
  | commit

/-- The cache file, the slots and the replay's pre-images. -/
structure Cells where
  cache : CacheFile := {}
  slots : Nat → Option Bytes := fun _ => none
  /-- `mem_cache_bytes` -/
  slotBytes : Nat := 0
  tainted : Bool := false
  preImages : List (Nat × Bytes) := []
  /-- what the call under way writes -/
  next : List (Nat × Bytes) := []
  /-- the slots when it began -/
  before : Nat → Option Bytes := fun _ => none
  /-- the bytes of the latest write or install of each page -/
  last : PageMap := PageMap.empty

/-- What is left of the call under way. -/
structure State extends Cells where
  acts : List Act := []

/-- The calls of the cache. -/
inductive Call where
  | writePage (page : Nat) (data : Bytes)
  | writePagesBulk (startPage numPages : Nat) (data : Bytes)
  | writePagesScattered (pageNums : List Nat) (data : Bytes)
  /-- also `evict_sub_chunk` and `evict_to_budget` -/
  | clearPagesFromDisk (pageNums : List Nat)
  /-- also of `set_manifest`, for every changed group -/
  | evictGroup (pageNums : List Nat)
  | clearPagesFromMemCache (pageNums : List Nat)
  | invalidateGroup (gid pagesPerGroup : Nat)
  | truncateToPageCount (pageCount : Nat)
  /-- the commit of `finalize`, with the page count when the database shrinks -/
  | finalize (staged : List (Nat × Bytes)) (truncateTo : Option Nat)

/-! ### Parts of a call -/

section

variable (k : CacheConfig) (budget : Nat)

/-- `install_mem_cache_page`. -/
def Cells.install (c : Cells) (p : Nat) (data : Bytes) : Cells :=
  if (c.slots p).isNone ∧ budget < c.slotBytes + k.pageSize then c
  else
    let page := data.take k.pageSize ++ List.replicate (k.pageSize - data.length) 0
    { c with
      slots := Function.update c.slots p (some page)
      slotBytes := if (c.slots p).isNone then c.slotBytes + k.pageSize else c.slotBytes }

/-- One slot of `clear_pages_from_mem_cache`. -/
def Cells.clearSlot (c : Cells) (p : Nat) : Cells :=
  if (c.slots p).isNone then c
  else { c with
    slots := Function.update c.slots p none
    slotBytes := c.slotBytes - k.pageSize }

/-- The write of a page slot. -/
def writeSlot (f : File) (w : Nat × Bytes) : File := f.writeAt (w.1 * k.slotStride) (k.sealSlot w.2)

/-- A write of a page slot that stops. -/
def tearSlot (f : File) (w : Nat × Bytes) (bytes : Nat) : File :=
  f.writeAt (w.1 * k.slotStride) ((k.sealSlot w.2).take bytes)

/-- `read_page` into a buffer of `len` bytes. -/
def Cells.readPage (c : Cells) (p len : Nat) : IoResult Bytes :=
  if c.tainted then .error (.io .other
    "DiskCache is tainted (replay rollback failed); restart the VFS to recover from the staging log")
  else
    match c.slots p with
    | some page => .ok (page.take (min len k.pageSize))
    | none => c.cache.readInto k p len

/-- The pre-image of a page; a page past the end of the file has none. -/
def Cells.preImage (c : Cells) (p : Nat) : IoResult (Option Bytes) :=
  if c.cache.isPresent k p then
    match c.readPage k p k.pageSize with
    | .ok buf => .ok (some buf)
    | .error (.io .unexpectedEof _) => .ok none
    | .error e => .error e
  else .ok none

/-- One page of step 4; `none` when it fails. -/
def Cells.replayPage (c : Cells) (w : Nat × Bytes) : Option Cells :=
  match c.preImage k w.1 with
  | .error _ => none
  | .ok preImage =>
    if c.tainted then none
    else
      let needed := w.1 * k.slotStride + (k.sealSlot w.2).length
      some { c with
        cache := { c.cache with file := writeSlot k (ensureFileLen c.cache.file needed) w }
        preImages := (preImage.map (w.1, ·)).toList ++ c.preImages }

/-- `rollback_pre_images`; the writes of the pages in `failed` stop after so many bytes. -/
def Cells.rollback (c : Cells) (failed : List (Nat × Nat)) : File :=
  c.preImages.foldl (fun f w =>
    match failed.lookup w.1 with
    | some bytes => tearSlot k f w bytes
    | none => writeSlot k (ensureFileLen f (w.1 * k.slotStride + (k.sealSlot w.2).length)) w) c.cache.file

/-- A part that goes through; `none` when it cannot. -/
def Cells.apply (c : Cells) : Act → Option Cells
  | .promote ws => some (ws.foldl (fun c w => c.install k budget w.1 w.2) c)
  | .clearSlots pageNums => some (pageNums.foldl (fun c p => c.clearSlot k p) c)
  | .ensureCapacity pageNums => some { c with cache := { c.cache with
      toPresence := pageNums.foldl Presence.ensureCapacity c.cache.toPresence } }
  | .encode => some c
  | .extend needed => some { c with cache := { c.cache with
      file := ensureFileLen c.cache.file needed } }
  | .write ws => some { c with cache := { c.cache with file := ws.foldl (writeSlot k) c.cache.file } }
  | .mark pageNums => some { c with cache := { c.cache with
      toPresence := pageNums.foldl Presence.mark c.cache.toPresence } }
  | .unmark pageNums => some { c with cache := { c.cache with
      bitmap := fun p => c.cache.bitmap p && !pageNums.contains p } }
  | .punch pageNums => some { c with cache := { c.cache with
      file := pageNums.foldl (fun f p => f.punch (p * k.slotStride) k.slotStride) c.cache.file } }
  | .setLen n => some { c with cache := { c.cache with file := c.cache.file.setLen (n * k.slotStride) } }
  | .unmarkFrom n => some { c with cache := { c.cache with
      bitmap := fun p => c.cache.bitmap p && !(decide (n ≤ p) && decide (p < c.cache.capacity)) } }
  | .clearSlotsFrom n =>
    some ((List.range' n (c.cache.capacity - n)).foldl (fun c p => c.clearSlot k p) c)
  | .replay ws => ws.foldlM (fun c w => c.replayPage k w) c
  | .restore => some { c with cache := { c.cache with file := c.rollback k [] } }
  | .settle => some { c with preImages := [], next := [] }
  | .taint => some { c with tainted := true, preImages := [], next := [] }
  | .commit =>
    some { c with last := c.last.install c.next, next := [], preImages := [], before := c.slots }

/-! ### Calls -/

/-- The pages a call writes. -/
def Call.writes : Call → List (Nat × Bytes)
  | .writePage p data => [(p, data)]
  | .writePagesBulk start n data =>
    if data.length < n * k.pageSize then []
    else CacheRestart.writes k ((List.range n).map (start + ·)) data
  | .writePagesScattered pageNums data => CacheRestart.writes k pageNums data
  | .finalize staged _ => staged
  | _ => []

/-- What a bulk write puts into the file. A buffer that is too long is written whole, unless its pages
are encrypted one by one. -/
def bulkWrites (start n : Nat) (data : Bytes) : List (Nat × Bytes) :=
  let count := if k.codec.encryptionKey.isSome then n else divCeil data.length k.pageSize
  (List.range count).map fun i => (start + i, block k.pageSize i data)

/-- The accesses of `truncate_to_page_count`. -/
def truncateActs (n : Nat) : List Act := [.setLen n, .unmarkFrom n, .clearSlotsFrom n]

/-- The parts of a call, in the order of the source. -/
def Call.acts (c : Call) : List Act :=
  let ws := c.writes k
  let pageNums := ws.map (·.1)
  match c with
  | .writePage p data =>
    [.encode, .ensureCapacity pageNums, .extend (p * k.slotStride + (k.sealSlot data).length),
      .write ws, .mark pageNums, .promote ws, .commit]
  | .writePagesBulk start n data =>
    if data.length < n * k.pageSize then []
    else
      let bytes := ((bulkWrites k start n data).map fun w => k.sealSlot w.2).flatten
      [.promote ws, .encode, .ensureCapacity pageNums, .extend (start * k.slotStride + bytes.length),
        .write (bulkWrites k start n data), .mark pageNums, .commit]
  | .writePagesScattered _ _ =>
    if ws.isEmpty then []
    else
      [.promote ws, .ensureCapacity pageNums, .extend ((pageNums.foldl max 0 + 1) * k.slotStride),
        .write ws, .mark pageNums, .commit]
  | .clearPagesFromDisk ps => [.unmark ps, .clearSlots ps, .punch ps]
  | .evictGroup ps => [.unmark ps, .clearSlots ps, .punch ps, .clearSlots ps]
  | .clearPagesFromMemCache ps => [.clearSlots ps]
  | .invalidateGroup gid ppg =>
    [.unmark (List.range' (gid * ppg) ppg), .clearSlots (List.range' (gid * ppg) ppg)]
  | .truncateToPageCount n => truncateActs n
  | .finalize _ truncateTo =>
    [.replay ws, .clearSlots pageNums, .ensureCapacity pageNums, .mark pageNums, .commit] ++
      (truncateTo.map truncateActs).getD []

/-- What a replay handle has staged: whole pages, each once. A bulk write is of a page at least. -/
def Call.Proper : Call → Prop
  | .writePagesBulk _ n _ => 0 < n
  | .finalize staged _ => (∀ w ∈ staged, w.2.length = k.pageSize) ∧ (staged.map (·.1)).Nodup
  | _ => True

/-- The call is refused by a tainted cache. -/
def Call.checksTainted : Call → Bool
  | .writePage .. => true
  | .writePagesBulk .. => true
  | .writePagesScattered .. => true
  | _ => false

end

/-! ### Steps -/

/-- What happens next. -/
inductive Event where
  | call (c : Call)
  /-- the next part goes through -/
  | next
  /-- the next part fails, after some pages and some bytes of another one; `none` when nothing of that
  one was written -/
  | stop (done : Nat) (bytes : Option Nat)
  /-- a rollback that does not restore some pages -/
  | stopRollback (failed : List (Nat × Nat))

section

variable (k : CacheConfig) (budget : Nat)

instance (c : Call) : Decidable (c.Proper k) :=
  match c with
  | .writePagesBulk .. => inferInstanceAs (Decidable (_ < _))
  | .finalize .. => inferInstanceAs (Decidable (_ ∧ _))
  | .writePage .. => .isTrue trivial
  | .writePagesScattered .. => .isTrue trivial
  | .clearPagesFromDisk _ => .isTrue trivial
  | .evictGroup _ => .isTrue trivial
  | .clearPagesFromMemCache _ => .isTrue trivial
  | .invalidateGroup .. => .isTrue trivial
  | .truncateToPageCount _ => .isTrue trivial

/-- A call returns an error. -/
def State.fail (s : State) (file : File) : State :=
  { s with
    cache := { s.cache with file := file }
    next := []
    acts := [] }

/-- The file after a write that stopped. -/
def stopped (f : File) (ws : List (Nat × Bytes)) (done : Nat) (bytes : Option Nat) : File :=
  let f := (ws.take done).foldl (writeSlot k) f
  match ws[done]?, bytes with
  | some w, some n => tearSlot k f w n
  | _, _ => f

/-- The file after the write of a replayed page that stopped. -/
def tornReplay (f : File) (w : Nat × Bytes) : Option Nat → File
  | none => f
  | some n => tearSlot k (ensureFileLen f (w.1 * k.slotStride + (k.sealSlot w.2).length)) w n

/-- One event; `none` when it cannot happen. One call is under way at a time. -/
def step (s : State) : Event → Option State
  | .call c =>
    if s.acts.isEmpty = true ∧ c.Proper k then
      if s.tainted && c.checksTainted then some s
      else some { s with
        next := c.writes k
        before := s.slots
        preImages := []
        acts := c.acts k }
    else none
  | .next =>
    match s.acts with
    | [] => none
    | a :: rest => (s.apply k budget a).map fun c => { toCells := c, acts := rest }
  | .stop done bytes =>
    match s.acts with
    | .encode :: _ | .extend _ :: _ | .setLen _ :: _ =>
      if done = 0 ∧ bytes = none then some (s.fail s.cache.file) else none
    | .write ws :: _ =>
      if done < ws.length then some (s.fail (stopped k s.cache.file ws done bytes)) else none
    | .replay ws :: _ =>
      ws[done]?.bind fun w =>
        ((ws.take done).foldlM (fun (c : Cells) w => c.replayPage k w) s.toCells).map fun c =>
          { toCells := { c with cache := { c.cache with file := tornReplay k c.cache.file w bytes } }
            acts := [.restore, .settle] }
    | _ => none
  | .stopRollback failed =>
    match s.acts with
    | .restore :: _ =>
      some { s with cache := { s.cache with file := s.rollback k failed }, acts := [.taint] }
    | _ => none

end

/-! ### Coherence -/

/-- What a page may be read as: the latest write or install, or the one under way. -/
def Cells.Source (c : Cells) (p : Nat) (data : Bytes) : Prop :=
  c.last p = some data ∨ (p, data) ∈ c.next

/-- A read returns what was written to the page, and between two calls a slot has the bytes of the file. -/
structure Coherent (k : CacheConfig) (s : State) : Prop where
  reads : ∀ p len out, len ≤ k.pageSize → s.cache.isPresent k p = true →
    s.readPage k p len = .ok out → ∃ data, s.Source p data ∧ out = data.take len
  /-- between the calls -/
  rest : s.acts = [] → s.tainted = false → s.next = [] ∧ ∀ p data, s.slots p = some data →
    s.cache.isPresent k p = true ∧ OnDisk k s.cache.file s.cache.toPresence p data

/-- A call writes whole pages; what a bulk write has too much goes over no page that is present. -/
def Call.Whole (k : CacheConfig) (s : State) : Call → Prop
  | .writePage _ data => data.length = k.pageSize
  | .writePagesBulk start n data => ∀ w ∈ bulkWrites k start n data,
      w.1 < start + n ∨ s.cache.bitmap w.1 = false
  | _ => True

/-- When a failure does no damage: the slots of the call's pages are as they were, and no byte of a page
that is present was written. -/
def Undamaging (k : CacheConfig) (s : State) : Event → Prop
  | .call c => c.Whole k s
  | .next => True
  | .stop done bytes =>
    match s.acts with
    | .write ws :: _ => (∀ w ∈ s.next, s.slots w.1 = s.before w.1) ∧
        ((done = 0 ∧ bytes.getD 0 = 0) ∨ ∀ w ∈ ws.take (done + 1), s.cache.bitmap w.1 = false)
    | .replay ws :: _ => bytes.getD 0 = 0 ∨ ∀ w ∈ ws[done]?, s.cache.bitmap w.1 = false
    | _ => ∀ w ∈ s.next, s.slots w.1 = s.before w.1
  | .stopRollback failed => ∀ x ∈ failed, x.2 = 0

/-- A cache as a process opens it: nothing in memory, and every present page in the file. -/
structure Opened (k : CacheConfig) (s : State) : Prop where
  slots : ∀ p, s.slots p = none
  rest : s.acts = [] ∧ s.next = []
  pages : ∀ p, s.cache.bitmap p = true → ∃ data, s.last p = some data ∧ data.length = k.pageSize ∧
    OnDisk k s.cache.file s.cache.toPresence p data
  sized : Sized s.cache.toPresence

/-! ### Page slots of the file -/

variable {k : CacheConfig} {budget : Nat}

/-- The slot of a page is `data`. -/
def Held (k : CacheConfig) (f : File) (p : Nat) (data : Bytes) : Prop :=
  f.readAt (p * k.slotStride) k.slotStride = some (k.sealSlot data)

section Slots

variable {f : File} {p : Nat} {data : Bytes} {w : Nat × Bytes} {ws : List (Nat × Bytes)}

theorem held_iff (hk : k.compressed = false) {t : Presence} :
    Held k f p data ↔ OnDisk k f t p data := (CacheRestart.onDisk_uncompressed hk).symm

theorem Held.le (h : Held k f p data) : p * k.slotStride + k.slotStride ≤ f.len :=
  le_len_of_readAt h k.slotStride_pos

theorem Held.setLen (h : Held k f p data) {n : Nat} (hn : p * k.slotStride + k.slotStride ≤ n) :
    Held k (f.setLen n) p data :=
  readAt_setLen hn h

theorem Held.ensureFileLen (h : Held k f p data) (n : Nat) : Held k (ensureFileLen f n) p data := by
  unfold CacheFile.ensureFileLen
  split
  · exact h.setLen (h.le.trans (by omega))
  · exact h

/-- A write that stays in another slot. -/
theorem Held.writeAt (h : Held k f p data) {q : Nat} (hq : q ≠ p) {bytes : Bytes}
    (hlen : bytes.length ≤ k.slotStride) : Held k (f.writeAt (q * k.slotStride) bytes) p data := by
  refine readAt_writeAt_disjoint ?_ h
  have hd : p * k.slotStride + k.slotStride ≤ q * k.slotStride ∨
      q * k.slotStride + k.slotStride ≤ p * k.slotStride := slots_disjoint hq.symm
  omega

theorem Held.writeSlot (h : Held k f p data) (hw : w.1 ≠ p)
    (hlen : (k.sealSlot w.2).length ≤ k.slotStride) : Held k (writeSlot k f w) p data :=
  h.writeAt hw hlen

theorem held_writeSlot (hs : k.codec.FrameSized) (hlen : w.2.length = k.pageSize) :
    Held k (writeSlot k f w) w.1 w.2 := by
  have h := readAt_writeAt_same f (w.1 * k.slotStride) (k.sealSlot w.2)
  rw [length_sealSlot hs hlen] at h
  exact h

theorem writeSlot_ensureFileLen (hs : k.codec.FrameSized) (f : File) (hlen : w.2.length = k.pageSize) :
    writeSlot k (ensureFileLen f (w.1 * k.slotStride + (k.sealSlot w.2).length)) w =
      writeSlot k f w := by
  refine ensureFileLen_writeAt _ _ fun hnil => ?_
  have hpos := k.slotStride_pos
  rw [← length_sealSlot hs hlen, hnil] at hpos
  exact absurd hpos (Nat.lt_irrefl 0)

theorem Held.foldl_writeSlot (h : Held k f p data) (hp : ∀ w ∈ ws, w.1 ≠ p)
    (hlen : ∀ w ∈ ws, (k.sealSlot w.2).length ≤ k.slotStride) :
    Held k (ws.foldl (MemCache.writeSlot k) f) p data := by
  induction ws generalizing f with
  | nil => exact h
  | cons w ws ih =>
    rw [List.foldl_cons]
    exact ih (h.writeSlot (hp w (List.mem_cons_self ..)) (hlen w (List.mem_cons_self ..)))
      (fun x hx => hp x (List.mem_cons_of_mem _ hx)) fun x hx => hlen x (List.mem_cons_of_mem _ hx)

/-- A write that stopped keeps the other slots. -/
theorem Held.tearSlot (h : Held k f p data) (hw : w.1 ≠ p)
    (hlen : (k.sealSlot w.2).length ≤ k.slotStride) (n : Nat) : Held k (tearSlot k f w n) p data := by
  refine h.writeAt hw ?_
  rw [List.length_take]
  omega

/-- A write that stopped before its first byte. -/
theorem Held.tearSlot_zero (h : Held k f p data) (w : Nat × Bytes) :
    Held k (MemCache.tearSlot k f w 0) p data := by
  unfold MemCache.tearSlot
  rw [List.take_zero, writeAt_nil]
  exact h

/-- After a list of writes every page is as the last one of it has it. -/
theorem held_foldl_writeSlot (hs : k.codec.FrameSized) {c : PageMap}
    (hlen : ∀ w ∈ ws, w.2.length = k.pageSize) (hp : c.install ws p = some data)
    (h : p ∉ ws.map (·.1) → Held k f p data) : Held k (ws.foldl (writeSlot k) f) p data := by
  induction ws using List.reverseRecOn generalizing data with
  | nil => exact h List.not_mem_nil
  | append_singleton ws w ih =>
    have hw : w.2.length = k.pageSize := hlen w (by simp)
    have hlast : c.install (ws ++ [w]) = Function.update (c.install ws) w.1 (some w.2) :=
      PageMap.install_append ..
    rw [List.foldl_concat]
    rw [hlast] at hp
    by_cases hwp : w.1 = p
    · subst hwp
      rw [Function.update_self] at hp
      obtain rfl : w.2 = data := Option.some.inj hp
      exact held_writeSlot hs hw
    · rw [Function.update_of_ne (Ne.symm hwp)] at hp
      refine (ih (fun x hx => hlen x (List.mem_append_left _ hx)) hp fun hnot => h ?_).writeSlot hwp
        (length_sealSlot hs hw).le
      rw [List.map_append, List.mem_append, not_or]
      exact ⟨hnot, by simpa using Ne.symm hwp⟩

end Slots

/-! ### Loops over pages -/

section Loops

variable {c : Cells} {p : Nat} {data : Bytes} {ws : List (Nat × Bytes)}

/-- The slots hold what the map has. -/
def Slotted (c : Cells) (m : PageMap) : Prop := ∀ p data, c.slots p = some data → m p = some data

/-- What an install does to the slots: a slot that is taken gets the page, an empty one may stay so. -/
theorem install_spec (budget : Nat) (c : Cells) (p : Nat) (hlen : data.length = k.pageSize) :
    ∃ slots slotBytes,
    c.install k budget p data = { c with slots := slots, slotBytes := slotBytes } ∧
      (∀ q, q ≠ p → slots q = c.slots q) ∧
      (slots p = none ∨ slots p = some data) := by
  unfold Cells.install
  split
  · rename_i hfull
    exact ⟨c.slots, c.slotBytes, rfl, fun _ _ => rfl, .inl (Option.isNone_iff_eq_none.mp hfull.1)⟩
  · refine ⟨_, _, rfl, fun q hq => Function.update_of_ne hq _ _, .inr ?_⟩
    rw [Function.update_self, hlen, Nat.sub_self, List.replicate_zero, List.append_nil, ← hlen,
      List.take_length]

theorem promote_spec (budget : Nat) {m : PageMap} (h : Slotted c m)
    (hlen : ∀ w ∈ ws, w.2.length = k.pageSize) :
    ∃ slots slotBytes,
      ws.foldl (fun (c : Cells) w => c.install k budget w.1 w.2) c =
          { c with slots := slots, slotBytes := slotBytes } ∧
        (∀ q, q ∉ ws.map (·.1) → slots q = c.slots q) ∧
        ∀ q data, slots q = some data → m.install ws q = some data := by
  induction ws generalizing c m with
  | nil => exact ⟨c.slots, c.slotBytes, rfl, fun _ _ => rfl, h⟩
  | cons w ws ih =>
    obtain ⟨slots, slotBytes, heq, hother, hp⟩ :=
      install_spec budget c w.1 (hlen w (List.mem_cons_self ..))
    have hone : Slotted (c.install k budget w.1 w.2) (Function.update m w.1 (some w.2)) := by
      intro q data hq
      rw [heq] at hq
      by_cases hqw : q = w.1
      · subst hqw
        rw [Function.update_self]
        cases hp with
        | inl hnone => exact absurd (hq.symm.trans hnone) (by simp)
        | inr hsome => exact hsome.symm.trans hq
      · rw [Function.update_of_ne hqw]
        exact h q data ((hother q hqw).symm.trans hq)
    obtain ⟨slots', slotBytes', heq', hother', hslots'⟩ :=
      ih hone fun x hx => hlen x (List.mem_cons_of_mem _ hx)
    refine ⟨slots', slotBytes', ?_, fun q hq => ?_, hslots'⟩
    · rw [List.foldl_cons, heq', heq]
    · rw [List.map_cons, List.mem_cons, not_or] at hq
      rw [hother' q hq.2, heq]
      exact hother q hq.1

theorem clearSlots_spec (c : Cells) (ps : List Nat) : ∃ slots slotBytes,
    ps.foldl (fun (c : Cells) p => c.clearSlot k p) c =
        { c with slots := slots, slotBytes := slotBytes } ∧
      ∀ q, slots q = if q ∈ ps then none else c.slots q := by
  induction ps generalizing c with
  | nil => exact ⟨c.slots, c.slotBytes, rfl, fun q => by simp⟩
  | cons p ps ih =>
    have hone : ∃ slots slotBytes, c.clearSlot k p = { c with slots := slots, slotBytes := slotBytes } ∧
        ∀ q, slots q = if q = p then none else c.slots q := by
      unfold Cells.clearSlot
      split
      · rename_i hnone
        refine ⟨c.slots, c.slotBytes, rfl, fun q => ?_⟩
        split
        · rename_i hq
          rw [hq]
          exact Option.isNone_iff_eq_none.mp hnone
        · rfl
      · exact ⟨_, _, rfl, fun q => Function.update_apply ..⟩
    obtain ⟨slots, slotBytes, heq, hslots⟩ := hone
    obtain ⟨slots', slotBytes', heq', hslots'⟩ := ih (c.clearSlot k p)
    refine ⟨slots', slotBytes', ?_, fun q => ?_⟩
    · rw [List.foldl_cons, heq', heq]
    · rw [hslots' q, heq]
      dsimp only
      rw [hslots q]
      simp only [List.mem_cons]
      split_ifs <;> simp_all

theorem bitmap_foldl_mark (t : Presence) (ps : List Nat) (p : Nat) :
    (ps.foldl Presence.mark t).bitmap p = true ↔ p ∈ ps ∨ t.bitmap p = true := by
  induction ps generalizing t with
  | nil => simp
  | cons q ps ih =>
    rw [List.foldl_cons, ih]
    by_cases hq : p = q
    · subst hq
      simp [Presence.mark]
    · simp [Presence.mark, hq]

theorem sized_foldl_mark {t : Presence} (h : Sized t) (ps : List Nat) :
    Sized (ps.foldl Presence.mark t) := by
  induction ps generalizing t with
  | nil => exact h
  | cons q ps ih =>
    rw [List.foldl_cons]
    exact ih (h.mark q)

theorem bitmap_foldl_ensureCapacity (t : Presence) (ps : List Nat) :
    (ps.foldl Presence.ensureCapacity t).bitmap = t.bitmap := by
  induction ps generalizing t with
  | nil => rfl
  | cons q ps ih => rw [List.foldl_cons, ih, Presence.ensureCapacity]

theorem sized_foldl_ensureCapacity {t : Presence} (h : Sized t) (ps : List Nat) :
    Sized (ps.foldl Presence.ensureCapacity t) := by
  induction ps generalizing t with
  | nil => exact h
  | cons q ps ih =>
    rw [List.foldl_cons]
    exact ih fun p hp => (h p hp).trans_le (Nat.le_max_left ..)

end Loops

/-! ### Stages of a call -/

/-- The latest bytes of each page, once the call has gone through. -/
def Cells.target (c : Cells) : PageMap := c.last.install c.next

/-- What a read needs: slots and pages of the file are as some write has them, or cut off. -/
structure Weak (k : CacheConfig) (c : Cells) : Prop where
  slots : ∀ p data, c.slots p = some data → c.Source p data
  pages : ∀ p, c.cache.bitmap p = true → ∃ data, c.Source p data ∧ data.length = k.pageSize ∧
    (Held k c.cache.file p data ∨ c.cache.file.len ≤ p * k.slotStride)

/-- Between the calls, with these slots. -/
structure Idle (k : CacheConfig) (c : Cells) (slots : Nat → Option Bytes) : Prop where
  pages : ∀ p, c.cache.bitmap p = true → ∃ data, c.last p = some data ∧ data.length = k.pageSize ∧
    Held k c.cache.file p data
  slots : ∀ p data, slots p = some data → c.cache.bitmap p = true ∧ c.last p = some data
  sized : Sized c.cache.toPresence

/-- Before the file is written; pages of the call may be in their slots already. -/
structure Calm (k : CacheConfig) (c : Cells) : Prop where
  idle : Idle k c c.before
  other : ∀ p, p ∉ c.next.map (·.1) → c.slots p = c.before p
  fresh : Slotted c c.last ∨ Slotted c c.target

/-- The pages of the call are in the file. -/
structure Landed (k : CacheConfig) (c : Cells) : Prop where
  pages : ∀ p, c.cache.bitmap p = true ∨ p ∈ c.next.map (·.1) →
    ∃ data, c.target p = some data ∧ data.length = k.pageSize ∧ Held k c.cache.file p data
  slots : ∀ p data, c.slots p = some data → c.cache.bitmap p = true ∨ p ∈ c.next.map (·.1)
  fresh : Slotted c c.last ∨ Slotted c c.target
  sized : Sized c.cache.toPresence

/-- A replay that failed, before its rollback: a present page that was written has its pre-image. -/
structure Rolling (k : CacheConfig) (c : Cells) : Prop where
  pages : ∀ p, c.cache.bitmap p = true → ∃ data, c.last p = some data ∧ data.length = k.pageSize ∧
    (Held k c.cache.file p data ∨ (p, data) ∈ c.preImages ∧
      ∃ new, (p, new) ∈ c.next ∧ new.length = k.pageSize ∧ Held k c.cache.file p new)
  images : ∀ w ∈ c.preImages, c.last w.1 = some w.2 ∧ w.2.length = k.pageSize
  slots : ∀ p data, c.slots p = some data → c.cache.bitmap p = true ∧ c.last p = some data
  sized : Sized c.cache.toPresence

section Stages

variable {c : Cells} {p : Nat} {data : Bytes} {ws : List (Nat × Bytes)}

theorem source_of_target (h : c.target p = some data) : c.Source p data := by
  cases PageMap.install_cases c.last c.next p with
  | inl hold => exact .inl (hold.2.symm.trans h)
  | inr hnew =>
    obtain ⟨new, hmem, heq⟩ := hnew
    obtain rfl : new = data := Option.some.inj (heq.symm.trans h)
    exact .inr hmem

theorem source_of_fresh (h : Slotted c c.last ∨ Slotted c c.target) (hp : c.slots p = some data) :
    c.Source p data := by
  cases h with
  | inl hlast => exact .inl (hlast p data hp)
  | inr hnew => exact source_of_target (hnew p data hp)

theorem Idle.slotted (h : Idle k c c.slots) : Slotted c c.last := fun p data hp => (h.slots p data hp).2

/-- A change of the cache that keeps the present pages in the file. -/
theorem Idle.withCache {slots : Nat → Option Bytes} (h : Idle k c slots) (cache : CacheFile)
    (hbitmap : cache.bitmap = c.cache.bitmap) (hsized : Sized cache.toPresence)
    (hfile : ∀ p data, c.cache.bitmap p = true → Held k c.cache.file p data → Held k cache.file p data) :
    Idle k { c with cache := cache } slots where
  pages p hp := by
    have hp' : c.cache.bitmap p = true := hbitmap ▸ hp
    obtain ⟨data, hlast, hlen, hheld⟩ := h.pages p hp'
    exact ⟨data, hlast, hlen, hfile p data hp' hheld⟩
  slots p data hp := ⟨hbitmap ▸ (h.slots p data hp).1, (h.slots p data hp).2⟩
  sized := hsized

theorem Calm.withCache (h : Calm k c) (cache : CacheFile)
    (hbitmap : cache.bitmap = c.cache.bitmap) (hsized : Sized cache.toPresence)
    (hfile : ∀ p data, Held k c.cache.file p data → Held k cache.file p data) :
    Calm k { c with cache := cache } where
  idle := h.idle.withCache cache hbitmap hsized fun p data _ => hfile p data
  other := h.other
  fresh := h.fresh

theorem Idle.weak {slots : Nat → Option Bytes} (h : Idle k c slots) (hs : Slotted c c.last) :
    Weak k c where
  slots p data hp := .inl (hs p data hp)
  pages p hp := by
    obtain ⟨data, hlast, hlen, hheld⟩ := h.pages p hp
    exact ⟨data, .inl hlast, hlen, .inl hheld⟩

theorem Calm.weak (h : Calm k c) : Weak k c where
  slots _ _ hp := source_of_fresh h.fresh hp
  pages p hp := by
    obtain ⟨data, hlast, hlen, hheld⟩ := h.idle.pages p hp
    exact ⟨data, .inl hlast, hlen, .inl hheld⟩

theorem Landed.weak (h : Landed k c) : Weak k c where
  slots _ _ hp := source_of_fresh h.fresh hp
  pages p hp := by
    obtain ⟨data, htarget, hlen, hheld⟩ := h.pages p (.inl hp)
    exact ⟨data, source_of_target htarget, hlen, .inl hheld⟩

theorem Rolling.weak (h : Rolling k c) : Weak k c where
  slots p data hp := .inl (h.slots p data hp).2
  pages p hp := by
    obtain ⟨data, hlast, hlen, hheld | ⟨-, new, hnew, hlen', hheld⟩⟩ := h.pages p hp
    · exact ⟨data, .inl hlast, hlen, .inl hheld⟩
    · exact ⟨new, .inr hnew, hlen', .inl hheld⟩

/-! ### What the parts do to the stages -/

theorem Idle.calm (h : Idle k c c.slots) (ws : List (Nat × Bytes)) :
    Calm k { c with next := ws, before := c.slots, preImages := [] } where
  idle := ⟨h.pages, h.slots, h.sized⟩
  other _ _ := rfl
  fresh := .inl h.slotted

/-- A call that fails with the slots of its pages as they were. -/
theorem Calm.stop (h : Calm k c) (hslots : ∀ w ∈ c.next, c.slots w.1 = c.before w.1) :
    Idle k c c.slots := by
  have heq : c.slots = c.before := by
    funext p
    by_cases hp : p ∈ c.next.map (·.1)
    · obtain ⟨w, hw, rfl⟩ := List.mem_map.mp hp
      exact hslots w hw
    · exact h.other p hp
  rw [heq]
  exact h.idle

theorem Calm.ensureCapacity (h : Calm k c) (ps : List Nat) : Calm k { c with cache := { c.cache with
    toPresence := ps.foldl Presence.ensureCapacity c.cache.toPresence } } :=
  h.withCache _ (bitmap_foldl_ensureCapacity ..) (sized_foldl_ensureCapacity h.idle.sized ps)
    fun _ _ hheld => hheld

theorem Calm.extend (h : Calm k c) (n : Nat) : Calm k { c with cache := { c.cache with
    file := ensureFileLen c.cache.file n } } :=
  h.withCache _ rfl h.idle.sized fun _ _ hheld => hheld.ensureFileLen n

/-- The file takes the pages of the call, and no other page that is present. -/
theorem Calm.write (hs : k.codec.FrameSized) (h : Calm k c) (hlen : ∀ w ∈ c.next, w.2.length = k.pageSize)
    (extra : List (Nat × Bytes)) (hextra : ∀ w ∈ extra, c.cache.bitmap w.1 = false ∧
      w.1 ∉ c.next.map (·.1) ∧ (k.sealSlot w.2).length ≤ k.slotStride) :
    Landed k { c with cache := { c.cache with
      file := (c.next ++ extra).foldl (writeSlot k) c.cache.file } } where
  pages p hp := by
    have hkept : ∀ data, c.target p = some data → (p ∉ c.next.map (·.1) → Held k c.cache.file p data) →
        Held k ((c.next ++ extra).foldl (writeSlot k) c.cache.file) p data := by
      intro data htarget hheld
      rw [List.foldl_append]
      refine (held_foldl_writeSlot hs hlen htarget hheld).foldl_writeSlot (fun w hw he => ?_)
        fun w hw => (hextra w hw).2.2
      obtain ⟨habsent, hnot, -⟩ := hextra w hw
      rw [he] at habsent hnot
      exact hp.elim (fun hpres => by rw [habsent] at hpres; cases hpres) hnot
    cases PageMap.install_cases c.last c.next p with
    | inl hold =>
      obtain ⟨data, hlast, hlen', hheld⟩ := h.idle.pages p (hp.resolve_right hold.1)
      have htarget : c.target p = some data := hold.2.trans hlast
      exact ⟨data, htarget, hlen', hkept data htarget fun _ => hheld⟩
    | inr hnew =>
      obtain ⟨data, hmem, htarget⟩ := hnew
      exact ⟨data, htarget, hlen _ hmem,
        hkept data htarget fun hnot => absurd (List.mem_map.mpr ⟨_, hmem, rfl⟩) hnot⟩
  slots p data hp := by
    by_cases hnext : p ∈ c.next.map (·.1)
    · exact .inr hnext
    · exact .inl (h.idle.slots p data ((h.other p hnext).symm.trans hp)).1
  fresh := h.fresh
  sized := h.idle.sized

theorem Landed.mark (h : Landed k c) : Landed k { c with cache := { c.cache with
    toPresence := (c.next.map (·.1)).foldl Presence.mark c.cache.toPresence } } where
  pages p hp := by
    refine h.pages p (hp.elim (fun hmark => ?_) .inr)
    exact ((bitmap_foldl_mark _ _ p).mp hmark).symm
  slots p data hp := .inl ((bitmap_foldl_mark _ _ p).mpr (h.slots p data hp).symm)
  fresh := h.fresh
  sized := sized_foldl_mark h.sized _

theorem Landed.ensureCapacity (h : Landed k c) (ps : List Nat) : Landed k { c with cache :=
    { c.cache with toPresence := ps.foldl Presence.ensureCapacity c.cache.toPresence } } where
  pages p hp := by
    refine h.pages p ?_
    rwa [bitmap_foldl_ensureCapacity] at hp
  slots p data hp := by
    rw [bitmap_foldl_ensureCapacity]
    exact h.slots p data hp
  fresh := h.fresh
  sized := sized_foldl_ensureCapacity h.sized ps

/-- The end of a call whose slots hold its pages. -/
theorem Landed.commit (h : Landed k c) (hfresh : Slotted c c.target)
    (hmarked : ∀ p ∈ c.next.map (·.1), c.cache.bitmap p = true) :
    Idle k { c with last := c.target, next := [], preImages := [], before := c.slots } c.slots where
  pages p hp := h.pages p (.inl hp)
  slots p data hp := ⟨(h.slots p data hp).elim id (hmarked p), hfresh p data hp⟩
  sized := h.sized

end Stages

/-! ### Replay and rollback -/

section Replay

variable {c c' : Cells} {p len : Nat} {data : Bytes} {ws : List (Nat × Bytes)}

/-- A page is read from its slot or from the file. -/
theorem readPage_of_held (hc : k.codec.codecs.Lawful) (hk : k.compressed = false)
    (ht : c.tainted = false) (hslot : ∀ page, c.slots p = some page → page = data)
    (hlen : data.length = k.pageSize) (hheld : Held k c.cache.file p data) (hle : len ≤ k.pageSize) :
    c.readPage k p len = .ok (data.take len) := by
  unfold Cells.readPage
  rw [ht, if_neg (by decide)]
  cases hs : c.slots p with
  | none => exact ((held_iff hk).mp hheld).readInto hc hlen hle
  | some page =>
    dsimp only
    rw [Nat.min_eq_left hle, hslot page hs]

theorem preImage_of_pages (hc : k.codec.codecs.Lawful) (hk : k.compressed = false)
    (ht : c.tainted = false) (hslots : Slotted c c.last)
    (hpage : c.cache.bitmap p = true → ∃ data, c.last p = some data ∧ data.length = k.pageSize ∧
      Held k c.cache.file p data) :
    c.preImage k p = .ok (if c.cache.bitmap p then c.last p else none) := by
  unfold Cells.preImage
  rw [isPresent_uncompressed hk]
  by_cases hp : c.cache.bitmap p = true
  · obtain ⟨data, hlast, hlen, hheld⟩ := hpage hp
    have hread := readPage_of_held hc hk ht (fun page hs => Option.some.inj ((hslots p page hs).symm.trans hlast))
      hlen hheld le_rfl
    rw [← hlen, List.take_length, hlen] at hread
    rw [if_pos hp, if_pos hp, hread, hlast]
  · rw [if_neg hp, if_neg hp]

/-- Step 4 of a finalize, over pages that are each written once: the file has them, and the present
ones have a pre-image. -/
theorem replay_spec (hc : k.codec.codecs.Lawful) (hk : k.compressed = false) (hs : k.codec.FrameSized)
    (h : Idle k c c.slots) (ht : c.tainted = false)
    (himages : c.preImages = []) (hlen : ∀ w ∈ ws, w.2.length = k.pageSize)
    (hnd : (ws.map (·.1)).Nodup)
    (hrun : ws.foldlM (fun (c : Cells) w => c.replayPage k w) c = some c') : ∃ images,
    c' = { c with
      cache := { c.cache with file := ws.foldl (writeSlot k) c.cache.file }
      preImages := images } ∧
    (∀ w ∈ images, c.cache.bitmap w.1 = true ∧ c.last w.1 = some w.2) ∧
    ∀ p ∈ ws.map (·.1), c.cache.bitmap p = true → ∀ data, c.last p = some data →
      (p, data) ∈ images := by
  induction ws using List.reverseRecOn generalizing c' with
  | nil =>
    cases hrun
    refine ⟨[], ?_, fun w hw => (List.not_mem_nil hw).elim, fun p hp => (List.not_mem_nil hp).elim⟩
    rw [List.foldl_nil, ← himages]
  | append_singleton ws w ih =>
    rw [List.map_append, List.nodup_append] at hnd
    obtain ⟨hnd', -, hdisj⟩ := hnd
    have hnew : ∀ x ∈ ws, x.1 ≠ w.1 := fun x hx he =>
      hdisj x.1 (List.mem_map.mpr ⟨x, hx, rfl⟩) w.1 (by simp) he
    rw [List.foldlM_append] at hrun
    obtain ⟨m, hm, hlast⟩ := Option.bind_eq_some_iff.mp hrun
    obtain ⟨images, heq, hold, hall⟩ := ih (fun x hx => hlen x (List.mem_append_left _ hx)) hnd' hm
    -- the pages before are others, so the pre-image is the page as it was at the start
    have hpre : m.preImage k w.1 = .ok (if c.cache.bitmap w.1 then c.last w.1 else none) := by
      rw [heq]
      refine preImage_of_pages hc hk ht h.slotted fun hp => ?_
      obtain ⟨data, hl, hd, hheld⟩ := h.pages w.1 hp
      exact ⟨data, hl, hd, hheld.foldl_writeSlot (fun x hx => hnew x hx)
        fun x hx => (length_sealSlot hs (hlen x (List.mem_append_left _ hx))).le⟩
    obtain ⟨m', hm', hnil⟩ := Option.bind_eq_some_iff.mp hlast
    cases hnil
    unfold Cells.replayPage at hm'
    have htm : m.tainted = false := by
      rw [heq]
      exact ht
    simp only [hpre, htm, Bool.false_eq_true, if_false] at hm'
    obtain rfl := Option.some.inj hm'
    refine ⟨((if c.cache.bitmap w.1 then c.last w.1 else none).map (w.1, ·)).toList ++ images,
      ?_, fun x hx => ?_, fun p hp hbit data hdata => ?_⟩
    · rw [heq, List.foldl_concat]
      simp only [writeSlot_ensureFileLen hs _ (hlen w (by simp)), ht]
    · rw [List.mem_append] at hx
      refine hx.elim (fun hx => ?_) (hold x)
      obtain ⟨d, hd, rfl⟩ := Option.map_eq_some_iff.mp (Option.mem_toList.mp hx)
      split at hd
      · rename_i hbit
        exact ⟨hbit, hd⟩
      · cases hd
    · rw [List.mem_append]
      by_cases hpw : p = w.1
      · subst hpw
        left
        rw [if_pos hbit, hdata]
        simp
      · refine .inr (hall p ?_ hbit data hdata)
        rw [List.map_append, List.mem_append] at hp
        exact hp.resolve_right (by simpa using hpw)

/-- A write that stopped, and did no damage. -/
theorem Held.stopped {f : File} (h : Held k f p data) {done : Nat} {bytes : Option Nat}
    (hlen : ∀ w ∈ ws, (k.sealSlot w.2).length ≤ k.slotStride)
    (hcond : (done = 0 ∧ bytes.getD 0 = 0) ∨ ∀ w ∈ ws.take (done + 1), w.1 ≠ p) :
    Held k (stopped k f ws done bytes) p data := by
  have hheld : Held k ((ws.take done).foldl (MemCache.writeSlot k) f) p data := by
    refine h.foldl_writeSlot (fun w hw => ?_) fun w hw => hlen w (List.mem_of_mem_take hw)
    cases hcond with
    | inl hnone =>
      rw [hnone.1, List.take_zero] at hw
      cases hw
    | inr hother => exact hother w (List.take_subset_take_left _ (Nat.le_succ done) hw)
  unfold MemCache.stopped
  dsimp only
  split
  · rename_i w n hw
    cases hcond with
    | inl hnone =>
      obtain rfl : n = 0 := hnone.2
      exact hheld.tearSlot_zero w
    | inr hother =>
      obtain ⟨hlt, rfl⟩ := List.getElem?_eq_some_iff.mp hw
      refine hheld.tearSlot (hother _ ?_) (hlen _ (List.getElem_mem hlt)) n
      exact List.mem_take_iff_getElem.mpr ⟨done, by omega, rfl⟩
  · exact hheld

/-- A rollback that goes through. -/
theorem Rolling.restore (hs : k.codec.FrameSized) (h : Rolling k c) :
    Idle k { c with cache := { c.cache with file := c.rollback k [] } } c.slots where
  pages p hp := by
    obtain ⟨data, hlast, hlen, hpage⟩ := h.pages p hp
    refine ⟨data, hlast, hlen, ?_⟩
    -- every pre-image is the latest write of its page
    have hsame : ∀ ws : List (Nat × Bytes), (∀ w ∈ ws, w ∈ c.preImages) → c.last.install ws p = some data := by
      intro ws hws
      cases PageMap.install_cases c.last ws p with
      | inl hold => exact hold.2.trans hlast
      | inr hnew =>
        obtain ⟨new, hmem, heq⟩ := hnew
        exact heq.trans ((h.images _ (hws _ hmem)).1.symm.trans hlast)
    have hroll : c.rollback k [] = c.preImages.foldl (writeSlot k) c.cache.file := by
      have hstep : ∀ f, ∀ w ∈ c.preImages,
          writeSlot k (ensureFileLen f (w.1 * k.slotStride + (k.sealSlot w.2).length)) w =
            writeSlot k f w :=
        fun f w hw => writeSlot_ensureFileLen hs f (h.images w hw).2
      unfold Cells.rollback
      simp only [List.lookup_nil]
      exact List.foldl_ext _ _ _ hstep
    show Held k (c.rollback k []) p data
    rw [hroll]
    refine held_foldl_writeSlot hs (fun w hw => (h.images w hw).2) (hsame _ fun w hw => hw) fun hnot => ?_
    exact hpage.resolve_right fun himage => hnot (List.mem_map.mpr ⟨_, himage.1, rfl⟩)
  slots := h.slots
  sized := h.sized

/-- A rollback that fails leaves a page as it was before or as the call has it. -/
theorem Rolling.taint (hs : k.codec.FrameSized) (h : Rolling k c) {failed : List (Nat × Nat)}
    (hzero : ∀ x ∈ failed, x.2 = 0) :
    Weak k { c with cache := { c.cache with file := c.rollback k failed } } where
  slots := h.weak.slots
  pages p hp := by
    -- what the rollback has not reached is as a write has it, and what it writes is the latest write
    have hstep : ∀ ws : List (Nat × Bytes), (∀ w ∈ ws, w ∈ c.preImages) → ∀ f,
        (∃ data, c.Source p data ∧ data.length = k.pageSize ∧ Held k f p data) →
        ∃ data, c.Source p data ∧ data.length = k.pageSize ∧ Held k (ws.foldl (fun f w =>
          match failed.lookup w.1 with
          | some bytes => tearSlot k f w bytes
          | none => writeSlot k (ensureFileLen f (w.1 * k.slotStride + (k.sealSlot w.2).length)) w) f)
          p data := by
      intro ws
      induction ws with
      | nil => exact fun _ f hf => hf
      | cons w ws ih =>
        intro hws f hf
        obtain ⟨data, hsrc, hlen, hheld⟩ := hf
        refine ih (fun x hx => hws x (List.mem_cons_of_mem _ hx)) _ ?_
        obtain ⟨hlast, hwhole⟩ := h.images w (hws w (List.mem_cons_self ..))
        dsimp only
        split
        · rename_i bytes hlook
          obtain ⟨_, _, hmem, -⟩ := List.lookup_eq_some_iff.mp hlook
          obtain rfl : bytes = 0 := hzero (w.1, bytes) (by simp [hmem])
          exact ⟨data, hsrc, hlen, hheld.tearSlot_zero w⟩
        · by_cases hwp : w.1 = p
          · subst hwp
            exact ⟨w.2, .inl hlast, hwhole, held_writeSlot hs hwhole⟩
          · exact ⟨data, hsrc, hlen,
              (hheld.ensureFileLen _).writeSlot hwp (length_sealSlot hs hwhole).le⟩
    have hstart : ∃ data, c.Source p data ∧ data.length = k.pageSize ∧ Held k c.cache.file p data := by
      obtain ⟨data, hlast, hlen, hheld | ⟨-, new, hnew, hlen', hheld⟩⟩ := h.pages p hp
      · exact ⟨data, .inl hlast, hlen, hheld⟩
      · exact ⟨new, .inr hnew, hlen', hheld⟩
    obtain ⟨data, hsrc, hlen, hheld⟩ := hstep c.preImages (fun w hw => hw) c.cache.file hstart
    exact ⟨data, hsrc, hlen, .inl hheld⟩

end Replay

/-! ### The rest of a call -/

/-- What a part finds, for the case that it fails. -/
def Ready (k : CacheConfig) (c : Cells) : Act → Prop
  | .encode | .extend _ | .setLen _ => Calm k c
  | .write ws => Calm k c ∧ ∀ w ∈ ws, (k.sealSlot w.2).length ≤ k.slotStride
  | .replay ws => Idle k c c.slots ∧ c.next = ws ∧ c.preImages = [] ∧
      (∀ w ∈ ws, w.2.length = k.pageSize) ∧ (ws.map (·.1)).Nodup
  | .restore => Rolling k c
  | _ => True

/-- Reads are right before each part that is left, and at the end the cache is idle. -/
def Along (k : CacheConfig) (budget : Nat) : List Act → Cells → Prop
  | [], c => c.tainted = true ∨ (Idle k c c.slots ∧ c.next = [])
  | a :: rest, c => (c.tainted = true ∨ (Weak k c ∧ Ready k c a)) ∧
      ∀ c', c.apply k budget a = some c' → Along k budget rest c'

section Rest

variable {c c' : Cells} {a : Act} {rest acts : List Act} {ws : List (Nat × Bytes)}

theorem Along.weak (h : Along k budget acts c) : c.tainted = true ∨ Weak k c := by
  cases acts with
  | nil => exact h.imp id fun hidle => hidle.1.weak hidle.1.slotted
  | cons a rest => exact h.1.imp id And.left

/-- A part that goes through as `c'`. -/
theorem along_cons (hweak : Weak k c) (hready : Ready k c a) (happly : c.apply k budget a = some c')
    (h : Along k budget rest c') : Along k budget (a :: rest) c := by
  refine ⟨.inr ⟨hweak, hready⟩, fun c'' hc'' => ?_⟩
  obtain rfl : c' = c'' := Option.some.inj (happly.symm.trans hc'')
  exact h

/-- The loops over pages change slots only. -/
theorem tainted_promote (ws : List (Nat × Bytes)) (c : Cells) :
    (ws.foldl (fun (c : Cells) w => c.install k budget w.1 w.2) c).tainted = c.tainted := by
  induction ws generalizing c with
  | nil => rfl
  | cons w ws ih =>
    rw [List.foldl_cons, ih]
    unfold Cells.install
    split <;> rfl

theorem tainted_clearSlots (ps : List Nat) (c : Cells) :
    (ps.foldl (fun (c : Cells) p => c.clearSlot k p) c).tainted = c.tainted := by
  obtain ⟨slots, slotBytes, heq, -⟩ := clearSlots_spec (k := k) c ps
  rw [heq]

theorem tainted_replay (hrun : ws.foldlM (fun (c : Cells) w => c.replayPage k w) c = some c') :
    c'.tainted = c.tainted := by
  induction ws generalizing c with
  | nil =>
    cases hrun
    rfl
  | cons w ws ih =>
    obtain ⟨m, hm, hrest⟩ := Option.bind_eq_some_iff.mp hrun
    rw [ih hrest]
    dsimp only [Cells.replayPage] at hm
    split at hm
    · cases hm
    · split at hm
      · cases hm
      · obtain rfl := Option.some.inj hm
        rfl

/-- A tainted cache stays tainted. -/
theorem apply_tainted (ht : c.tainted = true) (h : c.apply k budget a = some c') :
    c'.tainted = true := by
  cases a with
  | promote ws =>
    obtain rfl := Option.some.inj h
    exact (tainted_promote ws c).trans ht
  | clearSlots ps =>
    obtain rfl := Option.some.inj h
    exact (tainted_clearSlots ps c).trans ht
  | clearSlotsFrom n =>
    obtain rfl := Option.some.inj h
    exact (tainted_clearSlots _ c).trans ht
  | replay ws => exact (tainted_replay h).trans ht
  | taint =>
    obtain rfl := Option.some.inj h
    rfl
  | _ =>
    obtain rfl := Option.some.inj h
    exact ht

theorem along_of_tainted (ht : c.tainted = true) : Along k budget acts c := by
  induction acts generalizing c with
  | nil => exact .inl ht
  | cons a rest ih => exact ⟨.inl ht, fun c' hc' => ih (apply_tainted ht hc')⟩

/-! ### Calls -/

/-- The call has slots, and its pages are marked. -/
theorem along_commit (h : Landed k c) (hfresh : Slotted c c.target)
    (hmarked : ∀ p ∈ c.next.map (·.1), c.cache.bitmap p = true)
    (hrest : ∀ c', Idle k c' c'.slots → c'.next = [] → c'.before = c'.slots →
      Along k budget rest c') : Along k budget (.commit :: rest) c :=
  along_cons h.weak trivial rfl (hrest _ (h.commit hfresh hmarked) rfl rfl)

theorem marked_of_mark (c : Cells) (ps : List Nat) :
    ∀ p ∈ ps, (ps.foldl Presence.mark c.cache.toPresence).bitmap p = true :=
  fun p hp => (bitmap_foldl_mark _ _ p).mpr (.inl hp)

/-- Bits and slots of some pages go. -/
theorem Idle.restrict {slots : Nat → Option Bytes} (h : Idle k c slots) (keep : Nat → Bool) :
    Idle k { c with cache := { c.cache with bitmap := fun p => c.cache.bitmap p && keep p } }
      (fun p => if keep p then slots p else none) where
  pages p hp := h.pages p (Bool.and_eq_true .. ▸ hp).1
  slots p data hp := by
    split at hp
    · rename_i hkeep
      obtain ⟨hbit, hlast⟩ := h.slots p data hp
      exact ⟨by simp [hbit, hkeep], hlast⟩
    · cases hp
  sized := h.sized.restrict rfl fun p hp => (Bool.and_eq_true .. ▸ hp).1

theorem along_clearSlots {slots : Nat → Option Bytes} {ps : List Nat} (h : Idle k c slots)
    (hs : Slotted c c.last) (hslots : ∀ p, slots p = if p ∈ ps then none else c.slots p)
    (hrest : ∀ c', c'.cache = c.cache → Idle k c' c'.slots → c'.next = c.next →
      (∀ p ∈ ps, c'.slots p = none) → Along k budget rest c') :
    Along k budget (.clearSlots ps :: rest) c := by
  obtain ⟨slots', slotBytes, heq, hslots'⟩ := clearSlots_spec (k := k) c ps
  refine along_cons (h.weak hs) trivial (congrArg some heq) (hrest _ rfl ?_ rfl fun p hp => ?_)
  · obtain rfl : slots = slots' := funext fun p => (hslots p).trans (hslots' p).symm
    exact ⟨h.pages, h.slots, h.sized⟩
  · show slots' p = none
    rw [hslots' p, if_pos hp]

/-- The part of a write that the file takes. -/
theorem along_file (hs : k.codec.FrameSized) (h : Calm k c)
    (hlen : ∀ w ∈ c.next, w.2.length = k.pageSize) (extra : List (Nat × Bytes))
    (hextra : ∀ w ∈ extra, c.cache.bitmap w.1 = false ∧ w.1 ∉ c.next.map (·.1) ∧
      (k.sealSlot w.2).length ≤ k.slotStride) {pageNums : List Nat} {n : Nat}
    (hws : ws = c.next ++ extra) (hpages : pageNums = c.next.map (·.1))
    (hrest : ∀ c', Landed k c' → c'.slots = c.slots → c'.next = c.next → c'.last = c.last →
      (∀ p ∈ c'.next.map (·.1), c'.cache.bitmap p = true) → Along k budget rest c') :
    Along k budget (.ensureCapacity pageNums :: .extend n :: .write ws :: .mark pageNums :: rest) c := by
  subst hws hpages
  have hcap := h.ensureCapacity (c.next.map (·.1))
  have hext := hcap.extend n
  have hseal : ∀ w ∈ c.next ++ extra, (k.sealSlot w.2).length ≤ k.slotStride := fun w hw =>
    (List.mem_append.mp hw).elim (fun hw => (length_sealSlot hs (hlen w hw)).le)
      fun hw => (hextra w hw).2.2
  have hland := hext.write hs hlen extra fun w hw => by
    dsimp only
    rw [bitmap_foldl_ensureCapacity]
    exact hextra w hw
  refine along_cons h.weak trivial rfl ?_
  refine along_cons hcap.weak hcap rfl ?_
  refine along_cons hext.weak ⟨hext, hseal⟩ rfl ?_
  exact along_cons hland.weak trivial rfl (hrest _ hland.mark rfl rfl rfl (marked_of_mark _ _))

/-- An install takes its pages into memory first. -/
theorem along_promote (h : Calm k c) (hslots : Slotted c c.last)
    (hlen : ∀ w ∈ c.next, w.2.length = k.pageSize)
    (hrest : ∀ c', Calm k c' → Slotted c' c'.target → c'.cache = c.cache → c'.next = c.next →
      Along k budget rest c') :
    Along k budget (.promote c.next :: rest) c := by
  obtain ⟨slots, slotBytes, heq, hother, hfresh⟩ := promote_spec budget hslots hlen
  refine along_cons h.weak trivial (congrArg some heq) (hrest _ ?_ hfresh rfl rfl)
  exact ⟨⟨h.idle.pages, h.idle.slots, h.idle.sized⟩,
    fun p hp => (hother p hp).trans (h.other p hp), .inr hfresh⟩

theorem slotted_target (h : Slotted c c.target) (hslots : c'.slots = c.slots)
    (hnext : c'.next = c.next) (hlast : c'.last = c.last) : Slotted c' c'.target := by
  unfold Slotted Cells.target
  rw [hslots, hnext, hlast]
  exact h

theorem along_writePage (hs : k.codec.FrameSized) (h : Idle k c c.slots) {p : Nat} {data : Bytes}
    (hlen : data.length = k.pageSize) :
    Along k budget ((Call.writePage p data).acts k)
      { c with next := [(p, data)], before := c.slots, preImages := [] } := by
  have hcalm := h.calm [(p, data)]
  have hwhole : ∀ w ∈ [(p, data)], w.2.length = k.pageSize := fun w hw => by
    obtain rfl := List.mem_singleton.mp hw
    exact hlen
  refine along_cons hcalm.weak hcalm rfl ?_
  refine along_file hs hcalm hwhole [] (fun w hw => (List.not_mem_nil hw).elim) rfl rfl
    fun c' hland hslots hnext hlast hmarked => ?_
  -- the old slot may still be there until here
  have hold : Slotted c' c'.last := by
    intro q d hq
    rw [hslots] at hq
    rw [hlast]
    exact h.slotted q d hq
  obtain ⟨slots, slotBytes, heq, hother, hfresh⟩ := promote_spec budget hold hwhole
  have htarget : c'.target = c'.last.install [(p, data)] := by
    unfold Cells.target
    rw [hnext]
  have hfresh' : ∀ q d, slots q = some d → c'.target q = some d := by
    rw [htarget]
    exact hfresh
  refine along_cons hland.weak trivial (congrArg some heq) (along_commit ?_ hfresh' ?_ ?_)
  · refine ⟨hland.pages, fun q d hq => ?_, .inr hfresh', hland.sized⟩
    by_cases hqp : q ∈ c'.next.map (·.1)
    · exact .inr hqp
    · refine hland.slots q d ((hother q ?_).symm.trans hq)
      rwa [hnext] at hqp
  · exact hmarked
  · exact fun c'' hidle hnil _ => .inr ⟨hidle, hnil⟩

theorem along_scattered (hs : k.codec.FrameSized) (h : Idle k c c.slots) {ps : List Nat}
    {data : Bytes} : Along k budget ((Call.writePagesScattered ps data).acts k)
      { c with next := CacheRestart.writes k ps data, before := c.slots, preImages := [] } := by
  have hcalm := h.calm (CacheRestart.writes k ps data)
  have hwhole : ∀ w ∈ CacheRestart.writes k ps data, w.2.length = k.pageSize :=
    fun w hw => CacheRestart.length_of_mem_writes hw
  unfold Call.acts
  dsimp only [Call.writes]
  split
  · rename_i hempty
    exact .inr ⟨⟨h.pages, h.slots, h.sized⟩, List.isEmpty_iff.mp hempty⟩
  · refine along_promote hcalm h.slotted hwhole fun c' hcalm' hfresh hcache hnext => ?_
    refine along_file hs hcalm' (hnext ▸ hwhole) [] (fun w hw => (List.not_mem_nil hw).elim)
      (hnext.symm.trans (List.append_nil _).symm) (congrArg (List.map (·.1)) hnext.symm)
      fun c'' hland hslots hnext' hlast hmarked => ?_
    refine along_commit hland ?_ hmarked fun c₃ hidle hnil _ => .inr ⟨hidle, hnil⟩
    exact slotted_target hfresh hslots hnext' hlast

/-- What a bulk write puts into the file: its pages, and what the buffer has too much. -/
theorem bulkWrites_eq (start : Nat) {n : Nat} {data : Bytes} (hlen : n * k.pageSize ≤ data.length) :
    ∃ extra, bulkWrites k start n data =
        CacheRestart.writes k ((List.range n).map (start + ·)) data ++ extra ∧
      ∀ w ∈ extra, start + n ≤ w.1 ∧ (k.sealSlot w.2).length ≤ k.slotStride := by
  have hpos := k.pageSize_pos
  have hle : n ≤ data.length / k.pageSize := (Nat.le_div_iff_mul_le hpos).mpr hlen
  have hwrites : CacheRestart.writes k ((List.range n).map (start + ·)) data =
      (List.range n).map fun i => (start + i, block k.pageSize i data) := by
    unfold CacheRestart.writes PageMap.scatter
    rw [List.take_of_length_le (by simpa using hle)]
    refine List.ext_getElem (by simp) fun i h1 h2 => ?_
    simp
  rw [hwrites]
  unfold bulkWrites
  cases hkey : k.codec.encryptionKey with
  | some key => exact ⟨[], (List.append_nil _).symm, fun w hw => (List.not_mem_nil hw).elim⟩
  | none =>
    have hcount : n ≤ divCeil data.length k.pageSize := by
      refine hle.trans (Nat.div_le_div_right ?_)
      omega
    obtain ⟨m, hm⟩ := Nat.exists_eq_add_of_le hcount
    refine ⟨(List.range m).map fun i => (start + (n + i), block k.pageSize (n + i) data), ?_,
      fun w hw => ?_⟩
    · simp only [Option.isSome_none, Bool.false_eq_true, if_false]
      rw [hm, List.range_add, List.map_append, List.map_map]
      rfl
    · obtain ⟨i, -, rfl⟩ := List.mem_map.mp hw
      refine ⟨by dsimp only; omega, ?_⟩
      unfold CacheConfig.sealSlot CacheConfig.slotStride
      rw [hkey]
      dsimp only
      rw [length_block]
      exact Nat.min_le_left ..

theorem along_bulk (hs : k.codec.FrameSized) (h : Idle k c c.slots) {start n : Nat}
    {data : Bytes}
    (hwhole : ∀ w ∈ bulkWrites k start n data, w.1 < start + n ∨ c.cache.bitmap w.1 = false) :
    Along k budget ((Call.writePagesBulk start n data).acts k)
      { c with
        next := (Call.writePagesBulk start n data).writes k
        before := c.slots
        preImages := [] } := by
  unfold Call.acts Call.writes
  dsimp only
  split
  · exact .inr ⟨⟨h.pages, h.slots, h.sized⟩, rfl⟩
  · rename_i hlong
    obtain ⟨extra, heq, hextra⟩ := bulkWrites_eq start (Nat.not_lt.mp hlong)
    have hcalm := h.calm (CacheRestart.writes k ((List.range n).map (start + ·)) data)
    have hlen : ∀ w ∈ CacheRestart.writes k ((List.range n).map (start + ·)) data,
        w.2.length = k.pageSize := fun w hw => CacheRestart.length_of_mem_writes hw
    refine along_promote hcalm h.slotted hlen fun c' hcalm' hfresh hcache hnext => ?_
    refine along_cons hcalm'.weak hcalm' rfl ?_
    refine along_file hs hcalm' (hnext ▸ hlen) extra (fun w hw => ?_)
      (hnext ▸ heq) (congrArg (List.map (·.1)) hnext.symm)
      fun c'' hland hslots hnext' hlast hmarked => ?_
    · obtain ⟨hge, hseal⟩ := hextra w hw
      have hmem : w ∈ bulkWrites k start n data := heq ▸ List.mem_append_right _ hw
      refine ⟨?_, fun hpage => ?_, hseal⟩
      · rw [hcache]
        exact (hwhole w hmem).resolve_left (by omega)
      · -- the pages of the call are below
        rw [hnext] at hpage
        unfold CacheRestart.writes at hpage
        rw [PageMap.map_fst_scatter] at hpage
        obtain ⟨i, hi, hiw⟩ := List.mem_map.mp (List.mem_of_mem_take hpage)
        have := List.mem_range.mp hi
        omega
    · refine along_commit hland ?_ hmarked fun c₃ hidle hnil _ => .inr ⟨hidle, hnil⟩
      exact slotted_target hfresh hslots hnext' hlast

/-- Bits, slots and bytes of some pages go. -/
theorem along_unmark {ps : List Nat} (h : Idle k c c.slots)
    (hrest : ∀ c', Idle k c' c'.slots → c'.next = c.next →
      (∀ p ∈ ps, c'.cache.bitmap p = false) → Along k budget rest c') :
    Along k budget (.unmark ps :: .clearSlots ps :: rest) c := by
  have hidle := h.restrict fun p => !ps.contains p
  have hslots : ∀ p, (if !ps.contains p then c.slots p else none) =
      if p ∈ ps then none else c.slots p := fun p => by
    by_cases hp : p ∈ ps <;> simp [hp]
  refine along_cons (h.weak h.slotted) trivial rfl ?_
  refine along_clearSlots hidle h.slotted hslots fun c' hcache hidle' hnext _ => ?_
  refine hrest c' hidle' hnext fun p hp => ?_
  rw [hcache]
  simp [hp]

theorem along_punch {ps : List Nat} (h : Idle k c c.slots)
    (habsent : ∀ p ∈ ps, c.cache.bitmap p = false)
    (hrest : ∀ c', Idle k c' c'.slots → c'.next = c.next → Along k budget rest c') :
    Along k budget (.punch ps :: rest) c := by
  refine along_cons (h.weak h.slotted) trivial rfl (hrest _ ?_ rfl)
  refine h.withCache _ rfl h.sized fun p data hp hheld => readAt_foldl_punch (fun hmem => ?_) hheld
  rw [habsent p hmem] at hp
  cases hp

theorem along_clear {ps : List Nat} (h : Idle k c c.slots)
    (hrest : ∀ c', Idle k c' c'.slots → c'.next = c.next → Along k budget rest c') :
    Along k budget (.clearSlots ps :: rest) c := by
  have hmask : Idle k c fun p => if p ∈ ps then none else c.slots p := by
    refine ⟨h.pages, fun p data hp => ?_, h.sized⟩
    split at hp
    · cases hp
    · exact h.slots p data hp
  exact along_clearSlots hmask h.slotted (fun _ => rfl) fun c' _ hidle hnext _ => hrest c' hidle hnext

/-- A truncation: pages past the end are cut before their bits and slots go. -/
theorem along_truncate (h : Idle k c c.slots) (hnext : c.next = []) (hbefore : c.before = c.slots)
    (n : Nat) : Along k budget (truncateActs n) c := by
  have hcalm : Calm k c := ⟨hbefore ▸ h, fun _ _ => by rw [hbefore], .inl h.slotted⟩
  have hkept : ∀ p data, p < n → Held k c.cache.file p data →
      Held k (c.cache.file.setLen (n * k.slotStride)) p data := by
    intro p data hp hheld
    refine hheld.setLen ?_
    have := Nat.mul_le_mul_right k.slotStride (Nat.succ_le_of_lt hp)
    rwa [Nat.succ_mul] at this
  have hcut : Weak k { c with cache := { c.cache with
      file := c.cache.file.setLen (n * k.slotStride) } } := by
    refine ⟨fun p data hp => .inl (h.slotted p data hp), fun p hp => ?_⟩
    obtain ⟨data, hlast, hlen, hheld⟩ := h.pages p hp
    refine ⟨data, .inl hlast, hlen, ?_⟩
    by_cases hpn : p < n
    · exact .inl (hkept p data hpn hheld)
    · exact .inr (Nat.mul_le_mul_right _ (Nat.not_lt.mp hpn))
  have hgone := h.restrict fun p => !(decide (n ≤ p) && decide (p < c.cache.capacity))
  have hidle := hgone.withCache ({ c.cache with
      file := c.cache.file.setLen (n * k.slotStride)
      bitmap := fun p => c.cache.bitmap p && !(decide (n ≤ p) && decide (p < c.cache.capacity)) } : CacheFile)
    rfl hgone.sized fun p data hp hheld => by
      refine hkept p data ?_ hheld
      obtain ⟨hbit, hkeep⟩ := Bool.and_eq_true .. ▸ hp
      have hcap := h.sized p hbit
      simp only [Bool.not_eq_true', Bool.and_eq_false_iff, decide_eq_false_iff_not] at hkeep
      omega
  refine along_cons hcalm.weak hcalm rfl (along_cons hcut trivial rfl ?_)
  have hslots : ∀ p, (if !(decide (n ≤ p) && decide (p < c.cache.capacity)) then c.slots p else none) =
      if p ∈ List.range' n (c.cache.capacity - n) then none else c.slots p := by
    intro p
    by_cases hp : n ≤ p ∧ p < c.cache.capacity
    · rw [if_neg (by simp [hp.1, hp.2]), if_pos (List.mem_range'_1.mpr (by omega))]
    · rw [if_pos (by simp only [Bool.not_eq_true', Bool.and_eq_false_iff, decide_eq_false_iff_not]; omega),
        if_neg fun hmem => hp (by have := List.mem_range'_1.mp hmem; omega)]
  have hclear : Along k budget [.clearSlots (List.range' n (c.cache.capacity - n))] _ :=
    along_clearSlots hidle h.slotted hslots
      fun c' _ hidle' hnext' _ => .inr ⟨hidle', hnext'.trans hnext⟩
  exact hclear

theorem along_finalize (hc : k.codec.codecs.Lawful) (hs : k.codec.FrameSized)
    (hk : k.compressed = false) (h : Idle k c c.slots)
    {staged : List (Nat × Bytes)} {truncateTo : Option Nat}
    (hproper : (Call.finalize staged truncateTo).Proper k) :
    Along k budget ((Call.finalize staged truncateTo).acts k)
      { c with next := staged, before := c.slots, preImages := [] } := by
  obtain ⟨hlen, hnd⟩ := hproper
  have hidle : Idle k { c with next := staged, before := c.slots, preImages := [] } c.slots :=
    ⟨h.pages, h.slots, h.sized⟩
  refine ⟨.inr ⟨hidle.weak h.slotted, hidle, rfl, rfl, hlen, hnd⟩, fun c₁ hrun => ?_⟩
  by_cases ht : c.tainted = true
  · exact along_of_tainted ((tainted_replay hrun).trans ht)
  obtain ⟨images, rfl, -, -⟩ := replay_spec hc hk hs hidle (Bool.not_eq_true _ ▸ ht) rfl
    hlen hnd hrun
  have hcalm := h.calm staged
  have hwritten := hcalm.write hs hlen [] fun w hw => (List.not_mem_nil hw).elim
  rw [List.append_nil] at hwritten
  obtain ⟨slots, slotBytes, heq, hslots⟩ := clearSlots_spec (k := k) { c with
    cache := { c.cache with file := staged.foldl (writeSlot k) c.cache.file }
    next := staged
    before := c.slots
    preImages := images } (staged.map (·.1))
  have hkept : ∀ p data, slots p = some data → p ∉ staged.map (·.1) ∧ c.slots p = some data := by
    intro p data hp
    rw [hslots p] at hp
    split at hp
    · cases hp
    · exact ⟨‹_›, hp⟩
  have hfresh : ∀ p data, slots p = some data → c.last.install staged p = some data := fun p data hp =>
    (PageMap.install_of_notMem (hkept p data hp).1).trans (h.slotted p data (hkept p data hp).2)
  have hland : Landed k { c with
      cache := { c.cache with file := staged.foldl (writeSlot k) c.cache.file }
      slots := slots
      slotBytes := slotBytes
      next := staged
      before := c.slots
      preImages := images } :=
    ⟨hwritten.pages, fun p data hp => hwritten.slots p data (hkept p data hp).2, .inr hfresh,
      hwritten.sized⟩
  have hcap := hland.ensureCapacity (staged.map (·.1))
  have hwritten' : Landed k { c with
      cache := { c.cache with file := staged.foldl (writeSlot k) c.cache.file }
      next := staged
      before := c.slots
      preImages := images } :=
    ⟨hwritten.pages, hwritten.slots, hwritten.fresh, hwritten.sized⟩
  refine along_cons hwritten'.weak trivial (congrArg some heq) ?_
  refine along_cons hland.weak trivial rfl ?_
  refine along_cons hcap.weak trivial rfl ?_
  refine along_commit hcap.mark hfresh (marked_of_mark _ _) fun c' hidle' hnil hbefore => ?_
  cases truncateTo with
  | none => exact .inr ⟨hidle', hnil⟩
  | some n => exact along_truncate hidle' hnil hbefore n

/-- Every call, from an idle cache. -/
theorem along_call (hc : k.codec.codecs.Lawful) (hs : k.codec.FrameSized) (hk : k.compressed = false)
    (h : Idle k c c.slots) {call : Call} (hproper : call.Proper k)
    (hwhole : ∀ p data, call = .writePage p data → data.length = k.pageSize)
    (hbulk : ∀ start n data, call = .writePagesBulk start n data →
      ∀ w ∈ bulkWrites k start n data, w.1 < start + n ∨ c.cache.bitmap w.1 = false) :
    Along k budget (call.acts k) { c with next := call.writes k, before := c.slots, preImages := [] } := by
  have hidle : Idle k { c with next := [], before := c.slots, preImages := [] } c.slots :=
    ⟨h.pages, h.slots, h.sized⟩
  cases call with
  | writePage p data => exact along_writePage hs h (hwhole p data rfl)
  | writePagesBulk start n data => exact along_bulk hs h (hbulk start n data rfl)
  | writePagesScattered ps data => exact along_scattered hs h
  | clearPagesFromDisk ps =>
    refine along_unmark hidle fun c₁ h₁ hn₁ habsent => ?_
    exact along_punch h₁ habsent fun c₂ h₂ hn₂ => .inr ⟨h₂, hn₂.trans hn₁⟩
  | evictGroup ps =>
    refine along_unmark hidle fun c₁ h₁ hn₁ habsent => ?_
    refine along_punch h₁ habsent fun c₂ h₂ hn₂ => ?_
    exact along_clear h₂ fun c₃ h₃ hn₃ => .inr ⟨h₃, hn₃.trans (hn₂.trans hn₁)⟩
  | clearPagesFromMemCache ps => exact along_clear hidle fun c₁ h₁ hn₁ => .inr ⟨h₁, hn₁⟩
  | invalidateGroup gid ppg => exact along_unmark hidle fun c₁ h₁ hn₁ _ => .inr ⟨h₁, hn₁⟩
  | truncateToPageCount n => exact along_truncate hidle rfl rfl n
  | finalize staged truncateTo => exact along_finalize hc hs hk h hproper

end Rest

/-! ### Runs -/

section Runs

variable {s s' : State} {e : Event}

/-- The invariant: whatever the calls have left to do, reads are right on the way. -/
def Inv (k : CacheConfig) (budget : Nat) (s : State) : Prop := Along k budget s.acts s.toCells

theorem Opened.inv (hk : k.compressed = false) (h : Opened k s) : Inv k budget s := by
  unfold Inv
  rw [h.rest.1]
  refine .inr ⟨⟨fun p hp => ?_, fun p data hp => ?_, h.sized⟩, h.rest.2⟩
  · obtain ⟨data, hlast, hlen, hdisk⟩ := h.pages p hp
    exact ⟨data, hlast, hlen, (held_iff hk).mpr hdisk⟩
  · rw [h.slots p] at hp
    cases hp

/-- A failed write that did no damage. -/
theorem inv_stop_write (h : Calm k s.toCells) {ws : List (Nat × Bytes)} {done : Nat} {bytes : Option Nat}
    (hseal : ∀ w ∈ ws, (k.sealSlot w.2).length ≤ k.slotStride)
    (hslots : ∀ w ∈ s.next, s.slots w.1 = s.before w.1)
    (hpages : (done = 0 ∧ bytes.getD 0 = 0) ∨ ∀ w ∈ ws.take (done + 1), s.cache.bitmap w.1 = false) :
    Inv k budget (s.fail (stopped k s.cache.file ws done bytes)) := by
  have hidle := (h.stop hslots).withCache
    { s.cache with file := stopped k s.cache.file ws done bytes } rfl h.idle.sized
    fun p data hp hheld => hheld.stopped hseal (hpages.imp id fun habsent w hw he => by
      rw [← he, habsent w hw] at hp
      cases hp)
  exact .inr ⟨⟨hidle.pages, hidle.slots, hidle.sized⟩, rfl⟩

/-- A failed replay has the pre-images of what it wrote. -/
theorem rolling_stop (hc : k.codec.codecs.Lawful) (hs : k.codec.FrameSized) (hk : k.compressed = false)
    {c c' : Cells} {ws : List (Nat × Bytes)} (ht : c.tainted = false) (hready : Ready k c (.replay ws))
    {done : Nat} {w : Nat × Bytes} (hw : ws[done]? = some w)
    (hrun : (ws.take done).foldlM (fun (c : Cells) w => c.replayPage k w) c = some c')
    {bytes : Option Nat} (hsafe : bytes.getD 0 = 0 ∨ c.cache.bitmap w.1 = false) :
    Rolling k { c' with cache := { c'.cache with file := tornReplay k c'.cache.file w bytes } } := by
  obtain ⟨hidle, hnext, himages, hlen, hnd⟩ := hready
  obtain ⟨hlt, rfl⟩ := List.getElem?_eq_some_iff.mp hw
  have hsub : ∀ x ∈ ws.take done, x ∈ ws := fun x hx => List.mem_of_mem_take hx
  have hseal : ∀ x ∈ ws, (k.sealSlot x.2).length ≤ k.slotStride :=
    fun x hx => (length_sealSlot hs (hlen x hx)).le
  have hnd' : ((ws.take done).map (·.1)).Nodup := hnd.sublist ((List.take_sublist _ _).map _)
  obtain ⟨images, rfl, hold, hall⟩ := replay_spec hc hk hs hidle ht himages
    (fun x hx => hlen x (hsub x hx)) hnd' hrun
  -- the page whose write failed is as it was, or nobody sees it
  have htorn : ∀ p data, c.cache.bitmap p = true →
      Held k ((ws.take done).foldl (writeSlot k) c.cache.file) p data →
      Held k (tornReplay k ((ws.take done).foldl (writeSlot k) c.cache.file) ws[done] bytes) p data := by
    intro p data hp hheld
    cases bytes with
    | none => exact hheld
    | some n =>
      cases hsafe with
      | inl hzero =>
        obtain rfl : n = 0 := hzero
        exact (hheld.ensureFileLen _).tearSlot_zero _
      | inr habsent =>
        refine (hheld.ensureFileLen _).tearSlot (fun he => ?_) (hseal _ (List.getElem_mem hlt)) n
        rw [he, hp] at habsent
        cases habsent
  refine ⟨fun p hp => ?_, fun x hx => ?_, hidle.slots, hidle.sized⟩
  · obtain ⟨data, hlast, hdata, hheld⟩ := hidle.pages p hp
    refine ⟨data, hlast, hdata, ?_⟩
    by_cases hpw : p ∈ (ws.take done).map (·.1)
    · obtain ⟨x, hx, rfl⟩ := List.mem_map.mp hpw
      refine .inr ⟨hall x.1 hpw hp data hlast, x.2, hnext ▸ hsub x hx, hlen x (hsub x hx), ?_⟩
      exact htorn x.1 x.2 hp (held_foldl_writeSlot (c := c.last) hs (fun y hy => hlen y (hsub y hy))
        (PageMap.install_of_mem hnd' hx) fun hnot => absurd hpw hnot)
    · refine .inl (htorn p data hp (hheld.foldl_writeSlot (fun x hx he => hpw ?_)
        fun x hx => hseal x (hsub x hx)))
      exact he ▸ List.mem_map.mpr ⟨x, hx, rfl⟩
  · obtain ⟨hbit, hlast⟩ := hold x hx
    obtain ⟨data, hlast', hdata, -⟩ := hidle.pages x.1 hbit
    obtain rfl : x.2 = data := Option.some.inj (hlast.symm.trans hlast')
    exact ⟨hlast, hdata⟩

theorem Inv.call (hc : k.codec.codecs.Lawful) (hs : k.codec.FrameSized) (hk : k.compressed = false)
    (h : Inv k budget s) {call : Call} (hmeets : call.Whole k s)
    (hstep : step k budget s (.call call) = some s') : Inv k budget s' := by
  dsimp only [MemCache.step] at hstep
  split at hstep
  · rename_i hguard
    obtain ⟨hempty, hproper⟩ := hguard
    have hacts : s.acts = [] := List.isEmpty_iff.mp hempty
    split at hstep
    · obtain rfl := Option.some.inj hstep
      exact h
    · obtain rfl := Option.some.inj hstep
      unfold Inv at h
      rw [hacts] at h
      cases h with
      | inl ht => exact along_of_tainted ht
      | inr hidle =>
        refine along_call hc hs hk hidle.1 hproper (fun p data he => ?_) fun start n data he => ?_
        · subst he
          exact hmeets
        · subst he
          exact hmeets
  · cases hstep

theorem Inv.next (h : Inv k budget s) (hstep : step k budget s .next = some s') : Inv k budget s' := by
  dsimp only [MemCache.step] at hstep
  split at hstep
  · cases hstep
  · rename_i a rest hacts
    obtain ⟨c, hc, rfl⟩ := Option.map_eq_some_iff.mp hstep
    unfold Inv at h ⊢
    rw [hacts] at h
    exact h.2 c hc

/-- A part before the writes fails. -/
theorem inv_fail {done : Nat} {bytes : Option Nat} (h : s.tainted = true ∨ Calm k s.toCells)
    (hslots : ∀ w ∈ s.next, s.slots w.1 = s.before w.1)
    (hstep : (if done = 0 ∧ bytes = none then some (s.fail s.cache.file) else none) = some s') :
    Inv k budget s' := by
  split at hstep
  · obtain rfl := Option.some.inj hstep
    cases h with
    | inl ht => exact along_of_tainted ht
    | inr hcalm =>
      have hidle := hcalm.stop hslots
      exact .inr ⟨⟨hidle.pages, hidle.slots, hidle.sized⟩, rfl⟩
  · cases hstep

theorem Inv.stop (hc : k.codec.codecs.Lawful) (hs : k.codec.FrameSized) (hk : k.compressed = false)
    (h : Inv k budget s) {done : Nat} {bytes : Option Nat} (hmeets : Undamaging k s (.stop done bytes))
    (hstep : step k budget s (.stop done bytes) = some s') : Inv k budget s' := by
  unfold Inv at h
  dsimp only [Undamaging] at hmeets
  dsimp only [MemCache.step] at hstep
  cases hacts : s.acts with
  | nil =>
    rw [hacts] at hstep
    cases hstep
  | cons a rest =>
    rw [hacts] at h hmeets hstep
    obtain ⟨hready, -⟩ := h
    cases a with
    | encode => exact inv_fail (hready.imp id And.right) hmeets hstep
    | extend n => exact inv_fail (hready.imp id And.right) hmeets hstep
    | setLen n => exact inv_fail (hready.imp id And.right) hmeets hstep
    | write ws =>
      dsimp only at hmeets hstep
      split at hstep
      · obtain rfl := Option.some.inj hstep
        cases hready with
        | inl ht => exact along_of_tainted ht
        | inr hr => exact inv_stop_write hr.2.1 hr.2.2 hmeets.1 hmeets.2
      · cases hstep
    | replay ws =>
      dsimp only at hmeets hstep
      obtain ⟨w, hw, hrest⟩ := Option.bind_eq_some_iff.mp hstep
      obtain ⟨c, hrun, rfl⟩ := Option.map_eq_some_iff.mp hrest
      by_cases ht : s.tainted = true
      · exact along_of_tainted ((tainted_replay hrun).trans ht)
      have hroll := rolling_stop hc hs hk (Bool.not_eq_true _ ▸ ht) (hready.resolve_left ht).2 hw hrun
        (hmeets.imp id fun habsent => habsent w hw)
      -- the rollback restores every page, or the next event taints the cache
      have hidle := hroll.restore hs
      refine along_cons hroll.weak hroll rfl ?_
      refine along_cons (hidle.weak hidle.slotted) trivial rfl ?_
      exact .inr ⟨⟨hidle.pages, hidle.slots, hidle.sized⟩, rfl⟩
    | _ => cases hstep

theorem Inv.stopRollback (hs : k.codec.FrameSized) (h : Inv k budget s) {failed : List (Nat × Nat)}
    (hmeets : ∀ x ∈ failed, x.2 = 0) (hstep : step k budget s (.stopRollback failed) = some s') :
    Inv k budget s' := by
  unfold Inv at h
  dsimp only [MemCache.step] at hstep
  split at hstep
  · rename_i rest hacts
    rw [hacts] at h
    obtain rfl := Option.some.inj hstep
    cases h.1 with
    | inl ht => exact along_of_tainted ht
    | inr hr => exact along_cons (hr.2.taint hs hmeets) trivial rfl (along_of_tainted rfl)
  · cases hstep

theorem Inv.step (hc : k.codec.codecs.Lawful) (hs : k.codec.FrameSized) (hk : k.compressed = false)
    (h : Inv k budget s) (hmeets : Undamaging k s e) (hstep : step k budget s e = some s') :
    Inv k budget s' := by
  cases e with
  | call c => exact h.call hc hs hk hmeets hstep
  | next => exact h.next hstep
  | stop done bytes => exact h.stop hc hs hk hmeets hstep
  | stopRollback failed => exact h.stopRollback hs hmeets hstep

/-- Past the end of the file only an empty buffer can be filled. -/
theorem readInto_cut (hk : k.compressed = false) {c : CacheFile} {p len : Nat} {out : Bytes}
    (hcut : c.file.len ≤ p * k.slotStride) (h : c.readInto k p len = .ok out) : len = 0 ∧ out = [] := by
  have hpos := k.slotStride_pos
  unfold CacheFile.readInto at h
  rw [hk, if_neg (by decide)] at h
  cases hkey : k.codec.encryptionKey with
  | some key =>
    rw [hkey] at h
    have hnone : c.file.readAt (p * k.slotStride) k.slotStride = none := if_neg (by omega)
    simp only [hnone] at h
    cases h
  | none =>
    have hstride : k.slotStride = k.pageSize := by
      unfold CacheConfig.slotStride
      rw [hkey]
    rw [hstride] at hcut
    rw [hkey] at h
    dsimp only at h
    split at h
    · cases h
    · rename_i buf hread
      obtain ⟨hend, -⟩ := readAt_eq_some.mp hread
      have hlen := length_of_readAt hread
      cases h
      exact ⟨by omega, List.eq_nil_of_length_eq_zero (by omega)⟩

theorem Inv.coherent (hc : k.codec.codecs.Lawful) (hk : k.compressed = false) (h : Inv k budget s) :
    Coherent k s where
  reads p len out hlen hp hread := by
    have ht : s.tainted = false := by
      cases ht : s.tainted with
      | false => rfl
      | true =>
        unfold Cells.readPage at hread
        rw [ht, if_pos rfl] at hread
        cases hread
    have hweak : Weak k s.toCells := h.weak.resolve_left (by rw [ht]; decide)
    rw [isPresent_uncompressed hk] at hp
    unfold Cells.readPage at hread
    rw [ht, if_neg (by decide)] at hread
    cases hs : s.slots p with
    | some page =>
      rw [hs] at hread
      cases hread
      exact ⟨page, hweak.slots p page hs, by rw [Nat.min_eq_left hlen]⟩
    | none =>
      rw [hs] at hread
      obtain ⟨data, hsource, hdata, hheld | hcut⟩ := hweak.pages p hp
      · have hok := ((held_iff hk).mp hheld).readInto hc hdata hlen
        exact ⟨data, hsource, Except.ok.inj (hread.symm.trans hok)⟩
      · obtain ⟨rfl, rfl⟩ := readInto_cut hk hcut hread
        exact ⟨data, hsource, rfl⟩
  rest hacts ht := by
    unfold Inv at h
    rw [hacts] at h
    obtain ⟨hidle, hnext⟩ := h.resolve_left (by rw [ht]; decide)
    refine ⟨hnext, fun p data hp => ?_⟩
    obtain ⟨hbit, hlast⟩ := hidle.slots p data hp
    obtain ⟨page, hlast', -, hheld⟩ := hidle.pages p hbit
    obtain rfl : data = page := Option.some.inj (hlast.symm.trans hlast')
    exact ⟨(isPresent_uncompressed hk).trans hbit, (held_iff hk).mp hheld⟩

end Runs

namespace Example

/-- Pages of 64 bytes, in memory too. -/
theorem config_pos : 0 < 64 := by decide

/-- A plain cache of pages of 64 bytes. -/
def config : CacheConfig := ⟨.plain, 64, false, config_pos⟩

/-- A page full of one byte. -/
def page (b : UInt8) : Bytes := List.replicate 64 b

theorem opened : Opened config {} where
  slots _ := rfl
  rest := ⟨rfl, rfl⟩
  pages _ hp := by cases hp
  sized _ hp := by cases hp

/-- A call that goes through. -/
def through (c : Call) : List Event := .call c :: (c.acts config).map fun _ => .next

/-- Two pages are installed, one of them is written again, and the database shrinks to it. Then two
calls fail: an install of page 3 before its write, a replay before its second page. -/
def harmless : List Event :=
  through (.writePagesScattered [0, 1] (page 1 ++ page 2)) ++ through (.writePage 0 (page 3)) ++
    through (.finalize [(1, page 4)] (some 1)) ++
    [.call (.writePage 3 (page 5)), .next, .next, .stop 0 none,
      .call (.finalize [(0, page 6), (1, page 7)] none), .stop 1 (some 0), .next, .next]

/-- What a run leaves of page 0: the read, and the latest write or install. -/
def read (es : List Event) : Option (Option Bytes × Option Bytes) :=
  (run (step config 1024) {} es).map fun s => ((s.readPage config 0 64).toOption, s.last 0)

/-- The install of page 0 fails when its write does. -/
def failed : List Event :=
  through (.writePage 0 (page 1)) ++
    [.call (.writePagesScattered [0] (page 2)), .next, .next, .next, .stop 0 none]

instance (s : State) (c : Call) : Decidable (c.Whole config s) := by
  cases c <;> unfold Call.Whole <;> infer_instance

instance (s : State) (e : Event) : Decidable (Undamaging config s e) := by
  cases e with
  | call c => exact inferInstanceAs (Decidable (c.Whole config s))
  | next => exact .isTrue trivial
  | stop done bytes =>
    dsimp only [Undamaging]
    split <;> infer_instance
  | stopRollback failed => exact inferInstanceAs (Decidable (∀ x ∈ failed, x.2 = 0))

end Example

open Turbolite.MemCache.Example

end Turbolite.MemCache
