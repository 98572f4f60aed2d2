import Turbolite.CacheRestart
import Turbolite.FetchSafety

/-!
# Turbolite.FlatFile

The main-database handle as a file. Every path of `read_exact_at` turns the offset into a page number
and fills the buffer from the start of the page: the plain slot, the opened slot, the decompressed blob
and the fetched frame alike. The model runs one handle over the bytes of its cache file, beside the
flat file that the same writes and `set_len` calls make, and `reads_start_at_page` says which bytes of
that file a read returns.

Nothing is synced or evicted here, and no other thread fetches.
-/

namespace Turbolite

open Blocks Results RawFile ReadPaths

/-! ### Part of a cached page -/

namespace CacheFile

variable {k : CacheConfig}

/-- `read_page` into a buffer of `len` bytes, at most a page. -/
def readInto (k : CacheConfig) (c : CacheFile) (p len : Nat) : IoResult Bytes :=
  if k.compressed then
    match c.index.lookup p with
    | none => .error (.io .notFound s!"page {p} not in compressed cache index")
    | some e =>
      match c.file.readAt e.offset e.compressedLen with
      | none => .error (.io .unexpectedEof "failed to fill whole buffer")
      | some blob => do
        let page ← k.codec.openFrame k.codec.dictionary [] blob k.pageSize
        if len ≤ page.length then .ok (page.take len)
        else .error (.io .invalidData
          s!"decompressed page {p} too small: need {len} bytes, got {page.length}")
  else
    match k.codec.encryptionKey with
    | some _ =>
      match c.file.readAt (p * k.slotStride) k.slotStride with
      | none => .error (.io .unexpectedEof "failed to fill whole buffer")
      | some frame => do
        let page ← k.codec.decryptIfNeeded frame []
        .ok (page.take len)
    | none =>
      match c.file.readAt (p * k.pageSize) len with
      | none => .error (.io .unexpectedEof "failed to fill whole buffer")
      | some page => .ok page

/-- The buffer gets the first bytes of a page that is on disk. -/
theorem OnDisk.readInto (hc : k.codec.codecs.Lawful) {c : CacheFile} {p len : Nat} {data : Bytes}
    (h : OnDisk k c.file c.toPresence p data) (hlen : data.length = k.pageSize)
    (hle : len ≤ k.pageSize) : c.readInto k p len = .ok (data.take len) := by
  unfold OnDisk at h
  unfold CacheFile.readInto
  split at h
  · rename_i hcomp
    obtain ⟨e, he, hr⟩ := h
    have hopen := (CodecConfig.opens_sealFrame hc [] data).openFrame hlen.le
    rw [if_pos hcomp]
    simp only [he, hr, CacheConfig.sealBlob, hopen, ok_bind, if_pos (hle.trans hlen.ge)]
  · rename_i hcomp
    rw [if_neg hcomp]
    unfold CacheConfig.sealSlot CacheConfig.slotStride at h
    unfold CodecConfig.decryptIfNeeded CacheConfig.slotStride
    cases hkey : k.codec.encryptionKey with
    | some key =>
      rw [hkey] at h
      simp only [h, hc.decrypt_encrypt, ok_bind]
    | none =>
      rw [hkey] at h
      dsimp only at h ⊢
      have hend := le_len_of_readAt h k.pageSize_pos
      obtain ⟨-, hdata⟩ := readAt_eq_some.mp h
      rw [readAt_of_le (by omega)]
      refine congrArg Except.ok ?_
      rw [hdata, ← List.map_take, List.take_range, Nat.min_eq_left hle]

end CacheFile

namespace FlatFile

open Fetches Runs Turbolite.Partition

/-! ### The state -/

/-- What a read returned, the bytes of its range in the flat file, and the bytes of that length at the
start of the page. -/
structure Answer where
  result : IoResult Bytes
  expected : Bytes
  lead : Bytes

/-- `result` is what the file has at the offset. -/
def Answer.Right (a : Answer) : Prop := a.result = .ok a.expected

/-- The cache of a handle, its manifest and the flat file that it stands for. -/
structure State where
  manifest : Manifest
  cache : CacheRestart.State := {}
  groups : Nat → GroupState := fun _ => .none
  dirty : List Nat := []
  dirtySinceSync : Bool := false
  /-- of the handle; 0 before the first write of a new database -/
  pageSize : Nat
  /-- the file the writes and `set_len` calls make -/
  flat : File
  /-- the pages that were written, or cut by a `set_len` -/
  touched : PageMap := PageMap.empty
  answers : List Answer := []

/-- The calls of the handle. -/
inductive Event where
  /-- `write_all_at` of a page -/
  | write (offset : Nat) (data : Bytes)
  /-- `set_len` -/
  | setLen (size : Nat)
  /-- `read_exact_at`; `fast` when the generation is the handle's and no lookahead is active, `scan`
  when the group of the page is part of a planned scan -/
  | read (offset len : Nat) (fast scan : Bool)

/-- What `read_exact_at` finds before it fetches. -/
inductive Lookup where
  | served (result : IoResult Bytes)
  | miss (loc : PageLocation)

/-- The bytes of a fetched frame that go to the buffer. -/
def framePart (m : Manifest) (slot len : Nat) (decompressed : Bytes) : Bytes :=
  if slot * m.pageSize + len ≤ decompressed.length then
    (decompressed.drop (slot * m.pageSize)).take len
  else List.replicate len 0

namespace State

variable {cfg : CodecConfig} (B : Base cfg) (k : CacheConfig)

/-- The page is as it is in the store. -/
def Remote (s : State) (p : Nat) : Prop := s.touched p = none ∧ p < B.manifest.pageCount

/-- A page of the flat file. -/
def page (s : State) (p : Nat) : Bytes := s.flat.range (p * k.pageSize) k.pageSize

/-- `read_page_if_present`. -/
def cached (s : State) (p len : Nat) : Option (IoResult Bytes) :=
  if s.cache.cache.isPresent k p then some (s.cache.cache.readInto k p len) else none

/-- The fast path. -/
def readFast (s : State) (p len : Nat) (fast : Bool) : Option (IoResult Bytes) :=
  if fast && !s.dirtySinceSync && decide (p < s.manifest.pageCount) then s.cached k p len else none

/-- `read_exact_at` as far as it needs no fetch. -/
def lookup (s : State) (p len : Nat) (fast : Bool) : Lookup :=
  match s.readFast k p len fast with
  | some result => .served result
  | none =>
    if p ∈ s.dirty then
      match s.cached k p len with
      | some result => .served result
      | none => .served (.error (.io .notFound
          s!"dirty page {p} was evicted before read; restart the VFS to recover"))
    else if s.manifest.pageCount ≤ p then .served (.ok (List.replicate len 0))
    else
      match s.manifest.pageLocation p with
      | none => .served (.ok (List.replicate len 0))
      | some loc =>
        match s.cached k p len with
        | some result => .served result
        | none => .miss loc

/-- Pages are written to the cache file. -/
def install (s : State) (writes : List (Nat × Bytes)) : State :=
  { s with cache := writes.foldl (fun c w => c.writePage k w.1 w.2) s.cache }

/-- `mark_group_present`. -/
def markGroupPresent (s : State) (gid : Nat) : State :=
  { s with groups := Function.update s.groups gid .present }

/-- The end of the whole-group path: the page if it is present now, else what the cache file has at its
slot. Bytes found that way are stored as the page. -/
def readInstalled (s : State) (p gid len : Nat) : State × IoResult Bytes :=
  match s.cached k p len with
  | some result => (s, result)
  | none =>
    let missing : IoResult Bytes := .error (.io .notFound
      s!"page {p} in group {gid} missing from remote storage")
    match s.cache.cache.readInto k p len with
    | .error _ => (s, missing)
    | .ok buf =>
      if buf.any (· != 0) then
        ((s.install k [(p, buf)]).markGroupPresent gid, .ok buf)
      else (s, missing)

/-- The whole-group path. -/
def fetchGroup (s : State) (p gid len : Nat) : State × IoResult Bytes :=
  if s.groups gid = .present then s.readInstalled k p gid len
  else
    match (s.manifest.groupKey gid).bind B.backend.getPageGroup with
    | none => s.readInstalled k p gid len
    | some _ =>
      match fullGroupInstall cfg s.manifest B.backend gid with
      | .error e => (s, .error e)
      | .ok writes => ((s.install k writes).markGroupPresent gid).readInstalled k p gid len

/-- The range path is taken: the group has frames, and one of them is the page's. -/
def ranged (s : State) (loc : PageLocation) (scan : Bool) : Bool :=
  s.manifest.hasFrames loc.groupId && !scan &&
    decide (loc.index / s.manifest.subPagesPerFrame < (s.manifest.frameTable loc.groupId).length)

/-- A read that misses. -/
def fetch (s : State) (p : Nat) (loc : PageLocation) (len : Nat) (scan : Bool) :
    State × IoResult Bytes :=
  let m := s.manifest
  let f := loc.index / m.subPagesPerFrame
  if s.ranged loc scan then
    match openFrame cfg m B.backend loc.groupId f with
    | .error e => (s, .error e)
    | .ok none => s.fetchGroup B k p loc.groupId len
    | .ok (some decompressed) =>
      if (m.groupPageNums loc.groupId).length < f * m.subPagesPerFrame then (s, .error .panic)
      else (s.install k (frameInstall m loc.groupId f decompressed),
        .ok (framePart m (loc.index % m.subPagesPerFrame) len decompressed))
  else s.fetchGroup B k p loc.groupId len

/-- The page size `read_exact_at` divides by. -/
def readSize (s : State) (len : Nat) : Nat := if 0 < s.pageSize then s.pageSize else len

/-- `read_exact_at`. -/
def readExactAt (s : State) (offset len : Nat) (fast scan : Bool) : State × IoResult Bytes :=
  let p := offset / s.readSize len
  match s.lookup k p len fast with
  | .served result => (s, result)
  | .miss loc => s.fetch B k p loc len scan

/-- A read, with its answer. -/
def answer (s : State) (offset len : Nat) (fast scan : Bool) : State :=
  let r := s.readExactAt B k offset len fast scan
  { r.1 with
    answers := s.answers ++ [⟨r.2, s.flat.range offset len,
      s.flat.range (offset / k.pageSize * k.pageSize) len⟩] }

/-- `write_all_at`. -/
def writeAllAt (s : State) (offset : Nat) (data : Bytes) : State :=
  let pageSize := if s.pageSize = 0 then data.length else s.pageSize
  let p := offset / pageSize
  { s with
    manifest := s.manifest.seedGeometry data.length B.manifest.pagesPerGroup B.spf
    cache := s.cache.writePage k p data
    dirty := s.dirty.insert p
    dirtySinceSync := true
    pageSize := pageSize
    flat := s.flat.writeAt offset data
    touched := Function.update s.touched p (some data) }

/-- `set_len` of a handle that knows its page size. The cache is cut when the page count shrinks. -/
def cut (s : State) (size : Nat) : State :=
  let n := divCeil size s.pageSize
  let shrinks := decide (n < s.manifest.pageCount)
  { s with
    manifest := s.manifest.setLen n
    dirty := s.dirty.filter (· < n)
    cache := if shrinks then { s.cache with cache := s.cache.cache.truncateToPageCount k n }
      else s.cache
    groups := if shrinks then
        fun gid => if divCeil n s.manifest.pagesPerGroup ≤ gid then .none else s.groups gid
      else s.groups
    flat := s.flat.setLen size
    touched := fun p => if n ≤ p then some [] else s.touched p }

/-- `set_len`. -/
def setLen (s : State) (size : Nat) : State :=
  if s.pageSize = 0 then { s with flat := s.flat.setLen size } else s.cut k size

end State

variable {cfg : CodecConfig} (B : Base cfg) (k : CacheConfig)

/-- One event; `none` when it is refused. A write is of a whole page; a read stays inside a page and,
before the page size is known, asks for a byte at least. -/
def step (s : State) : Event → Option State
  | .write offset data =>
    if data.length = k.pageSize ∧ offset % k.pageSize = 0 then some (s.writeAllAt B k offset data)
    else none
  | .setLen size => some (s.setLen k size)
  | .read offset len fast scan =>
    if offset % k.pageSize + len ≤ k.pageSize ∧ (s.pageSize = 0 → 0 < len) then
      some (s.answer B k offset len fast scan)
    else none

/-! ### Where a handle starts -/

/-- The manifest of a new database; the first write makes the manifest of `B` of it. -/
structure Fresh (m : Manifest) : Prop where
  pageSize : m.pageSize = 0
  pageCount : m.pageCount = 0
  seeded : m.seedGeometry B.manifest.pageSize B.manifest.pagesPerGroup B.spf = B.manifest

/-- A cache that holds some pages of the store, with their group states. -/
structure Warm (c : CacheRestart.State) (groups : Nat → GroupState) : Prop where
  inv : CacheRestart.Inv k c
  unsaved : c.persisted = {}
  pages : ∀ p, c.cache.isPresent k p = true →
    p < B.manifest.pageCount ∧ c.stored p = some (B.page p)
  groups : ∀ gid, groups gid = .present → ∀ p ∈ B.manifest.groupPageNums gid,
    p < B.manifest.pageCount → c.cache.isPresent k p = true

/-- A handle on a stored database, or on a new one. -/
inductive Start : State → Prop
  | opened (c : CacheRestart.State) (groups : Nat → GroupState) (h : Warm B k c groups) :
    Start {
      manifest := B.manifest
      cache := c
      groups := groups
      pageSize := k.pageSize
      flat := ofPages k.pageSize B.manifest.pageCount B.page }
  | created (m : Manifest) (h : Fresh B m) :
    Start { manifest := m, pageSize := 0, flat := RawFile.empty }

/-! ### Settled steps -/

namespace State

/-- The pages the range path would install. -/
def frameWrites (s : State) (loc : PageLocation) : List (Nat × Bytes) :=
  let f := loc.index / s.manifest.subPagesPerFrame
  match openFrame cfg s.manifest B.backend loc.groupId f with
  | .ok (some decompressed) => frameInstall s.manifest loc.groupId f decompressed
  | _ => []

/-- A fetch finds the page and installs nothing over a page that was written or cut. -/
def FetchSafe (s : State) (loc : PageLocation) (scan : Bool) : Prop :=
  if s.ranged loc scan then ∀ w ∈ s.frameWrites B loc, s.Remote B w.1
  else WholeAgrees s.manifest loc.groupId (B.content loc.groupId) ∧
    ∀ p ∈ s.manifest.groupPageNums loc.groupId, s.Remote B p

/-- The page is dirty or in the store, or the manifest has no place for it. -/
def Known (s : State) (p : Nat) : Prop :=
  p ∈ s.dirty ∨ s.Remote B p ∨ s.manifest.pageCount ≤ p ∨ s.manifest.pageLocation p = none

/-- A `set_len` cuts at zeros, and leaves the pages of the store where they are. -/
structure CutSafe (s : State) (size : Nat) : Prop where
  zeros : ∀ i, size ≤ i → i < divCeil size s.pageSize * s.pageSize → s.flat.byte i = 0
  grows : CanGrow s.manifest (divCeil size s.pageSize)
  keeps : ∀ p, s.Remote B p → p < divCeil size s.pageSize →
    KeepsPage s.manifest (s.manifest.setLen (divCeil size s.pageSize)) p
  blobs : k.compressed = true → divCeil size s.pageSize < s.manifest.pageCount →
    ∀ p e, s.cache.cache.index.lookup p = some e → p < divCeil size s.pageSize →
      e.stop ≤ divCeil size s.pageSize * k.slotStride

end State

/-- When a step is settled, the offset of a read apart. -/
def Settled (s : State) : Event → Prop
  | .write .. => True
  | .setLen size => s.pageSize ≠ 0 → s.CutSafe B k size
  | .read offset len fast scan => s.pageSize ≠ 0 → s.Known B (offset / s.pageSize) ∧
      ∀ loc, s.lookup k (offset / s.pageSize) len fast = .miss loc → s.FetchSafe B loc scan

/-! ### The invariant -/

/-- The cache, the store and the flat file agree. -/
structure Coherent (s : State) : Prop where
  cache : CacheRestart.Inv k s.cache
  unsaved : s.cache.persisted = {}
  sized : s.pageSize = 0 ∨ s.pageSize = k.pageSize
  fresh : s.pageSize = 0 → Fresh B s.manifest ∧ (∀ i, s.flat.byte i = 0) ∧ s.dirty = []
  kin : s.pageSize ≠ 0 → Kin B s.touched s.manifest
  dirty : ∀ p ∈ s.dirty, s.cache.cache.isPresent k p = true ∧
    s.cache.stored p = some (s.page k p) ∧ s.touched p ≠ none
  remote : ∀ p, s.Remote B p → s.page k p = B.page p ∧
    (s.cache.cache.isPresent k p = true → s.cache.stored p = some (B.page p))
  past : ∀ p, p ∉ s.dirty → ¬ s.Remote B p → s.page k p = List.replicate k.pageSize 0
  clean : s.dirtySinceSync = false → ∀ p, s.cache.cache.isPresent k p = true → s.Remote B p
  groups : ∀ gid, s.groups gid = .present → ∀ p ∈ s.manifest.groupPageNums gid, s.Remote B p →
    s.cache.cache.isPresent k p = true
  answers : ∀ a ∈ s.answers, a.result = .ok a.lead

variable {B k}

theorem Fresh.pageCount_base {m : Manifest} (h : Fresh B m) : B.manifest.pageCount = 0 := by
  rw [← h.seeded]
  exact h.pageCount

theorem Fresh.not_remote {m : Manifest} (h : Fresh B m) (s : State) (p : Nat) : ¬ s.Remote B p := by
  intro hr
  have hlt := hr.2
  rw [h.pageCount_base] at hlt
  omega

section Parts

variable {s : State} {p len : Nat}

/-- A page in the cache, whose bytes the cache knows. -/
theorem Coherent.cached (hc : k.codec.codecs.Lawful) (h : Coherent B k s) {data : Bytes}
    (hp : s.cache.cache.isPresent k p = true) (hst : s.cache.stored p = some data)
    (hlen : len ≤ k.pageSize) : s.cached k p len = some (.ok (data.take len)) := by
  obtain ⟨d, hd, hsize, hdisk⟩ := h.cache.cache p hp
  rw [hst] at hd
  cases hd
  unfold State.cached
  rw [if_pos hp, hdisk.readInto hc hsize hlen]

theorem Coherent.cached_dirty (hc : k.codec.codecs.Lawful) (h : Coherent B k s) (hp : p ∈ s.dirty)
    (hlen : len ≤ k.pageSize) : s.cached k p len = some (.ok ((s.page k p).take len)) :=
  h.cached hc (h.dirty p hp).1 (h.dirty p hp).2.1 hlen

theorem Coherent.cached_remote (hc : k.codec.codecs.Lawful) (h : Coherent B k s) (hr : s.Remote B p)
    (hp : s.cache.cache.isPresent k p = true) (hlen : len ≤ k.pageSize) :
    s.cached k p len = some (.ok ((s.page k p).take len)) := by
  obtain ⟨hpage, hst⟩ := h.remote p hr
  rw [hpage]
  exact h.cached hc hp (hst hp) hlen

theorem take_zeros (hlen : len ≤ k.pageSize) :
    (List.replicate k.pageSize (0 : UInt8)).take len = List.replicate len 0 := by
  rw [List.take_replicate, Nat.min_eq_left hlen]

/-- A page without a place is zero. -/
theorem Coherent.page_unplaced (h : Coherent B k s) (hk : B.manifest.pageSize = k.pageSize)
    (hs : s.pageSize ≠ 0) (hp : p ∉ s.dirty)
    (hnone : s.manifest.pageCount ≤ p ∨ s.manifest.pageLocation p = none) :
    s.page k p = List.replicate k.pageSize 0 := by
  by_cases hr : s.Remote B p
  · have hkin := h.kin hs
    rcases hnone with hge | hloc
    · exact absurd (hkin.bounded p hr.1 hr.2) (by omega)
    · rw [(h.remote p hr).1, Base.page, if_pos hr.2, image, ← (hkin.keeps p hr.1 hr.2).1, hloc]
      exact congrArg (List.replicate · 0) hk
  · exact h.past p hp hr

/-- What a read finds before it fetches: the page, or a page of the store that is not cached. -/
theorem Coherent.lookup (hc : k.codec.codecs.Lawful) (h : Coherent B k s)
    (hk : B.manifest.pageSize = k.pageSize) (hs : s.pageSize ≠ 0) (hknown : s.Known B p)
    (hlen : len ≤ k.pageSize) (fast : Bool) :
    s.lookup k p len fast = .served (.ok ((s.page k p).take len)) ∨
      ∃ loc, s.lookup k p len fast = .miss loc ∧ s.Remote B p ∧
        s.manifest.pageLocation p = some loc ∧ s.cache.cache.isPresent k p ≠ true := by
  unfold State.lookup
  cases hfast : s.readFast k p len fast with
  | some result =>
    left
    unfold State.readFast at hfast
    split at hfast
    · rename_i hopen
      simp only [Bool.and_eq_true, Bool.not_eq_true', decide_eq_true_eq] at hopen
      have hpres : s.cache.cache.isPresent k p = true := by
        unfold State.cached at hfast
        split at hfast
        · rename_i hp
          exact hp
        · cases hfast
      rw [h.cached_remote hc (h.clean hopen.1.2 p hpres) hpres hlen] at hfast
      cases hfast
      rfl
    · cases hfast
  | none =>
    dsimp only
    by_cases hp : p ∈ s.dirty
    · left
      rw [if_pos hp, h.cached_dirty hc hp hlen]
    · rw [if_neg hp]
      by_cases hcount : s.manifest.pageCount ≤ p
      · left
        rw [if_pos hcount, h.page_unplaced hk hs hp (.inl hcount), take_zeros hlen]
      · rw [if_neg hcount]
        cases hloc : s.manifest.pageLocation p with
        | none =>
          left
          rw [h.page_unplaced hk hs hp (.inr hloc), take_zeros hlen]
        | some loc =>
          have hr : s.Remote B p := by
            rcases hknown with hd | hr | hge | hno
            · exact absurd hd hp
            · exact hr
            · exact absurd hge hcount
            · rw [hloc] at hno
              cases hno
          dsimp only
          by_cases hpres : s.cache.cache.isPresent k p = true
          · left
            rw [h.cached_remote hc hr hpres hlen]
          · right
            refine ⟨loc, ?_, hr, rfl, hpres⟩
            rw [State.cached, if_neg hpres]

/-! ### Fetches -/

theorem cache_install (ws : List (Nat × Bytes)) (c : CacheRestart.State) :
    (ws.foldl (fun c w => c.writePage k w.1 w.2) c).cache =
        ws.foldl (fun c w => c.writePage k w.1 w.2) c.cache ∧
      (ws.foldl (fun c w => c.writePage k w.1 w.2) c).stored = c.stored.install ws ∧
      (ws.foldl (fun c w => c.writePage k w.1 w.2) c).persisted = c.persisted := by
  induction ws generalizing c with
  | nil => exact ⟨rfl, rfl, rfl⟩
  | cons w ws ih => exact ih (c.writePage k w.1 w.2)

theorem isPresent_install (s : State) (ws : List (Nat × Bytes)) (q : Nat) :
    (s.install k ws).cache.cache.isPresent k q = true ↔
      q ∈ ws.map (·.1) ∨ s.cache.cache.isPresent k q = true := by
  unfold State.install
  rw [(cache_install ws s.cache).1]
  exact CacheFile.isPresent_foldl_writePage ws

/-- An install of pages of the store, with their bytes. -/
theorem Coherent.install (hc : k.codec.codecs.Lawful) (hf : k.codec.FrameSized) (h : Coherent B k s)
    (hk : B.manifest.pageSize = k.pageSize) {ws : List (Nat × Bytes)}
    (hrem : ∀ w ∈ ws, s.Remote B w.1) (hval : ∀ w ∈ ws, w.2 = B.page w.1) :
    Coherent B k (s.install k ws) := by
  obtain ⟨-, hst, hsaved⟩ := cache_install (k := k) ws s.cache
  have hsize : ∀ w ∈ ws, w.2.length = k.pageSize := by
    intro w hw
    rw [hval w hw, Base.length_page, hk]
  have hstored : ∀ q, (s.install k ws).cache.stored q =
      if q ∈ ws.map (·.1) then some (B.page q) else s.cache.stored q := by
    intro q
    show (ws.foldl (fun c w => c.writePage k w.1 w.2) s.cache).stored q = _
    rw [hst]
    rcases s.cache.stored.install_cases ws q with ⟨hnot, heq⟩ | ⟨d, hd, heq⟩
    · rw [heq, if_neg hnot]
    · rw [heq, if_pos (List.mem_map.mpr ⟨_, hd, rfl⟩)]
      exact congrArg some (hval _ hd)
  exact
    { h with
      cache := CacheRestart.inv_install hc hf h.cache hsize fun _ w _ => by rw [h.unsaved]; rfl
      unsaved := hsaved.trans h.unsaved
      dirty := fun q hq => by
        obtain ⟨hpres, hq', htouched⟩ := h.dirty q hq
        refine ⟨(isPresent_install s ws q).mpr (.inr hpres), ?_, htouched⟩
        have hnot : q ∉ ws.map (·.1) := by
          intro hmem
          obtain ⟨w, hw, rfl⟩ := List.mem_map.mp hmem
          exact htouched (hrem w hw).1
        rw [hstored, if_neg hnot]
        exact hq'
      remote := fun q hq => by
        refine ⟨(h.remote q hq).1, fun hpres => ?_⟩
        rw [hstored]
        split
        · rfl
        · rename_i hnot
          exact (h.remote q hq).2 (((isPresent_install s ws q).mp hpres).resolve_left hnot)
      clean := fun hclean q hq => by
        rcases (isPresent_install s ws q).mp hq with hmem | hpres
        · obtain ⟨w, hw, rfl⟩ := List.mem_map.mp hmem
          exact hrem w hw
        · exact h.clean hclean q hpres
      groups := fun gid hgid q hq hr =>
        (isPresent_install s ws q).mpr (.inr (h.groups gid hgid q hq hr)) }

theorem Coherent.markGroupPresent (h : Coherent B k s) (gid : Nat)
    (hall : ∀ q ∈ s.manifest.groupPageNums gid, s.Remote B q → s.cache.cache.isPresent k q = true) :
    Coherent B k (s.markGroupPresent gid) :=
  { h with
    groups := fun g hg q hq hr => by
      by_cases hgid : g = gid
      · exact hall q (hgid ▸ hq) hr
      · have hold : s.groups g = .present := by
          have hupd : Function.update s.groups gid GroupState.present g = .present := hg
          rwa [Function.update_of_ne hgid] at hupd
        exact h.groups g hold q hq hr }

/-- The page of a frame, from its start. -/
theorem framePart_flatten {m : Manifest} {os : List Bytes} (hu : Uniform m.pageSize os) {slot : Nat}
    {data : Bytes} (hslot : os[slot]? = some data) (hlen : len ≤ m.pageSize) :
    framePart m slot len os.flatten = data.take len := by
  obtain ⟨hlt, hdata⟩ := List.getElem?_eq_some_iff.mp hslot
  have hend : slot * m.pageSize + m.pageSize ≤ os.flatten.length := by
    rw [length_flatten_of_uniform hu, ← Nat.succ_mul]
    exact Nat.mul_le_mul_right _ hlt
  have hblock := block_flatten hu hlt
  unfold framePart
  rw [if_pos (by omega), ← hdata, ← hblock, block, List.take_take, Nat.min_eq_left hlen]

/-- The whole-group path finds a page of the store. -/
theorem Coherent.fetchGroup (hc : k.codec.codecs.Lawful) (hf : k.codec.FrameSized)
    (h : Coherent B k s) (hk : B.manifest.pageSize = k.pageSize) (hs : s.pageSize ≠ 0)
    {loc : PageLocation} (hr : s.Remote B p) (hloc : s.manifest.pageLocation p = some loc)
    (hpres : s.cache.cache.isPresent k p ≠ true)
    (ha : WholeAgrees s.manifest loc.groupId (B.content loc.groupId))
    (hrem : ∀ q ∈ s.manifest.groupPageNums loc.groupId, s.Remote B q) (hlen : len ≤ k.pageSize) :
    ∃ t, s.fetchGroup B k p loc.groupId len = (t, .ok ((s.page k p).take len)) ∧ Coherent B k t ∧
      t.answers = s.answers := by
  have hkin := h.kin hs
  have hkeeps := hkin.keeps p hr.1 hr.2
  obtain ⟨hheld, -⟩ := hkeeps.holds hkin.pageSize hkin.framed hr.2 (hkeeps.1.symm.trans hloc)
  have hmem : p ∈ s.manifest.groupPageNums loc.groupId :=
    List.mem_of_getElem? ((hkin.partitioned.slot_iff hkin.grouped).mpr hloc)
  obtain ⟨data, hdata, -⟩ := hheld.decode hkin.pageSize_pos
  obtain ⟨ws, hws, hwritten⟩ := hkin.fullGroupInstall_ok ha hheld hmem
  have hall : ∀ q ∈ s.manifest.groupPageNums loc.groupId,
      (s.install k ws).cache.cache.isPresent k q = true := by
    intro q hq
    obtain ⟨ws', hws', hq'⟩ := hkin.fullGroupInstall_ok ha hheld hq
    rw [hws] at hws'
    cases hws'
    exact (isPresent_install s ws q).mpr (.inl hq')
  have hval : ∀ w ∈ ws, s.Remote B w.1 ∧ w.2 = B.page w.1 := by
    intro w hw
    have hw' := hrem w.1 (mem_pages_of_fullGroupInstall hws hw)
    exact ⟨hw', hkin.fullGroupInstall_page ha hws hw hw'.1 hw'.2⟩
  have hinst := (h.install hc hf hk (fun w hw => (hval w hw).1) fun w hw =>
    (hval w hw).2).markGroupPresent loc.groupId fun q hq _ => hall q hq
  have habsent : s.groups loc.groupId ≠ .present := fun hgid =>
    hpres (h.groups loc.groupId hgid p hmem hr)
  refine ⟨(s.install k ws).markGroupPresent loc.groupId, ?_, hinst, rfl⟩
  unfold State.fetchGroup
  rw [if_neg habsent]
  simp only [hdata, hws]
  unfold State.readInstalled
  rw [hinst.cached_remote hc hr (hall p hmem) hlen]
  rfl

/-- A fetch finds a page of the store. -/
theorem Coherent.fetch (hc : k.codec.codecs.Lawful) (hf : k.codec.FrameSized)
    (h : Coherent B k s) (hk : B.manifest.pageSize = k.pageSize) (hs : s.pageSize ≠ 0)
    {loc : PageLocation} {scan : Bool} (hr : s.Remote B p)
    (hloc : s.manifest.pageLocation p = some loc) (hpres : s.cache.cache.isPresent k p ≠ true)
    (hsafe : s.FetchSafe B loc scan) (hlen : len ≤ k.pageSize) :
    ∃ t, s.fetch B k p loc len scan = (t, .ok ((s.page k p).take len)) ∧ Coherent B k t ∧
      t.answers = s.answers := by
  unfold State.FetchSafe at hsafe
  unfold State.fetch
  cases hranged : s.ranged loc scan with
  | false =>
    rw [hranged] at hsafe
    exact h.fetchGroup hc hf hk hs hr hloc hpres hsafe.1 hsafe.2 hlen
  | true =>
    rw [hranged] at hsafe
    simp only [if_true] at hsafe ⊢
    simp only [State.ranged, Bool.and_eq_true, decide_eq_true_eq] at hranged
    have hkin := h.kin hs
    have hkeeps := hkin.keeps p hr.1 hr.2
    obtain ⟨hheld, hpage⟩ :=
      hkeeps.holds hkin.pageSize hkin.framed hr.2 (hkeeps.1.symm.trans hloc)
    obtain ⟨hspf, -⟩ := hasFrames_iff.mp hranged.1.1
    obtain ⟨hopen, hu⟩ := hheld.openFrame_ok hranged.1.1 hranged.2
    have hslot := (hkin.partitioned.slot_iff hkin.grouped).mpr hloc
    have hi := (List.getElem?_eq_some_iff.mp hslot).1
    have hstart : ¬ (s.manifest.groupPageNums loc.groupId).length <
        loc.index / s.manifest.subPagesPerFrame * s.manifest.subPagesPerFrame := by
      have hle := Nat.div_mul_le_self loc.index s.manifest.subPagesPerFrame
      omega
    unfold State.frameWrites at hsafe
    simp only [hopen] at hsafe ⊢
    rw [if_neg hstart]
    refine ⟨_, Prod.ext rfl (congrArg Except.ok ?_), ?_, rfl⟩
    · have hsize : len ≤ s.manifest.pageSize := by
        rw [hkin.pageSize, hk]
        exact hlen
      rw [← GroupContent.getElem?_frame hspf] at hpage
      rw [framePart_flatten hu hpage hsize, (h.remote p hr).1]
    · exact h.install hc hf hk hsafe fun w hw =>
        hkin.frameInstall_page hranged.1.1 hopen hw (hsafe w hw).1 (hsafe w hw).2

/-! ### Steps -/

/-- A handle that knows its page size reads the start of the page. -/
theorem Coherent.readExactAt (hc : k.codec.codecs.Lawful) (hf : k.codec.FrameSized)
    (h : Coherent B k s) (hk : B.manifest.pageSize = k.pageSize) (hs : s.pageSize ≠ 0) {offset : Nat}
    {fast scan : Bool} (hsafe : Settled B k s (.read offset len fast scan)) (hlen : len ≤ k.pageSize) :
    ∃ t, s.readExactAt B k offset len fast scan =
        (t, .ok (s.flat.range (offset / k.pageSize * k.pageSize) len)) ∧
      Coherent B k t ∧ t.answers = s.answers := by
  have hsize : s.pageSize = k.pageSize := h.sized.resolve_left hs
  obtain ⟨hknown, hfetch⟩ := hsafe hs
  have hread : s.readSize len = s.pageSize := if_pos (Nat.pos_of_ne_zero hs)
  rw [← take_range s.flat _ hlen, ← hsize]
  show ∃ t, _ = (t, Except.ok ((s.flat.range (offset / s.pageSize * s.pageSize) s.pageSize).take len)) ∧ _
  have hpage : s.flat.range (offset / s.pageSize * s.pageSize) s.pageSize =
      s.page k (offset / s.pageSize) := by
    rw [State.page, hsize]
  rw [hpage]
  unfold State.readExactAt
  rw [hread]
  rcases h.lookup hc hk hs hknown hlen fast with hserved | ⟨loc, hmiss, hr, hloc, hpres⟩
  · exact ⟨s, by simp only [hserved], h, rfl⟩
  · simp only [hmiss]
    exact h.fetch hc hf hk hs hr hloc hpres (hfetch loc hmiss) hlen

/-- A new database reads zeros. -/
theorem Coherent.readExactAt_fresh (h : Coherent B k s) (hs : s.pageSize = 0) {offset : Nat}
    {fast scan : Bool} : s.readExactAt B k offset len fast scan =
      (s, .ok (s.flat.range (offset / k.pageSize * k.pageSize) len)) := by
  obtain ⟨hfresh, hzero, hdirty⟩ := h.fresh hs
  have hcount := hfresh.pageCount
  unfold State.readExactAt State.lookup State.readFast
  simp only [hcount, hdirty, Nat.not_lt_zero, decide_false, Bool.and_false, Bool.false_eq_true,
    if_false, List.not_mem_nil, Nat.zero_le, if_true]
  rw [range_eq_zeros fun i _ _ => hzero i]

theorem Coherent.record (h : Coherent B k s) {a : Answer} (ha : a.result = .ok a.lead) :
    Coherent B k { s with answers := s.answers ++ [a] } :=
  { h with
    answers := fun x hx => by
      rcases List.mem_append.mp hx with hx | hx
      · exact h.answers x hx
      · rw [List.mem_singleton.mp hx]
        exact ha }

/-- The first write publishes the geometry, later ones find it. -/
theorem Coherent.seedGeometry (h : Coherent B k s) (hk : B.manifest.pageSize = k.pageSize)
    {touched : PageMap} (hle : ∀ p, touched p = none → s.touched p = none) :
    Kin B touched (s.manifest.seedGeometry k.pageSize B.manifest.pagesPerGroup B.spf) := by
  by_cases hs : s.pageSize = 0
  · have hseeded := (h.fresh hs).1.seeded
    rw [hk] at hseeded
    rw [hseeded]
    exact kin_base.mono fun _ _ => rfl
  · rw [(h.kin hs).seedGeometry_eq]
    exact ((h.kin hs).reframe (h.kin hs).framed.seed).mono hle

theorem Coherent.write (hc : k.codec.codecs.Lawful) (hf : k.codec.FrameSized) (h : Coherent B k s)
    (hk : B.manifest.pageSize = k.pageSize) {offset : Nat} {data : Bytes}
    (hdata : data.length = k.pageSize) (hoff : offset % k.pageSize = 0) :
    Coherent B k (s.writeAllAt B k offset data) := by
  have hpos := k.pageSize_pos
  -- the first write of a new database sets the page size
  have hsize : (if s.pageSize = 0 then k.pageSize else s.pageSize) = k.pageSize := by
    split
    · rfl
    · rename_i hs
      exact h.sized.resolve_left hs
  obtain ⟨p, rfl⟩ : ∃ p, offset = p * k.pageSize :=
    ⟨offset / k.pageSize, (Nat.div_mul_cancel (Nat.dvd_of_mod_eq_zero hoff)).symm⟩
  have heq : s.writeAllAt B k (p * k.pageSize) data = { s with
      manifest := s.manifest.seedGeometry k.pageSize B.manifest.pagesPerGroup B.spf
      cache := s.cache.writePage k p data
      dirty := s.dirty.insert p
      dirtySinceSync := true
      pageSize := k.pageSize
      flat := s.flat.writeAt (p * k.pageSize) data
      touched := Function.update s.touched p (some data) } := by
    unfold State.writeAllAt
    simp only [hdata, hsize, Nat.mul_div_cancel _ hpos]
  rw [heq]
  -- a page that is still untouched is another one
  have htouched : ∀ q, Function.update s.touched p (some data) q = none →
      q ≠ p ∧ s.touched q = none := by
    intro q hq
    by_cases hqp : q = p
    · rw [hqp, Function.update_self] at hq
      cases hq
    · rw [Function.update_of_ne hqp] at hq
      exact ⟨hqp, hq⟩
  have hkin := h.seedGeometry hk fun q hq => (htouched q hq).2
  -- the flat file changes in this page alone
  have hpage : ∀ q, (s.flat.writeAt (p * k.pageSize) data).range (q * k.pageSize) k.pageSize =
      if q = p then data else s.page k q := range_writeAt_page hdata p
  have hpresent : ∀ q, (s.cache.cache.writePage k p data).isPresent k q = true ↔
      q = p ∨ s.cache.cache.isPresent k q = true := fun q => CacheFile.isPresent_writePage data
  exact
    { cache := CacheRestart.inv_writePage hc hf h.cache hdata fun _ => by rw [h.unsaved]; rfl
      unsaved := h.unsaved
      sized := .inr rfl
      fresh := fun hzero => absurd hzero hpos.ne'
      kin := fun _ => hkin
      dirty := fun q hq => by
        have hq' : q = p ∨ q ∈ s.dirty := List.mem_insert_iff.mp hq
        show (s.cache.cache.writePage k p data).isPresent k q = true ∧
          Function.update s.cache.stored p (some data) q =
            some ((s.flat.writeAt (p * k.pageSize) data).range (q * k.pageSize) k.pageSize) ∧
          Function.update s.touched p (some data) q ≠ none
        rw [hpresent, hpage]
        by_cases hqp : q = p
        · rw [if_pos hqp, hqp, Function.update_self, Function.update_self]
          exact ⟨.inl rfl, rfl, Option.some_ne_none _⟩
        · obtain ⟨h1, h2, h3⟩ := h.dirty q (hq'.resolve_left hqp)
          rw [if_neg hqp, Function.update_of_ne hqp, Function.update_of_ne hqp]
          exact ⟨.inr h1, h2, h3⟩
      remote := fun q hq => by
        obtain ⟨hqp, hnone⟩ := htouched q hq.1
        obtain ⟨h1, h2⟩ := h.remote q ⟨hnone, hq.2⟩
        refine ⟨(hpage q).trans ((if_neg hqp).trans h1), fun hpres => ?_⟩
        have hold := h2 (((hpresent q).mp hpres).resolve_left hqp)
        exact (Function.update_of_ne hqp ..).trans hold
      past := fun q hq hr => by
        have hnot : q ≠ p ∧ q ∉ s.dirty :=
          ⟨fun hqp => hq (List.mem_insert_iff.mpr (.inl hqp)),
            fun hd => hq (List.mem_insert_iff.mpr (.inr hd))⟩
        refine (hpage q).trans ((if_neg hnot.1).trans (h.past q hnot.2 fun hold => hr ⟨?_, hold.2⟩))
        exact (Function.update_of_ne hnot.1 ..).trans hold.1
      clean := fun hclean => by cases hclean
      groups := fun gid hgid q hq hr => by
        obtain ⟨-, hnone⟩ := htouched q hr.1
        refine (hpresent q).mpr (.inr (h.groups gid hgid q ?_ ⟨hnone, hr.2⟩))
        by_cases hs : s.pageSize = 0
        · exact absurd hr ((h.fresh hs).1.not_remote _ q)
        · rw [(h.kin hs).seedGeometry_eq] at hq
          exact hq
      answers := h.answers }

/-- The cache after a cut: the pages below `n`, and after a shrink no others. -/
theorem isPresent_cut (s : State) (size : Nat) (q : Nat) :
    (s.cut k size).cache.cache.isPresent k q = true ↔ s.cache.cache.isPresent k q = true ∧
      (divCeil size s.pageSize < s.manifest.pageCount → q < divCeil size s.pageSize) := by
  unfold State.cut
  dsimp only
  by_cases hlt : divCeil size s.pageSize < s.manifest.pageCount
  · rw [decide_eq_true hlt, if_pos rfl]
    show (s.cache.cache.truncateToPageCount k (divCeil size s.pageSize)).isPresent k q = true ↔ _
    rw [CacheFile.isPresent_truncateToPageCount]
    simp [hlt]
  · rw [decide_eq_false hlt, if_neg Bool.false_ne_true]
    simp [hlt]

theorem stored_cut (s : State) (size : Nat) : (s.cut k size).cache.stored = s.cache.stored ∧
    (s.cut k size).cache.persisted = s.cache.persisted := by
  unfold State.cut
  dsimp only
  split
  · exact ⟨rfl, rfl⟩
  · exact ⟨rfl, rfl⟩

theorem Coherent.inv_cut (h : Coherent B k s) {size : Nat} (hsafe : s.CutSafe B k size) :
    CacheRestart.Inv k (s.cut k size).cache := by
  unfold State.cut
  dsimp only
  split
  · rename_i hlt
    refine CacheRestart.inv_truncate h.cache ⟨fun _ q _ => by rw [h.unsaved]; rfl, fun hcomp => ?_⟩
    refine ⟨hsafe.blobs hcomp (of_decide_eq_true hlt), fun q e hq => ?_⟩
    rw [h.unsaved] at hq
    cases hq
  · exact h.cache

theorem Coherent.kin_cut (h : Coherent B k s) (hs : s.pageSize ≠ 0) {size : Nat}
    (hsafe : s.CutSafe B k size) : Kin B (s.cut k size).touched (s.cut k size).manifest := by
  have hkin := h.kin hs
  have hcut : ∀ q, (s.cut k size).touched q = none →
      q < divCeil size s.pageSize ∧ s.touched q = none := by
    intro q hq
    have hq' : (if divCeil size s.pageSize ≤ q then some [] else s.touched q) = none := hq
    split at hq'
    · cases hq'
    · rename_i hlt
      exact ⟨Nat.not_le.mp hlt, hq'⟩
  obtain ⟨hlaid, hidx⟩ := partitioned_iff.mp hkin.partitioned
  obtain ⟨n, gps, idx, heq⟩ := s.manifest.setLen_eq (divCeil size s.pageSize)
  refine
    { pageSize := ?_
      framed := ?_
      pagesPerGroup := ?_
      partitioned := partitioned_iff.mpr (hlaid.setLen hidx hsafe.grows)
      bounded := fun q hq _ => ?_
      keeps := fun q hq hlt => ?_ }
  · exact (congrArg Manifest.pageSize heq).trans hkin.pageSize
  · show Framed B (s.manifest.setLen (divCeil size s.pageSize)).subPagesPerFrame
    rw [heq]
    exact hkin.framed
  · exact (congrArg Manifest.pagesPerGroup heq).trans hkin.pagesPerGroup
  · show q < (s.manifest.setLen (divCeil size s.pageSize)).pageCount
    rw [Manifest.pageCount_setLen]
    exact (hcut q hq).1
  · have hold := (hcut q hq).2
    exact (hkin.keeps q hold hlt).trans (hsafe.keeps q ⟨hold, hlt⟩ (hcut q hq).1)

theorem Coherent.cut (h : Coherent B k s) (hs : s.pageSize ≠ 0) {size : Nat}
    (hsafe : s.CutSafe B k size) : Coherent B k (s.cut k size) := by
  have hkin := h.kin hs
  have hsize : s.pageSize = k.pageSize := h.sized.resolve_left hs
  have hpos : 0 < s.pageSize := Nat.pos_of_ne_zero hs
  obtain ⟨hst, hsaved⟩ := stored_cut (k := k) s size
  have hpage : ∀ q, (s.cut k size).page k q = if q < divCeil size s.pageSize then s.page k q
      else List.replicate k.pageSize 0 := by
    intro q
    have hrange := range_setLen_page (le_divCeil_mul hpos) hsafe.zeros q
    rw [hsize] at hrange ⊢
    exact hrange
  have hremote : ∀ q, (s.cut k size).Remote B q ↔
      q < divCeil size s.pageSize ∧ s.Remote B q := by
    intro q
    show (if divCeil size s.pageSize ≤ q then some [] else s.touched q) = none ∧ _ ↔ _
    unfold State.Remote
    split
    · rename_i hge
      exact ⟨fun hq => absurd hq.1 (Option.some_ne_none _), fun hq => absurd hq.1 (by omega)⟩
    · rename_i hlt
      exact ⟨fun hq => ⟨Nat.not_le.mp hlt, hq⟩, fun hq => hq.2⟩
  have hdirty : ∀ q, q ∈ (s.cut k size).dirty ↔ q ∈ s.dirty ∧ q < divCeil size s.pageSize := by
    intro q
    show q ∈ s.dirty.filter _ ↔ _
    rw [List.mem_filter, decide_eq_true_iff]
  have hbelow : ∀ q, s.cache.cache.isPresent k q = true → q < divCeil size s.pageSize →
      (s.cut k size).cache.cache.isPresent k q = true :=
    fun q hq hlt => (isPresent_cut s size q).mpr ⟨hq, fun _ => hlt⟩
  exact
    { cache := h.inv_cut hsafe
      unsaved := hsaved.trans h.unsaved
      sized := h.sized
      fresh := fun hzero => absurd hzero hs
      kin := fun _ => h.kin_cut hs hsafe
      dirty := fun q hq => by
        obtain ⟨hq', hlt⟩ := (hdirty q).mp hq
        obtain ⟨h1, h2, h3⟩ := h.dirty q hq'
        rw [hst, hpage, if_pos hlt]
        refine ⟨hbelow q h1 hlt, h2, ?_⟩
        show (if divCeil size s.pageSize ≤ q then some [] else s.touched q) ≠ none
        rw [if_neg (by omega)]
        exact h3
      remote := fun q hq => by
        obtain ⟨hlt, hq'⟩ := (hremote q).mp hq
        obtain ⟨h1, h2⟩ := h.remote q hq'
        rw [hst, hpage, if_pos hlt]
        exact ⟨h1, fun hpres => h2 ((isPresent_cut s size q).mp hpres).1⟩
      past := fun q hq hr => by
        rw [hpage]
        split
        · rename_i hlt
          exact h.past q (fun hd => hq ((hdirty q).mpr ⟨hd, hlt⟩))
            fun hold => hr ((hremote q).mpr ⟨hlt, hold⟩)
        · rfl
      clean := fun hclean q hq => by
        obtain ⟨hpres, hcut⟩ := (isPresent_cut s size q).mp hq
        have hr := h.clean hclean q hpres
        have hcount := hkin.bounded q hr.1 hr.2
        refine (hremote q).mpr ⟨?_, hr⟩
        by_cases hlt : divCeil size s.pageSize < s.manifest.pageCount
        · exact hcut hlt
        · omega
      groups := fun gid hgid q hq hr => by
        obtain ⟨hlt, hr'⟩ := (hremote q).mp hr
        have hold : s.groups gid = .present := by
          unfold State.cut at hgid
          dsimp only at hgid
          split at hgid
          · dsimp only at hgid
            split at hgid
            · cases hgid
            · exact hgid
          · exact hgid
        -- the page is in the group it was in
        obtain ⟨i, hi⟩ := List.mem_iff_getElem?.mp hq
        have hkin' := h.kin_cut hs hsafe
        have hloc := (hkin'.partitioned.slot_iff hkin'.grouped).mp hi
        have hloc' : s.manifest.pageLocation q = some ⟨gid, i⟩ :=
          (hsafe.keeps q hr' hlt).1.symm.trans hloc
        have hmem := List.mem_of_getElem? ((hkin.partitioned.slot_iff hkin.grouped).mpr hloc')
        exact hbelow q (h.groups gid hold q hmem hr') hlt
      answers := h.answers }

theorem Coherent.setLen (h : Coherent B k s) {size : Nat} (hsafe : Settled B k s (.setLen size)) :
    Coherent B k (s.setLen k size) := by
  unfold State.setLen
  split
  · rename_i hs
    obtain ⟨hfresh, hzero, hdirty⟩ := h.fresh hs
    have hzero' : ∀ i, (s.flat.setLen size).byte i = 0 := by
      intro i
      show (if i < size then s.flat.byte i else 0) = 0
      rw [hzero, ite_self]
    have hnot : ∀ q, ¬ s.Remote B q := hfresh.not_remote s
    exact
      { h with
        fresh := fun _ => ⟨hfresh, hzero', hdirty⟩
        dirty := fun q hq => by
          rw [show s.dirty = [] from hdirty] at hq
          cases hq
        remote := fun q hq => absurd hq (hnot q)
        past := fun q _ _ => range_eq_zeros fun i _ _ => hzero' i }
  · rename_i hs
    exact h.cut hs (hsafe hs)

theorem Coherent.step (hc : k.codec.codecs.Lawful) (hf : k.codec.FrameSized)
    (hk : B.manifest.pageSize = k.pageSize) {e : Event} {s' : State} (h : Coherent B k s)
    (hsafe : Settled B k s e) (hs : step B k s e = some s') : Coherent B k s' := by
  cases e with
  | write offset data =>
    simp only [FlatFile.step] at hs
    split at hs
    · rename_i hguard
      cases hs
      exact h.write hc hf hk hguard.1 hguard.2
    · cases hs
  | setLen size =>
    cases hs
    exact h.setLen hsafe
  | read offset len fast scan =>
    simp only [FlatFile.step] at hs
    split at hs
    · rename_i hguard
      cases hs
      unfold State.answer
      by_cases hsize : s.pageSize = 0
      · rw [h.readExactAt_fresh hsize]
        exact h.record rfl
      · obtain ⟨t, hread, ht, hans⟩ :=
          h.readExactAt hc hf hk hsize hsafe (by omega : len ≤ k.pageSize)
        rw [hread]
        dsimp only
        rw [← hans]
        exact ht.record rfl
    · cases hs

theorem Start.coherent (hk : B.manifest.pageSize = k.pageSize) (h : Start B k s) :
    Coherent B k s := by
  cases h with
  | opened c groups hwarm =>
    exact
      { cache := hwarm.inv
        unsaved := hwarm.unsaved
        sized := .inr rfl
        fresh := fun hzero => absurd hzero k.pageSize_pos.ne'
        kin := fun _ => kin_base
        dirty := fun q hq => by cases hq
        remote := fun q hq =>
          ⟨range_ofPages hq.2 (by rw [Base.length_page, hk]), fun hpres => (hwarm.pages q hpres).2⟩
        past := fun q _ hr =>
          range_ofPages_past (Nat.not_lt.mp fun hlt => hr ⟨rfl, hlt⟩) k.pageSize
        clean := fun _ q hq => ⟨rfl, (hwarm.pages q hq).1⟩
        groups := fun gid hgid q hq hr => hwarm.groups gid hgid q hq hr.2
        answers := fun a ha => by cases ha }
  | created m hfresh =>
    have hnot := hfresh.not_remote { manifest := m, pageSize := 0, flat := RawFile.empty }
    exact
      { cache := CacheRestart.inv_fresh k
        unsaved := rfl
        sized := .inl rfl
        fresh := fun _ => ⟨hfresh, fun _ => rfl, rfl⟩
        kin := fun hzero => absurd rfl hzero
        dirty := fun q hq => by cases hq
        remote := fun q hq => absurd hq (hnot q)
        past := fun q _ _ => range_eq_zeros fun _ _ _ => rfl
        clean := fun _ q hq => by
          simp [Presence.isPresent] at hq
        groups := fun gid hgid => by cases hgid
        answers := fun a ha => by cases ha }

end Parts

namespace Example

/-- Pages of 512 bytes, unencrypted and uncompressed. -/
theorem config_pos : 0 < 512 := by decide

/-- A plain cache of pages of 512 bytes. -/
def config : CacheConfig := ⟨.plain, 512, false, config_pos⟩

/-- A page whose bytes count up. -/
def counting : Bytes := (List.range 512).map UInt8.ofNat

/-- A handle on the stored pages, with an empty cache. -/
def opened : State where
  manifest := Fetches.Example.base.manifest
  pageSize := config.pageSize
  flat := ofPages config.pageSize Fetches.Example.base.manifest.pageCount Fetches.Example.base.page

theorem warm : Warm Fetches.Example.base config {} fun _ => .none where
  inv := CacheRestart.inv_fresh config
  unsaved := rfl
  pages := fun p hp => by simp [Presence.isPresent] at hp
  groups := fun gid hgid => by cases hgid

theorem start : Start Fetches.Example.base config opened := .opened {} _ warm

/-- Page 1 was fetched. -/
def fetched : State := opened.answer Fetches.Example.base config 512 16 true false

/-- Page 0 was written after that. -/
def written : State := fetched.writeAllAt Fetches.Example.base config 0 counting

theorem step_write : step Fetches.Example.base config fetched (.write 0 counting) =
    some written := by
  have hguard : counting.length = config.pageSize ∧ 0 % config.pageSize = 0 := by
    unfold counting
    rw [List.length_map, List.length_range]
    decide
  simp only [step, if_pos hguard]
  rfl

end Example

end FlatFile

end Turbolite
