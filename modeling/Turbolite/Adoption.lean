import Turbolite.FetchSafety
import Turbolite.GroupPresence
import Turbolite.SharedManifest

/-!
# Turbolite.Adoption

A cache that outlives its manifest. `set_manifest` takes a newer manifest from outside, and an open
compares the one it loaded with the one in memory; both drop pages of the groups whose objects changed
and keep the rest of the cache. `set_manifest` clears the pages that the new layout lists for such a
group, an open clears the bits of the group's range by position and leaves the bytes in the cache file,
where the last branch of `read_exact_at` may find them. `adopted_reads_are_right` says along which runs
no read returns bytes of an earlier manifest.

Readers only: nothing is dirty, and no other thread fetches.
-/

namespace Turbolite

open Blocks Results ReadPaths

/-! ### The cache under a new manifest -/

namespace GroupCache

variable (k : CacheConfig)

/-- `set_group_pages` and `ensure_group_capacity`. A manifest without lists leaves the cache's own. -/
def adoptLayout (c : GroupCache) (m : Manifest) : GroupCache :=
  if m.groupPages = [] then c
  else
    { c with
      groupPages := m.groupPages
      states := c.states ++ List.replicate (m.groupPages.length - c.states.length) .none }

/-- `invalidate_group`: the bits of a range by position. Index entries and bytes stay. -/
def invalidateGroup (c : GroupCache) (gid ppg : Nat) : GroupCache :=
  let inside := fun p => decide (gid * ppg ≤ p ∧ p < gid * ppg + ppg)
  { c with
    bitmap := fun p => c.bitmap p && !inside p
    tracker := untrackGroup c.tracker gid
    interiorPages := c.interiorPages.filter (!inside ·)
    indexPages := c.indexPages.filter (!inside ·) }

/-- A group that an open no longer trusts. -/
def distrustGroup (c : GroupCache) (gid ppg : Nat) : GroupCache :=
  { c.invalidateGroup gid ppg with states := c.states.set gid .none }

/-- Fetched pages go to the cache. -/
def install (c : GroupCache) (writes : List (Nat × Bytes)) (gid start : Nat) : GroupCache :=
  { c with
    toCacheFile := writes.foldl (fun c w => c.writePage k w.1 w.2) c.toCacheFile
    tracker := (List.range writes.length).foldl
      (fun t i => trackData t (c.subChunkIdFor gid (start + i))) c.tracker }

end GroupCache

namespace Adoption

open Runs Turbolite.Partition SharedManifest

/-- The groups `set_manifest` evicts: the key differs, or the version does and the group has
overrides. -/
def changedGroups (old m : Manifest) : List Nat :=
  let changed := (List.range (max old.pageGroupKeys.length m.pageGroupKeys.length)).filter fun gid =>
    old.pageGroupKeys[gid]? ≠ m.pageGroupKeys[gid]?
  if m.version ≠ old.version ∧ 0 < m.version then
    changed ++ (List.range m.subframeOverrides.length).filter fun gid =>
      (m.overrides gid).entries ≠ [] ∧ gid ∉ changed
  else changed

/-- The override maps are equal, or both missing. -/
def SameOverrides : Option (HMap Nat SubframeOverride) → Option (HMap Nat SubframeOverride) → Prop
  | none, none => True
  | some x, some y => x.entries.Perm y.entries
  | _, _ => False

instance : (x y : Option (HMap Nat SubframeOverride)) → Decidable (SameOverrides x y)
  | none, none => .isTrue trivial
  | some x, some y => inferInstanceAs (Decidable (x.entries.Perm y.entries))
  | some _, none => .isFalse id
  | none, some _ => .isFalse id

/-- What an open compares of a group. -/
def Differs (old m : Manifest) (gid : Nat) : Prop :=
  old.pageGroupKeys[gid]? ≠ m.pageGroupKeys[gid]? ∨
    ¬ SameOverrides old.subframeOverrides[gid]? m.subframeOverrides[gid]?

instance (old m : Manifest) (gid : Nat) : Decidable (Differs old m gid) :=
  inferInstanceAs (Decidable (_ ∨ _))

/-- An open looks at the groups: the versions are known and differ. -/
def Compares (old m : Manifest) : Prop := 0 < old.version ∧ old.version ≠ m.version

instance (old m : Manifest) : Decidable (Compares old m) := inferInstanceAs (Decidable (_ ∧ _))

/-- The groups an open no longer trusts. -/
def distrusted (old m : Manifest) : List Nat :=
  if Compares old m then
    (List.range (max old.pageGroupKeys.length m.pageGroupKeys.length)).filter fun gid =>
      Differs old m gid
  else []

/-! ### The state -/

/-- What a read returned, and what the page is through the manifest. -/
structure Answer where
  result : IoResult Bytes
  through : IoResult Bytes

/-- The bytes are those of the manifest; an error is always right. -/
def Answer.Right (a : Answer) : Prop := ∀ data, a.result = .ok data → a.through = .ok data

/-- The handle's manifest and cache beside the bytes last stored, with the reads answered so far. -/
structure State where
  manifest : Manifest
  cache : GroupCache
  /-- the bytes last stored for each page -/
  stored : PageMap := PageMap.empty
  answers : List Answer := []

/-- The calls of the handle. -/
inductive Event where
  /-- `set_manifest` -/
  | setManifest (m : Manifest)
  /-- the main database is opened with a loaded manifest -/
  | openDb (m : Manifest)
  /-- `read_exact_at` of a page; `fast` when the generation is the handle's, `scan` when the group is
  part of a planned scan -/
  | read (p : Nat) (fast scan : Bool)

variable (cfg : CodecConfig) (k : CacheConfig) (b : Backend)

namespace State

/-- The page is in the cache. -/
def present (s : State) (p : Nat) : Bool := s.cache.isPresent k p

/-- The group size an open invalidates by. -/
def openGroupSize (s : State) (m : Manifest) : Nat :=
  if 0 < m.pagesPerGroup then m.pagesPerGroup else s.cache.pagesPerGroup

/-- `set_manifest` of a manifest it goes on with. -/
def adopt (s : State) (m : Manifest) : State :=
  let c := (s.cache.adoptLayout m).evictGroups k (changedGroups s.manifest m)
  match m.dbHeader with
  | none => { s with manifest := m, cache := c }
  | some page0 => { s with
      manifest := m
      cache := c.writePage k 0 page0
      stored := Function.update s.stored 0 (some page0) }

/-- `open_inner` with the manifest it loaded, as far as the cache is concerned. -/
def reopen (s : State) (m : Manifest) : State :=
  let c := (distrusted s.manifest m).foldl (fun c gid => c.distrustGroup gid (s.openGroupSize m)) s.cache
  { s with manifest := m, cache := c.adoptLayout m }

/-- Fetched pages, with the record of them. -/
def install (s : State) (writes : List (Nat × Bytes)) (gid start : Nat) : State :=
  { s with cache := s.cache.install k writes gid start, stored := s.stored.install writes }

/-- The end of the whole-group path: the page if it is present now, else what the cache file has at its
slot, which is stored as the page. -/
def readInstalled (s : State) (p gid : Nat) : State × IoResult Bytes :=
  if s.present k p then (s, s.cache.readPage k p)
  else
    let missing : IoResult Bytes := .error (.io .notFound
      s!"page {p} in group {gid} missing from remote storage")
    match s.cache.readPage k p with
    | .error _ => (s, missing)
    | .ok data =>
      if data.any (· ≠ 0) then
        ({ s with
            cache := (s.cache.writePage k p data).markGroupPresent gid
            stored := Function.update s.stored p (some data) }, .ok data)
      else (s, missing)

/-- The whole-group path. -/
def fetchGroup (s : State) (p gid : Nat) : State × IoResult Bytes :=
  if s.cache.groupState gid = .present then s.readInstalled k p gid
  else
    match (s.manifest.groupKey gid).bind b.getPageGroup with
    | none => s.readInstalled k p gid
    | some _ =>
      match fullGroupInstall cfg s.manifest b gid with
      | .error e => (s, .error e)
      | .ok writes =>
        let s := s.install k writes gid 0
        ({ s with cache := s.cache.markGroupPresent gid }).readInstalled k p gid

/-- A read that misses. -/
def fetch (s : State) (p : Nat) (loc : PageLocation) (scan : Bool) : State × IoResult Bytes :=
  let m := s.manifest
  let f := loc.index / m.subPagesPerFrame
  if m.hasFrames loc.groupId && !scan then
    match openFrame cfg m b loc.groupId f with
    | .error e => (s, .error e)
    | .ok none => s.fetchGroup cfg k b p loc.groupId
    | .ok (some decompressed) =>
      if (m.groupPageNums loc.groupId).length < f * m.subPagesPerFrame then (s, .error .panic)
      else (s.install k (frameInstall m loc.groupId f decompressed) loc.groupId (f * m.subPagesPerFrame),
        .ok (framePage m (loc.index % m.subPagesPerFrame) decompressed))
  else s.fetchGroup cfg k b p loc.groupId

/-- `read_exact_at` of a page. -/
def readExactAt (s : State) (p : Nat) (fast scan : Bool) : State × IoResult Bytes :=
  if fast && decide (p < s.manifest.pageCount) && s.present k p then (s, s.cache.readPage k p)
  else if s.manifest.pageCount ≤ p then (s, .ok (zeroPage s.manifest))
  else
    match s.manifest.pageLocation p with
    | none => (s, .ok (zeroPage s.manifest))
    | some loc =>
      if s.present k p then (s, s.cache.readPage k p) else s.fetch cfg k b p loc scan

/-- A read, with its answer. -/
def answer (s : State) (p : Nat) (fast scan : Bool) : State :=
  let r := s.readExactAt cfg k b p fast scan
  { r.1 with answers := s.answers ++ [⟨r.2, coldRead cfg s.manifest b p⟩] }

end State

/-- One event; `none` when the call does not return: an open that finds the cache ahead of the loaded
manifest takes the lock of the group states twice. -/
def step (s : State) : Event → Option State
  | .setManifest incoming =>
    let m := incoming.detectAndNormalizeStrategy
    if acceptsManifest s.manifest m then some (s.adopt k m) else some s
  | .openDb loaded =>
    let m := loaded.detectAndNormalizeStrategy
    if 0 < s.manifest.version ∧ m.version < s.manifest.version then none else some (s.reopen m)
  | .read p fast scan => some (s.answer cfg k b p fast scan)

/-! ### Safe steps -/

/-- The manifest is one of this cache, and its groups partition the pages. -/
structure Fits (m : Manifest) : Prop where
  pageSize : m.pageSize = k.pageSize
  grouped : 0 < m.pagesPerGroup
  partitioned : Partitioned m

/-- The pages below the new page count that stay in the cache are those of the new manifest. -/
def Agrees (s : State) (m : Manifest) (kept : Nat → Prop) : Prop :=
  ∀ p, s.present k p = true → kept p → p < m.pageCount →
    s.cache.readPage k p = coldRead cfg m b p

/-- `set_manifest` leaves the page in the cache. -/
def AdoptKeeps (s : State) (m : Manifest) (p : Nat) : Prop :=
  (∀ gid ∈ changedGroups s.manifest m, p ∉ (s.cache.adoptLayout m).groupPageNums gid) ∧
    (m.dbHeader = none ∨ p ≠ 0)

/-- The header of the manifest is its page 0. -/
def HeaderAgrees (m : Manifest) : Prop :=
  ∀ page0, m.dbHeader = some page0 → page0.length = k.pageSize ∧
    (0 < m.pageCount → coldRead cfg m b 0 = .ok page0)

/-- An open leaves the bit of the page. -/
def OpenKeeps (s : State) (m : Manifest) (p : Nat) : Prop :=
  ∀ gid ∈ distrusted s.manifest m,
    ¬ (gid * s.openGroupSize m ≤ p ∧ p < gid * s.openGroupSize m + s.openGroupSize m)

/-- The cache file has no bytes at the slot of a page that is not there. -/
def Blank (s : State) (p : Nat) : Prop :=
  ∀ data, s.cache.readPage k p = .ok data → data.any (· ≠ 0) = false

/-- The whole-group path of a group with frames reads what the range path reads, and a page it does not
fetch left nothing behind. -/
structure WholeSafe (s : State) (gid p : Nat) : Prop where
  agrees : s.manifest.hasFrames gid = true → ∀ ws, fullGroupInstall cfg s.manifest b gid = .ok ws →
    ∀ w ∈ ws, w.1 < s.manifest.pageCount → coldRead cfg s.manifest b w.1 = .ok w.2
  blank : s.cache.groupState gid = .present ∨ (s.manifest.groupKey gid).bind b.getPageGroup = none →
    Blank k s p

/-- A fetch takes the whole-group path. -/
def GoesWhole (s : State) (loc : PageLocation) (scan : Bool) : Prop :=
  s.manifest.hasFrames loc.groupId = true → scan = false →
    openFrame cfg s.manifest b loc.groupId (loc.index / s.manifest.subPagesPerFrame) = .ok none

/-- When a step is safe. -/
def Safe (s : State) : Event → Prop
  | .setManifest incoming =>
      let m := incoming.detectAndNormalizeStrategy
      acceptsManifest s.manifest m = true → Fits k m ∧ HeaderAgrees cfg k b m ∧
        Agrees cfg k b s m (AdoptKeeps s m)
  | .openDb loaded =>
      let m := loaded.detectAndNormalizeStrategy
      Fits k m ∧ Agrees cfg k b s m (OpenKeeps s m)
  | .read p _ scan => p < s.manifest.pageCount → s.present k p = false →
      ∀ loc, s.manifest.pageLocation p = some loc → GoesWhole cfg b s loc scan →
        WholeSafe cfg k b s loc.groupId p

/-- A new manifest is taken. -/
def Event.Adopts (s : State) : Event → Prop
  | .setManifest incoming =>
      acceptsManifest s.manifest incoming.detectAndNormalizeStrategy = true
  | .openDb _ => True
  | .read .. => False

/-! ### The invariant -/

/-- The pages whose bit is set can be read. Bits may have been cleared since without the index or the
file being touched. -/
def Backed (c : CacheFile) (stored : PageMap) : Prop :=
  ∃ bits, GroupPresence.FileInv k { c with bitmap := bits } stored ∧
    ∀ p, c.bitmap p = true → bits p = true

/-- What the cache file and the bitmap say agrees with the bytes last stored and with the manifest. -/
structure Coherent (s : State) : Prop where
  file : Backed k s.cache.toCacheFile s.stored
  fits : Fits k s.manifest
  cached : ∀ p, s.present k p = true → p < s.manifest.pageCount →
    ∃ data, s.stored p = some data ∧ coldRead cfg s.manifest b p = .ok data
  answers : ∀ a ∈ s.answers, a.Right

variable {cfg k b}

/-! ### What fetches install -/

section Fetched

variable {m : Manifest} {gid f : Nat} {w : Nat × Bytes}

/-- The range read of a page is that of its frame. -/
theorem rangeRead_eq_openFrame (m : Manifest) (b : Backend) (gid i : Nat) :
    rangeRead cfg m b gid i =
      (openFrame cfg m b gid (i / m.subPagesPerFrame) >>= fun
        | none => .ok none
        | some decompressed =>
          if (m.groupPageNums gid).length < i / m.subPagesPerFrame * m.subPagesPerFrame then .error .panic
          else .ok (some (framePage m (i % m.subPagesPerFrame) decompressed))) := by
  unfold rangeRead openFrame
  dsimp only
  cases hentry : (m.frameTable gid)[i / m.subPagesPerFrame]? with
  | none => rfl
  | some entry =>
    dsimp only
    cases fetchFrame m b gid (i / m.subPagesPerFrame) entry with
    | error e => rfl
    | ok fetched =>
      cases fetched with
      | none => rfl
      | some pair =>
        simp only [ok_bind]
        cases cfg.decodeSeekableSubchunk pair.1 pair.2 with
        | error e => rfl
        | ok decompressed => rfl

/-- A page of a group with frames, read through the manifest. -/
theorem coldRead_ranged {p : Nat} {loc : PageLocation} {decompressed : Bytes} (hp : p < m.pageCount)
    (hloc : m.pageLocation p = some loc) (hf : m.hasFrames loc.groupId = true)
    (hopen : openFrame cfg m b loc.groupId (loc.index / m.subPagesPerFrame) = .ok (some decompressed))
    (hstart : ¬ (m.groupPageNums loc.groupId).length <
      loc.index / m.subPagesPerFrame * m.subPagesPerFrame) :
    coldRead cfg m b p = .ok (framePage m (loc.index % m.subPagesPerFrame) decompressed) := by
  unfold coldRead
  rw [if_neg (by omega)]
  simp only [hloc, hf, if_true, rangeRead_eq_openFrame, hopen, ok_bind, if_neg hstart]

/-- What a frame installs is read through the manifest. -/
theorem coldRead_of_mem_frameInstall (hfit : Fits k m) (hf : m.hasFrames gid = true)
    {decompressed : Bytes} (hopen : openFrame cfg m b gid f = .ok (some decompressed))
    (hw : w ∈ frameInstall m gid f decompressed) (hp : w.1 < m.pageCount) :
    coldRead cfg m b w.1 = .ok w.2 := by
  obtain ⟨hspf, -⟩ := hasFrames_iff.mp hf
  unfold frameInstall at hw
  dsimp only at hw
  split at hw
  · rename_i hle
    obtain ⟨j, hj, -, hdata⟩ := PageMap.mem_scatter_inv hw
    have hjlen := (List.getElem?_eq_some_iff.mp hj).1
    rw [getElem?_block] at hj
    split at hj
    · rename_i hjk
      have hdiv : (f * m.subPagesPerFrame + j) / m.subPagesPerFrame = f := by
        rw [Nat.mul_comm, Nat.mul_add_div hspf, Nat.div_eq_of_lt hjk, Nat.add_zero]
      have hmod : (f * m.subPagesPerFrame + j) % m.subPagesPerFrame = j := by
        rw [Nat.mul_comm, Nat.mul_add_mod, Nat.mod_eq_of_lt hjk]
      have hloc := (hfit.partitioned.slot_iff hfit.grouped).mp hj
      have hstart : ¬ (m.groupPageNums gid).length < f * m.subPagesPerFrame := by
        have hlt := (List.getElem?_eq_some_iff.mp hj).1
        omega
      have hend : (j + 1) * m.pageSize ≤
          (block m.subPagesPerFrame f (m.groupPageNums gid)).length * m.pageSize :=
        Nat.mul_le_mul_right _ hjlen
      have hpage : framePage m j decompressed = w.2 := by
        rw [hdata, framePage, if_pos (hend.trans hle)]
        rw [Nat.succ_mul] at hend
        show (decompressed.drop (j * m.pageSize)).take m.pageSize =
          ((decompressed.take _).drop (j * m.pageSize)).take m.pageSize
        rw [List.drop_take, List.take_take, Nat.min_eq_left (by omega)]
      have hcold : coldRead cfg m b w.1 = .ok (framePage m
          ((f * m.subPagesPerFrame + j) % m.subPagesPerFrame) decompressed) :=
        coldRead_ranged hp hloc hf (by rw [hdiv]; exact hopen) (by rw [hdiv]; exact hstart)
      rw [hmod, hpage] at hcold
      exact hcold
    · cases hj
  · cases hw

/-- What the whole-group path installs. -/
theorem fullGroupInstall_eq_scatter {ws : List (Nat × Bytes)} {data : Bytes}
    (hobj : (m.groupKey gid).bind b.getPageGroup = some data)
    (hok : fullGroupInstall cfg m b gid = .ok ws) : ∃ pageData : Bytes,
      pageData.length = (m.groupPageNums gid).length * m.pageSize ∧
      ws = PageMap.scatter m.pageSize (m.groupPageNums gid) pageData := by
  unfold fullGroupInstall at hok
  simp only [hobj] at hok
  obtain ⟨⟨pgCount, pgSize, pageData⟩, -, hrest⟩ := bind_eq_ok.mp hok
  dsimp only at hrest
  split at hrest
  · rename_i hnil
    cases hrest
    refine ⟨[], by rw [hnil, Nat.zero_mul]; rfl, ?_⟩
    rw [List.eq_nil_of_length_eq_zero hnil]
    simp [PageMap.scatter]
  · split at hrest
    · rename_i hle
      cases hrest
      exact ⟨_, by rw [List.length_take, Nat.min_eq_left hle], rfl⟩
    · cases hrest

/-- Every page of the group is written, with the bytes of its slot. -/
theorem mem_scatter_of_slot {ps i p : Nat} {ns : List Nat} {data : Bytes} (hps : 0 < ps)
    (hlen : data.length = ns.length * ps) (hi : ns[i]? = some p) :
    (p, block ps i data) ∈ PageMap.scatter ps ns data := by
  have hall : ns.take (data.length / ps) = ns := by
    rw [hlen, Nat.mul_div_cancel _ hps, List.take_length]
  unfold PageMap.scatter
  rw [hall]
  exact List.mem_map.mpr ⟨(p, i), List.mem_zipIdx_iff_getElem?.mpr hi, rfl⟩

/-- A page that is listed once gets one write. -/
theorem snd_eq_of_mem_scatter {ps p : Nat} {ns : List Nat} {data d d' : Bytes} (hnd : ns.Nodup)
    (h : (p, d) ∈ PageMap.scatter ps ns data) (h' : (p, d') ∈ PageMap.scatter ps ns data) : d = d' := by
  obtain ⟨i, hi, -, hd⟩ := PageMap.mem_scatter_inv h
  obtain ⟨i', hi', -, hd'⟩ := PageMap.mem_scatter_inv h'
  obtain ⟨hlt, hget⟩ := List.getElem?_eq_some_iff.mp hi
  obtain ⟨hlt', hget'⟩ := List.getElem?_eq_some_iff.mp hi'
  have heq : i = i' := (List.Nodup.getElem_inj_iff hnd).mp (hget.trans hget'.symm)
  dsimp only at hd hd'
  rw [hd, hd', heq]

/-- What the whole-group path installs of a group without frames is read through the manifest. -/
theorem coldRead_of_mem_fullGroupInstall (hfit : Fits k m) (hf : m.hasFrames gid = false)
    {ws : List (Nat × Bytes)} (hok : fullGroupInstall cfg m b gid = .ok ws) (hw : w ∈ ws)
    (hp : w.1 < m.pageCount) : coldRead cfg m b w.1 = .ok w.2 := by
  obtain ⟨i, hi⟩ := List.mem_iff_getElem?.mp (mem_pages_of_fullGroupInstall hok hw)
  have hloc := (hfit.partitioned.slot_iff hfit.grouped).mp hi
  have hinst : PageMap.empty.install ws w.1 = some w.2 := by
    rcases PageMap.empty.install_cases ws w.1 with ⟨hnot, -⟩ | ⟨d, hd, heq⟩
    · exact absurd (List.mem_map.mpr ⟨w, hw, rfl⟩) hnot
    · cases hobj : (m.groupKey gid).bind b.getPageGroup with
      | none =>
        unfold fullGroupInstall at hok
        rw [hobj] at hok
        cases hok
        cases hw
      | some data =>
        obtain ⟨pageData, -, rfl⟩ := fullGroupInstall_eq_scatter hobj hok
        rw [heq, snd_eq_of_mem_scatter (hfit.partitioned.nodup_groupPageNums gid) hd hw]
  unfold coldRead
  rw [if_neg (by omega)]
  simp only [hloc, hf, Bool.false_eq_true, if_false]
  unfold fullGroupRead
  simp only [hok, ok_bind, PageMap.readPresent, hinst]

end Fetched

/-! ### The file -/

section Files

variable {c : CacheFile} {stored : PageMap} {p : Nat}

theorem Backed.readPage (hc : k.codec.codecs.Lawful) (h : Backed k c stored)
    (hp : c.isPresent k p = true) : ∃ data, stored p = some data ∧ c.readPage k p = .ok data := by
  obtain ⟨bits, hinv, hsub⟩ := h
  have hp' : ({ c with bitmap := bits } : CacheFile).isPresent k p = true := by
    unfold Presence.isPresent at hp ⊢
    rw [Bool.and_eq_true] at hp ⊢
    exact ⟨hsub p hp.1, hp.2⟩
  obtain ⟨data, hst, hlen, hdisk⟩ := hinv.cache p hp'
  exact ⟨data, hst, hdisk.readPage hc hlen⟩

theorem Backed.writePage (hc : k.codec.codecs.Lawful) (hs : k.codec.FrameSized)
    (h : Backed k c stored) {data : Bytes} (hlen : data.length = k.pageSize) :
    Backed k (c.writePage k p data) (Function.update stored p (some data)) := by
  obtain ⟨bits, hinv, hsub⟩ := h
  refine ⟨Function.update bits p true, ?_, fun q hq => ?_⟩
  · have heq : ({ c with bitmap := bits } : CacheFile).writePage k p data =
        { c.writePage k p data with bitmap := Function.update bits p true } := by
      unfold CacheFile.writePage
      split
      · rfl
      · rfl
    rw [← heq]
    exact hinv.writePage hc hs hlen
  · have hmark : Function.update c.bitmap p true q = true := by
      unfold CacheFile.writePage at hq
      split at hq
      · exact hq
      · exact hq
    by_cases hqp : q = p
    · rw [hqp, Function.update_self]
    · rw [Function.update_of_ne hqp] at hmark ⊢
      exact hsub q hmark

theorem Backed.writePages (hc : k.codec.codecs.Lawful) (hs : k.codec.FrameSized)
    (h : Backed k c stored) {ws : List (Nat × Bytes)} (hlen : ∀ w ∈ ws, w.2.length = k.pageSize) :
    Backed k (ws.foldl (fun c w => c.writePage k w.1 w.2) c) (stored.install ws) := by
  induction ws generalizing c stored with
  | nil => exact h
  | cons w ws ih =>
    exact ih (h.writePage hc hs (hlen w List.mem_cons_self))
      fun x hx => hlen x (List.mem_cons_of_mem _ hx)

theorem Backed.clear (h : Backed k c stored) (ps : List Nat) :
    Backed k (c.clearPagesFromDisk k ps) stored := by
  obtain ⟨bits, hinv, hsub⟩ := h
  refine ⟨fun q => bits q && !ps.contains q, hinv.clear ps, fun q hq => ?_⟩
  have hq' : (c.bitmap q && !ps.contains q) = true := hq
  rw [Bool.and_eq_true] at hq' ⊢
  exact ⟨hsub q hq'.1, hq'.2⟩

/-- Bits are cleared and nothing else. -/
theorem Backed.forget (h : Backed k c stored) {bits : Nat → Bool}
    (hle : ∀ q, bits q = true → c.bitmap q = true) : Backed k { c with bitmap := bits } stored := by
  obtain ⟨bits', hinv, hsub⟩ := h
  exact ⟨bits', hinv, fun q hq => hsub q (hle q hq)⟩

end Files

/-! ### Steps -/

section Parts

variable {s : State} {p : Nat}

theorem Coherent.readPage (hc : k.codec.codecs.Lawful) (h : Coherent cfg k b s)
    (hp : s.present k p = true) (hlt : p < s.manifest.pageCount) :
    s.cache.readPage k p = coldRead cfg s.manifest b p := by
  obtain ⟨data, hst, hread⟩ := h.file.readPage hc hp
  obtain ⟨data', hst', hcold⟩ := h.cached p hp hlt
  rw [hst] at hst'
  cases hst'
  rw [hread, hcold]

theorem Coherent.markGroupPresent (h : Coherent cfg k b s) (gid : Nat) :
    Coherent cfg k b { s with cache := s.cache.markGroupPresent gid } :=
  ⟨h.file, h.fits, h.cached, h.answers⟩

/-- Pages are stored with their bytes through the manifest. -/
theorem Coherent.install (hc : k.codec.codecs.Lawful) (hs : k.codec.FrameSized)
    (h : Coherent cfg k b s) {ws : List (Nat × Bytes)} (gid start : Nat)
    (hlen : ∀ w ∈ ws, w.2.length = k.pageSize)
    (hcold : ∀ w ∈ ws, w.1 < s.manifest.pageCount → coldRead cfg s.manifest b w.1 = .ok w.2) :
    Coherent cfg k b (s.install k ws gid start) := by
  refine ⟨h.file.writePages hc hs hlen, h.fits, fun q hq hlt => ?_, h.answers⟩
  show ∃ data, s.stored.install ws q = some data ∧ coldRead cfg s.manifest b q = .ok data
  rcases s.stored.install_cases ws q with ⟨hnot, heq⟩ | ⟨d, hd, heq⟩
  · have hq' : q ∈ ws.map (·.1) ∨ s.present k q = true :=
      (CacheFile.isPresent_foldl_writePage ws).mp hq
    rw [heq]
    exact h.cached q (hq'.resolve_left hnot) hlt
  · exact ⟨d, heq, hcold (q, d) hd hlt⟩

/-- A page that the whole-group path did not bring in is an error. -/
theorem readInstalled_of_blank (hpres : s.present k p ≠ true) (hblank : Blank k s p) (gid : Nat) :
    s.readInstalled k p gid = (s, .error (.io .notFound
      s!"page {p} in group {gid} missing from remote storage")) := by
  unfold State.readInstalled
  rw [if_neg hpres]
  dsimp only
  cases hread : s.cache.readPage k p with
  | error e => rfl
  | ok data =>
    dsimp only
    rw [hblank data hread]
    rfl

theorem readInstalled_of_present (hpres : s.present k p = true) (gid : Nat) :
    s.readInstalled k p gid = (s, s.cache.readPage k p) := if_pos hpres

/-- What a read makes of the state, and that its result is right. -/
def ReadsRight (cfg : CodecConfig) (k : CacheConfig) (b : Backend) (s : State) (p : Nat)
    (r : State × IoResult Bytes) : Prop :=
  Coherent cfg k b r.1 ∧ r.1.answers = s.answers ∧
    ∀ data, r.2 = .ok data → coldRead cfg s.manifest b p = .ok data

theorem Coherent.readsRight_error (h : Coherent cfg k b s) (e : IoError) :
    ReadsRight cfg k b s p (s, .error e) :=
  ⟨h, rfl, fun _ hd => by cases hd⟩

theorem Coherent.readsRight_cached (hc : k.codec.codecs.Lawful) (h : Coherent cfg k b s)
    (hp : s.present k p = true) (hlt : p < s.manifest.pageCount) :
    ReadsRight cfg k b s p (s, s.cache.readPage k p) :=
  ⟨h, rfl, fun _ hd => (h.readPage hc hp hlt).symm.trans hd⟩

theorem Coherent.fetchGroup (hc : k.codec.codecs.Lawful) (hs : k.codec.FrameSized)
    (h : Coherent cfg k b s) {loc : PageLocation} (hlt : p < s.manifest.pageCount)
    (hpres : s.present k p ≠ true) (hloc : s.manifest.pageLocation p = some loc)
    (hsafe : WholeSafe cfg k b s loc.groupId p) :
    ReadsRight cfg k b s p (s.fetchGroup cfg k b p loc.groupId) := by
  have hslot := (h.fits.partitioned.slot_iff h.fits.grouped).mpr hloc
  have hps : 0 < s.manifest.pageSize := by
    rw [h.fits.pageSize]
    exact k.pageSize_pos
  unfold State.fetchGroup
  split
  · rename_i hgroup
    rw [readInstalled_of_blank hpres (hsafe.blank (.inl hgroup))]
    exact h.readsRight_error _
  · split
    · rename_i hnone
      rw [readInstalled_of_blank hpres (hsafe.blank (.inr hnone))]
      exact h.readsRight_error _
    · rename_i data hobj
      cases hok : fullGroupInstall cfg s.manifest b loc.groupId with
      | error e => exact h.readsRight_error e
      | ok ws =>
        obtain ⟨pageData, hsize, rfl⟩ := fullGroupInstall_eq_scatter hobj hok
        have hmem := mem_scatter_of_slot hps hsize hslot
        have hlen : ∀ w ∈ PageMap.scatter s.manifest.pageSize
            (s.manifest.groupPageNums loc.groupId) pageData, w.2.length = k.pageSize := by
          intro w hw
          rw [h.fits.pageSize] at hw
          exact CacheRestart.length_of_mem_writes hw
        have hcold : ∀ w ∈ PageMap.scatter s.manifest.pageSize
            (s.manifest.groupPageNums loc.groupId) pageData, w.1 < s.manifest.pageCount →
              coldRead cfg s.manifest b w.1 = .ok w.2 := by
          intro w hw hw'
          cases hf : s.manifest.hasFrames loc.groupId with
          | true => exact hsafe.agrees hf _ hok w hw hw'
          | false => exact coldRead_of_mem_fullGroupInstall h.fits hf hok hw hw'
        have hinst := (h.install hc hs loc.groupId 0 hlen hcold).markGroupPresent loc.groupId
        have hnow : (s.install k (PageMap.scatter s.manifest.pageSize
            (s.manifest.groupPageNums loc.groupId) pageData) loc.groupId 0).present k p = true :=
          (CacheFile.isPresent_foldl_writePage _).mpr (.inl (List.mem_map.mpr ⟨_, hmem, rfl⟩))
        dsimp only
        rw [readInstalled_of_present]
        · exact hinst.readsRight_cached hc hnow hlt
        · exact hnow

theorem Coherent.fetch (hc : k.codec.codecs.Lawful) (hs : k.codec.FrameSized)
    (h : Coherent cfg k b s) {loc : PageLocation} {scan : Bool} (hlt : p < s.manifest.pageCount)
    (hpres : s.present k p ≠ true) (hloc : s.manifest.pageLocation p = some loc)
    (hsafe : GoesWhole cfg b s loc scan → WholeSafe cfg k b s loc.groupId p) :
    ReadsRight cfg k b s p (s.fetch cfg k b p loc scan) := by
  unfold State.fetch
  dsimp only
  split
  · rename_i hranged
    rw [Bool.and_eq_true, Bool.not_eq_true'] at hranged
    cases hopen : openFrame cfg s.manifest b loc.groupId
        (loc.index / s.manifest.subPagesPerFrame) with
    | error e => exact h.readsRight_error e
    | ok opened =>
      cases opened with
      | none => exact h.fetchGroup hc hs hlt hpres hloc (hsafe fun _ _ => hopen)
      | some decompressed =>
        dsimp only
        split
        · exact h.readsRight_error _
        · rename_i hstart
          refine ⟨h.install hc hs _ _ (fun w hw => ?_) fun w hw hw' => ?_, rfl, fun data hd => ?_⟩
          · unfold frameInstall at hw
            dsimp only at hw
            split at hw
            · rw [h.fits.pageSize] at hw
              exact CacheRestart.length_of_mem_writes hw
            · cases hw
          · exact coldRead_of_mem_frameInstall h.fits hranged.1 hopen hw hw'
          · rw [← hd]
            exact coldRead_ranged hlt hloc hranged.1 hopen hstart
  · rename_i hwhole
    refine h.fetchGroup hc hs hlt hpres hloc (hsafe fun hf hscan => ?_)
    rw [hf, hscan] at hwhole
    exact absurd rfl hwhole

theorem Coherent.readExactAt (hc : k.codec.codecs.Lawful) (hs : k.codec.FrameSized)
    (h : Coherent cfg k b s) {fast scan : Bool} (hsafe : Safe cfg k b s (.read p fast scan)) :
    ReadsRight cfg k b s p (s.readExactAt cfg k b p fast scan) := by
  unfold State.readExactAt
  split
  · rename_i hfast
    simp only [Bool.and_eq_true, decide_eq_true_eq] at hfast
    exact h.readsRight_cached hc hfast.2 hfast.1.2
  · split
    · rename_i hge
      refine ⟨h, rfl, fun data hd => ?_⟩
      rw [coldRead, if_pos hge, ← hd]
    · rename_i hlt
      have hlt' := Nat.not_le.mp hlt
      cases hloc : s.manifest.pageLocation p with
      | none =>
        refine ⟨h, rfl, fun data hd => ?_⟩
        rw [coldRead, if_neg hlt, hloc, ← hd]
      | some loc =>
        dsimp only
        split
        · rename_i hpres
          exact h.readsRight_cached hc hpres hlt'
        · rename_i hpres
          exact h.fetch hc hs hlt' hpres hloc (hsafe hlt' (Bool.eq_false_iff.mpr hpres) loc hloc)

/-! ### New manifests -/

theorem toCacheFile_adoptLayout (c : GroupCache) (m : Manifest) :
    (c.adoptLayout m).toCacheFile = c.toCacheFile := by
  unfold GroupCache.adoptLayout
  split
  · rfl
  · rfl

theorem Backed.evictGroups {c : GroupCache} {stored : PageMap} (h : Backed k c.toCacheFile stored)
    (gids : List Nat) : Backed k (c.evictGroups k gids).toCacheFile stored := by
  induction gids generalizing c with
  | nil => exact h
  | cons gid gids ih => exact ih (h.clear _)

/-- The bits an open leaves; the file and the index stay. -/
theorem toCacheFile_distrust (ppg : Nat) (gids : List Nat) (c : GroupCache) : ∃ bits,
    (gids.foldl (fun c gid => c.distrustGroup gid ppg) c).toCacheFile =
        { c.toCacheFile with bitmap := bits } ∧
      ∀ q, bits q = true ↔ c.bitmap q = true ∧
        ∀ gid ∈ gids, ¬ (gid * ppg ≤ q ∧ q < gid * ppg + ppg) := by
  induction gids generalizing c with
  | nil => exact ⟨c.bitmap, rfl, fun q => by simp⟩
  | cons gid gids ih =>
    obtain ⟨bits, heq, hbits⟩ := ih (c.distrustGroup gid ppg)
    refine ⟨bits, heq, fun q => (hbits q).trans ?_⟩
    have hone : (c.distrustGroup gid ppg).bitmap q = true ↔
        c.bitmap q = true ∧ ¬ (gid * ppg ≤ q ∧ q < gid * ppg + ppg) := by
      show (c.bitmap q && !decide (gid * ppg ≤ q ∧ q < gid * ppg + ppg)) = true ↔ _
      rw [Bool.and_eq_true, Bool.not_eq_true', decide_eq_false_iff_not]
    rw [hone, List.forall_mem_cons, and_assoc]

/-- A page that stays in the cache, under the new manifest. -/
theorem Agrees.cached (hc : k.codec.codecs.Lawful) {m : Manifest} {kept : Nat → Prop}
    (hagrees : Agrees cfg k b s m kept) (hfile : Backed k s.cache.toCacheFile s.stored) {q : Nat}
    (hq : s.present k q = true) (hkept : kept q) (hlt : q < m.pageCount) :
    ∃ data, s.stored q = some data ∧ coldRead cfg m b q = .ok data := by
  obtain ⟨data, hst, hread⟩ := hfile.readPage hc hq
  exact ⟨data, hst, (hagrees q hq hkept hlt).symm.trans hread⟩

theorem coherent_adopt (hc : k.codec.codecs.Lawful) (hs : k.codec.FrameSized)
    (hfile : Backed k s.cache.toCacheFile s.stored) (hans : ∀ a ∈ s.answers, a.Right) {m : Manifest}
    (hfits : Fits k m) (hheader : HeaderAgrees cfg k b m)
    (hagrees : Agrees cfg k b s m (AdoptKeeps s m)) : Coherent cfg k b (s.adopt k m) := by
  have hlayout : Backed k (s.cache.adoptLayout m).toCacheFile s.stored := by
    rw [toCacheFile_adoptLayout]
    exact hfile
  have hevicted := hlayout.evictGroups (changedGroups s.manifest m)
  have hpresent : ∀ q, ((s.cache.adoptLayout m).evictGroups k
      (changedGroups s.manifest m)).isPresent k q = true ↔ s.present k q = true ∧
        ∀ gid ∈ changedGroups s.manifest m, q ∉ (s.cache.adoptLayout m).groupPageNums gid := by
    intro q
    rw [GroupCache.isPresent_evictGroups]
    unfold State.present
    rw [toCacheFile_adoptLayout]
  unfold State.adopt
  dsimp only
  cases hhead : m.dbHeader with
  | none =>
    refine ⟨hevicted, hfits, fun q hq hlt => ?_, hans⟩
    obtain ⟨hq', hcleared⟩ := (hpresent q).mp hq
    exact hagrees.cached hc hfile hq' ⟨hcleared, .inl hhead⟩ hlt
  | some page0 =>
    obtain ⟨hlen, hzero⟩ := hheader page0 hhead
    refine ⟨hevicted.writePage hc hs hlen, hfits, fun q hq hlt => ?_, hans⟩
    have hlt' : q < m.pageCount := hlt
    show ∃ data, Function.update s.stored 0 (some page0) q = some data ∧ _
    by_cases hq0 : q = 0
    · rw [hq0, Function.update_self]
      exact ⟨page0, rfl, hzero (by omega)⟩
    · rw [Function.update_of_ne hq0]
      have hold : ((s.cache.adoptLayout m).evictGroups k
          (changedGroups s.manifest m)).isPresent k q = true :=
        ((CacheFile.isPresent_writePage page0).mp hq).resolve_left hq0
      obtain ⟨hq', hcleared⟩ := (hpresent q).mp hold
      exact hagrees.cached hc hfile hq' ⟨hcleared, .inr hq0⟩ hlt'

/-- An open takes bits away; the file and the index stay. -/
theorem toCacheFile_reopen (s : State) (m : Manifest) : ∃ bits,
    (s.reopen m).cache.toCacheFile = { s.cache.toCacheFile with bitmap := bits } ∧
      ∀ q, bits q = true ↔ s.cache.bitmap q = true ∧ OpenKeeps s m q := by
  obtain ⟨bits, heq, hbits⟩ :=
    toCacheFile_distrust (s.openGroupSize m) (distrusted s.manifest m) s.cache
  exact ⟨bits, (toCacheFile_adoptLayout _ m).trans heq, hbits⟩

theorem Backed.reopen (hfile : Backed k s.cache.toCacheFile s.stored) (m : Manifest) :
    Backed k (s.reopen m).cache.toCacheFile s.stored := by
  obtain ⟨bits, hcut, hbits⟩ := toCacheFile_reopen s m
  rw [hcut]
  exact hfile.forget fun q hq => ((hbits q).mp hq).1

theorem coherent_reopen (hc : k.codec.codecs.Lawful)
    (hfile : Backed k s.cache.toCacheFile s.stored) (hans : ∀ a ∈ s.answers, a.Right) {m : Manifest}
    (hfits : Fits k m) (hagrees : Agrees cfg k b s m (OpenKeeps s m)) :
    Coherent cfg k b (s.reopen m) := by
  refine ⟨hfile.reopen m, hfits, fun q hq hlt => ?_, hans⟩
  obtain ⟨bits, hcut, hbits⟩ := toCacheFile_reopen s m
  unfold State.present at hq
  rw [hcut] at hq
  unfold Presence.isPresent at hq
  rw [Bool.and_eq_true] at hq
  obtain ⟨hbit, hkept⟩ := (hbits q).mp hq.1
  refine hagrees.cached hc hfile ?_ hkept hlt
  unfold State.present Presence.isPresent
  rw [Bool.and_eq_true]
  exact ⟨hbit, hq.2⟩

/-- An adoption that goes through brings a cache to its new manifest, whatever it was before. -/
theorem coherent_of_adopts (hc : k.codec.codecs.Lawful) (hs : k.codec.FrameSized) {e : Event}
    {s' : State} (hfile : Backed k s.cache.toCacheFile s.stored) (hans : ∀ a ∈ s.answers, a.Right)
    (hadopts : e.Adopts s) (hsafe : Safe cfg k b s e) (hstep : step cfg k b s e = some s') :
    Coherent cfg k b s' := by
  cases e with
  | setManifest incoming =>
    obtain ⟨hfits, hheader, hagrees⟩ := hsafe hadopts
    have haccepts : acceptsManifest s.manifest incoming.detectAndNormalizeStrategy = true := hadopts
    simp only [Adoption.step] at hstep
    rw [if_pos haccepts] at hstep
    cases hstep
    exact coherent_adopt hc hs hfile hans hfits hheader hagrees
  | openDb loaded =>
    simp only [Adoption.step] at hstep
    split at hstep
    · cases hstep
    · cases hstep
      exact coherent_reopen hc hfile hans hsafe.1 hsafe.2
  | read p fast scan => exact hadopts.elim

theorem Coherent.step (hc : k.codec.codecs.Lawful) (hs : k.codec.FrameSized) {e : Event} {s' : State}
    (h : Coherent cfg k b s) (hsafe : Safe cfg k b s e) (hstep : step cfg k b s e = some s') :
    Coherent cfg k b s' := by
  by_cases hadopts : e.Adopts s
  · exact coherent_of_adopts hc hs h.file h.answers hadopts hsafe hstep
  · cases e with
    | setManifest incoming =>
      have hrefused : ¬ acceptsManifest s.manifest incoming.detectAndNormalizeStrategy = true := hadopts
      simp only [Adoption.step] at hstep
      rw [if_neg hrefused] at hstep
      cases hstep
      exact h
    | openDb loaded => exact absurd trivial hadopts
    | read p fast scan =>
      cases hstep
      obtain ⟨hco, hold, hright⟩ := h.readExactAt hc hs hsafe
      refine ⟨hco.file, hco.fits, hco.cached, fun a ha => ?_⟩
      rcases List.mem_append.mp ha with ha | ha
      · exact h.answers a ha
      · rw [List.mem_singleton.mp ha]
        exact hright

end Parts

namespace Example

/-- Pages of 512 bytes, unencrypted and uncompressed. -/
theorem config_pos : 0 < 512 := by decide

/-- A plain cache of pages of 512 bytes. -/
def config : CacheConfig := ⟨.plain, 512, false, config_pos⟩

/-- A page full of one byte. -/
def page (x : UInt8) : Bytes := List.replicate 512 x

/-- Page 1 is alone in group 1, whose range by position would be pages 2 and 3. -/
def manifest (version : Nat) : Manifest where
  version := version
  pageCount := 3
  pageSize := 512
  pagesPerGroup := 2
  pageGroupKeys := [some (.pageGroup 0 1), some (.pageGroup 1 version)]
  strategy := .bTreeAware
  groupPages := [[0, 2], [1]]

/-- Each version of group 1 has an object of its own. -/
def backend : Backend where
  objects := fun
    | .pageGroup 1 1 => some (CodecConfig.plain.encodePageGroup (aadPageGroup 1) 512 [some (page 1)])
    | .pageGroup 1 2 => some (CodecConfig.plain.encodePageGroup (aadPageGroup 1) 512 [some (page 2)])
    | _ => none

/-- The cache holds page 1 of the first version. -/
def start : State where
  manifest := (manifest 1).detectAndNormalizeStrategy
  cache := ({ pagesPerGroup := 2, subPagesPerFrame := 0 } : GroupCache).writePage config 1 (page 1)
  stored := Function.update PageMap.empty 1 (some (page 1))

theorem backed : Backed config start.cache.toCacheFile start.stored := by
  have hempty : Backed config {} PageMap.empty :=
    ⟨fun _ => false, CacheRestart.inv_fresh config, fun _ hp => hp⟩
  exact hempty.writePage Codecs.plain_lawful (fun _ h => by cases h) (List.length_replicate ..)

theorem fits (version : Nat) : Fits config (manifest version).detectAndNormalizeStrategy where
  pageSize := rfl
  grouped := Nat.two_pos
  partitioned := by
    have hcovered : ∀ p < 3, p ∈ [[0, 2], [1]].flatten := by decide
    have hnodup : ([[0, 2], [1]] : List (List Nat)).flatten.Nodup := by decide
    have hbounded : ∀ g ∈ ([[0, 2], [1]] : List (List Nat)), g.length ≤ 2 := by decide
    have hlaid : Laid (manifest version).normalizeOverrides :=
      ⟨(fun h => by cases h), fun _ => hcovered, hnodup, hbounded⟩
    exact partitioned_iff.mpr hlaid.buildPageIndex

end Example

end Adoption

end Turbolite
