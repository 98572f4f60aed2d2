import Turbolite.ColdRead
import Turbolite.Writers

/-!
# Turbolite.GroupMerge

How flush and durable sync fill the pages of a group before they encode it. The loop over the group's
page list stops at the first page past `page_count`; a page before that comes from the local source
(staging or cache) or else from the base object, and the slots after it stay empty and are encoded as
zeros. Overrides are never consulted here.
-/

namespace Turbolite

open Blocks Results ReadPaths

/-! ### Filling and encoding a group -/

/-- The pages the loops visit: those before the first one past `page_count`. -/
def liveSlots (m : Manifest) (gid : Nat) : List Nat :=
  (m.groupPageNums gid).takeWhile (· < m.pageCount)

/-- Each visited page from the local source or the base object. -/
def mergeSlots (source : PageMap) (base : List Bytes) (live : List Nat) : List (Option Bytes) :=
  live.zipIdx.map fun pj => (source pj.1).or base[pj.2]?

/-- The format the manifest calls for. -/
def encodeRewrite (cfg : CodecConfig) (m : Manifest) (gid : Nat) (pages : List (Option Bytes)) :
    Rewrite :=
  if 0 < m.subPagesPerFrame then
    let e := cfg.encodePageGroupSeekable (aadPageGroup gid) m.pageSize m.subPagesPerFrame pages
    ⟨gid, e.1, some e.2⟩
  else ⟨gid, cfg.encodePageGroup (aadPageGroup gid) m.pageSize pages, none⟩

/-- The pages of a downloaded base object. -/
def decodeBasePages (cfg : CodecConfig) (dict : Option Bytes) (m : Manifest) (gid : Nat)
    (data : Bytes) : IoResult (List Bytes) :=
  if m.hasFrames gid then do
    let (_, _, bulk) ← cfg.decodePageGroupSeekableFull dict (aadPageGroup gid) data
      (m.frameTable gid) m.pageSize (m.groupPageNums gid).length m.pageCount
    .ok ((List.range (bulk.length / m.pageSize)).map fun j => block m.pageSize j bulk)
  else do
    let (_, _, pages) ← cfg.decodePageGroup dict (aadPageGroup gid) data
    .ok pages

/-- The base object is only fetched when a visited page is not in the source. -/
def fetchIfNeeded (source : PageMap) (live : List Nat) (fetch : IoResult (List Bytes)) :
    IoResult (List Bytes) :=
  if live.all fun p => (source p).isSome then .ok [] else fetch

/-- One group rewritten whole: fetch the base when a visited page is not in the source, refuse a page
that has no source, encode. -/
def rewriteGroup (cfg : CodecConfig) (m : Manifest) (source : PageMap) (gid : Nat)
    (fetch : IoResult (List Bytes)) (missing : Nat → IoError) : IoResult Rewrite := do
  let live := liveSlots m gid
  let base ← fetchIfNeeded source live fetch
  let slots := mergeSlots source base live
  match (live.zip slots).find? (fun s => s.2.isNone) with
  | some (p, _) => .error (missing p)
  | none => .ok (encodeRewrite cfg m gid
      (slots ++ List.replicate ((m.groupPageNums gid).length - live.length) none))

theorem gid_of_rewriteGroups {rewrite : Nat → IoResult Rewrite}
    (hgid : ∀ gid r, rewrite gid = .ok r → r.gid = gid) {gids : List Nat} {rs : List Rewrite}
    (h : gids.mapM rewrite = .ok rs) :
    rs.map (·.gid) = gids ∧ ∀ r ∈ rs, rewrite r.gid = .ok r := by
  refine ⟨mapM_map_key hgid h, fun r hr => ?_⟩
  obtain ⟨g, -, hrg⟩ := mapM_inv h r hr
  rw [hgid g r hrg]
  exact hrg

/-- Rewrite a set of groups; the first failure fails the whole. -/
def rewriteGroups (rewrite : Nat → IoResult Rewrite)
    (hgid : ∀ gid r, rewrite gid = .ok r → r.gid = gid) (gids : List Nat) (hnd : gids.Nodup) :
    IoResult GroupWrites :=
  match h : gids.mapM rewrite with
  | .error e => .error e
  | .ok rs => .ok (.ofRewrites rs ((gid_of_rewriteGroups hgid h).1 ▸ hnd))

theorem rewriteGroups_inv {rewrite : Nat → IoResult Rewrite}
    {hgid : ∀ gid r, rewrite gid = .ok r → r.gid = gid} {gids : List Nat} {hnd : gids.Nodup}
    {w : GroupWrites} (h : rewriteGroups rewrite hgid gids hnd = .ok w) :
    w.frames = [] ∧ w.rewrites.map (·.gid) = gids ∧ ∀ r ∈ w.rewrites, rewrite r.gid = .ok r := by
  unfold rewriteGroups at h
  split at h
  · cases h
  · rename_i rs hrs
    cases h
    exact ⟨rfl, gid_of_rewriteGroups hgid hrs⟩

theorem rewriteGroups_ok {rewrite : Nat → IoResult Rewrite}
    (hgid : ∀ gid r, rewrite gid = .ok r → r.gid = gid) {gids : List Nat} (hnd : gids.Nodup)
    (h : ∀ g ∈ gids, ∃ r, rewrite g = .ok r) : ∃ w, rewriteGroups rewrite hgid gids hnd = .ok w := by
  obtain ⟨rs, hrs⟩ := mapM_ok h
  unfold rewriteGroups
  split
  · rename_i e he
    rw [hrs] at he
    cases he
  · exact ⟨_, rfl⟩

/-! ### The pages a rewritten group holds -/

/-- The page of slot `j` after a rewrite. -/
def mergedPage (m : Manifest) (source : PageMap) (base : List Bytes) (gid p j : Nat) : Bytes :=
  if j < (liveSlots m gid).length then ((source p).or base[j]?).getD (zeroPage m) else zeroPage m

/-- The pages of a group as the merge writes them. -/
def mergedPages (m : Manifest) (source : PageMap) (base : List Bytes) (gid : Nat) : List Bytes :=
  (m.groupPageNums gid).zipIdx.map fun pj => mergedPage m source base gid pj.1 pj.2

@[simp] theorem length_mergedPages (m : Manifest) (source : PageMap) (base : List Bytes)
    (gid : Nat) : (mergedPages m source base gid).length = (m.groupPageNums gid).length := by
  simp [mergedPages]

theorem getElem?_mergedPages {m : Manifest} {source : PageMap} {base : List Bytes} {gid p j : Nat}
    (h : (m.groupPageNums gid)[j]? = some p) :
    (mergedPages m source base gid)[j]? = some (mergedPage m source base gid p j) := by
  simp [mergedPages, List.getElem?_map, List.getElem?_zipIdx, h]

theorem length_liveSlots_le (m : Manifest) (gid : Nat) :
    (liveSlots m gid).length ≤ (m.groupPageNums gid).length :=
  (List.takeWhile_prefix _).length_le

theorem getElem?_liveSlots {m : Manifest} {gid j : Nat} (h : j < (liveSlots m gid).length) :
    (liveSlots m gid)[j]? = (m.groupPageNums gid)[j]? := by
  have happ := (List.takeWhile_append_dropWhile (p := fun q => decide (q < m.pageCount))
    (l := m.groupPageNums gid)).symm
  rw [happ]
  exact (List.getElem?_append_left h).symm

theorem getElem?_mergeSlots {source : PageMap} {base : List Bytes} {live : List Nat} {j p : Nat}
    (h : live[j]? = some p) :
    (mergeSlots source base live)[j]? = some ((source p).or base[j]?) := by
  simp [mergeSlots, List.getElem?_map, List.getElem?_zipIdx, h]

@[simp] theorem length_mergeSlots (source : PageMap) (base : List Bytes) (live : List Nat) :
    (mergeSlots source base live).length = live.length := by
  simp [mergeSlots]

/-! ### Sources of a rewrite -/

/-- Every page the rewrite visits has local bytes. -/
def LocalPages (m : Manifest) (source : PageMap) (gid : Nat) : Prop :=
  ∀ p ∈ liveSlots m gid, (source p).isSome

/-- Every page the rewrite visits has local bytes or is in `base`. -/
def Merges (m : Manifest) (source : PageMap) (gid : Nat) (base : List Bytes) : Prop :=
  ∀ j p : Nat, (liveSlots m gid)[j]? = some p → ((source p).or base[j]?).isSome

theorem find?_missing_eq_none {m : Manifest} {source : PageMap} {gid : Nat} {base : List Bytes} :
    ((liveSlots m gid).zip (mergeSlots source base (liveSlots m gid))).find?
      (fun s => s.2.isNone) = none ↔ Merges m source gid base := by
  rw [List.find?_eq_none]
  constructor
  · intro h j p hp
    have hmem : (p, (source p).or base[j]?) ∈
        (liveSlots m gid).zip (mergeSlots source base (liveSlots m gid)) := by
      refine List.mem_iff_getElem?.mpr ⟨j, ?_⟩
      rw [List.getElem?_zip_eq_some]
      exact ⟨hp, getElem?_mergeSlots hp⟩
    have hsome := h _ hmem
    rw [Bool.not_eq_true, Option.isNone_eq_false_iff] at hsome
    exact hsome
  · intro h s hs
    obtain ⟨j, hj⟩ := List.mem_iff_getElem?.mp hs
    rw [List.getElem?_zip_eq_some] at hj
    have hslot := hj.2
    rw [getElem?_mergeSlots hj.1] at hslot
    have hsome := h j s.1 hj.1
    rw [Option.some.inj hslot] at hsome
    rw [Bool.not_eq_true, Option.isNone_eq_false_iff]
    exact hsome

section Rewrite

variable {cfg : CodecConfig} {m : Manifest} {source : PageMap} {gid : Nat} {base : List Bytes}

/-- The slots of a rewrite, padded, are the merged pages once every visited page has a source. -/
theorem pad_slots {base' : List Bytes} (hsrc : ∀ p d, source p = some d → d.length = m.pageSize)
    (hbu : Uniform m.pageSize base) (hsub : ∀ (j : Nat) d, base'[j]? = some d → base[j]? = some d)
    (hall : ∀ j p : Nat, (liveSlots m gid)[j]? = some p → ((source p).or base'[j]?).isSome) :
    (mergeSlots source base' (liveSlots m gid) ++ List.replicate
      ((m.groupPageNums gid).length - (liveSlots m gid).length) none).map
        (CodecConfig.padPage m.pageSize) = mergedPages m source base gid := by
  have hle := length_liveSlots_le m gid
  refine List.ext_getElem? fun j => ?_
  rw [List.getElem?_map]
  rcases Nat.lt_or_ge j (liveSlots m gid).length with hj | hj
  · obtain ⟨p, hp⟩ : ∃ p, (liveSlots m gid)[j]? = some p := ⟨_, List.getElem?_eq_getElem hj⟩
    rw [List.getElem?_append_left (by rw [length_mergeSlots]; exact hj), getElem?_mergeSlots hp,
      getElem?_mergedPages ((getElem?_liveSlots hj).symm.trans hp), mergedPage, if_pos hj,
      Option.map_some]
    obtain ⟨d, hd⟩ := Option.isSome_iff_exists.mp (hall j p hp)
    -- a visited page is whole, from either source
    have hwhole : ((source p).or base[j]?) = some d ∧ d.length = m.pageSize := by
      cases hs : source p with
      | some x =>
        rw [hs, Option.some_or] at hd
        cases hd
        exact ⟨Option.some_or, hsrc p _ hs⟩
      | none =>
        rw [hs, Option.none_or] at hd
        have hb := hsub j d hd
        exact ⟨by rw [Option.none_or, hb], hbu d (List.mem_of_getElem? hb)⟩
    rw [hd, hwhole.1, CodecConfig.padPage_full hwhole.2]
    rfl
  · rw [List.getElem?_append_right (by rw [length_mergeSlots]; exact hj), length_mergeSlots,
      List.getElem?_replicate]
    rcases Nat.lt_or_ge j (m.groupPageNums gid).length with hjg | hjg
    · rw [if_pos (by omega), getElem?_mergedPages (List.getElem?_eq_getElem hjg), mergedPage,
        if_neg (by omega)]
      rfl
    · rw [if_neg (by omega), List.getElem?_eq_none (by rw [length_mergedPages]; exact hjg)]
      rfl

/-- The object of a rewritten group, in the manifest's format, holds `pages`. -/
structure RewriteHolds (cfg : CodecConfig) (m : Manifest) (r : Rewrite) (pages : List Bytes) :
    Prop where
  seekable : 0 < m.subPagesPerFrame → ∃ ft, r.frameTable = some ft ∧
    cfg.HoldsSeekable (aadPageGroup r.gid) r.encoded ft m.pageSize m.subPagesPerFrame pages
  legacy : m.subPagesPerFrame = 0 → r.frameTable = none ∧
    (8 + pages.length * m.pageSize ≤ maxTieredDecompressedBytes →
      cfg.HoldsLegacy (aadPageGroup r.gid) r.encoded m.pageSize pages)
  empty : 0 < m.subPagesPerFrame → pages = [] → r.encoded = []

theorem encodeRewrite_gid (cfg : CodecConfig) (m : Manifest) (gid : Nat)
    (slots : List (Option Bytes)) : (encodeRewrite cfg m gid slots).gid = gid := by
  unfold encodeRewrite
  split <;> rfl

theorem gid_of_rewriteGroup {fetch : IoResult (List Bytes)} {missing : Nat → IoError} {r : Rewrite}
    (h : rewriteGroup cfg m source gid fetch missing = .ok r) : r.gid = gid := by
  obtain ⟨base, -, h⟩ := bind_eq_ok.mp h
  dsimp only at h
  split at h
  · cases h
  · cases h
    exact encodeRewrite_gid ..

theorem encodeRewrite_holds (hc : cfg.codecs.Lawful) (hps : 0 < m.pageSize)
    (hlt : m.pageSize < 2 ^ 32) {slots : List (Option Bytes)}
    (hs : ∀ d, some d ∈ slots → d.length ≤ m.pageSize) :
    RewriteHolds cfg m (encodeRewrite cfg m gid slots)
      (slots.map (CodecConfig.padPage m.pageSize)) where
  seekable hspf := by
    rw [encodeRewrite, if_pos hspf]
    exact ⟨_, rfl, CodecConfig.encodePageGroupSeekable_holds hc _ hs⟩
  legacy hspf := by
    rw [encodeRewrite, if_neg (by omega)]
    refine ⟨rfl, fun hsize => ?_⟩
    -- an object below the ceiling has a page count that fits its header
    rw [List.length_map] at hsize
    have hmul : slots.length ≤ slots.length * m.pageSize := Nat.le_mul_of_pos_right _ hps
    have hmax : maxTieredDecompressedBytes = 2 ^ 30 := rfl
    exact CodecConfig.encodePageGroup_holds hc _ hs (by omega) hlt
  empty hspf hnil := by
    rw [List.map_eq_nil_iff] at hnil
    simp [encodeRewrite, hspf, hnil, CodecConfig.encodePageGroupSeekable]

/-- A rewrite that succeeds found every visited page, and its object holds the merged pages. -/
theorem rewriteGroup_inv {fetch : IoResult (List Bytes)} {missing : Nat → IoError} {r : Rewrite}
    (hsrc : ∀ p d, source p = some d → d.length = m.pageSize) (hbu : Uniform m.pageSize base)
    (hbase : ∀ pages : List Bytes, fetch = .ok pages →
      ∀ (j : Nat) d, pages[j]? = some d → base[j]? = some d)
    (h : rewriteGroup cfg m source gid fetch missing = .ok r) :
    (∀ j p : Nat, (liveSlots m gid)[j]? = some p → ((source p).or base[j]?).isSome) ∧
    ∃ slots : List (Option Bytes), r = encodeRewrite cfg m gid slots ∧
      slots.map (CodecConfig.padPage m.pageSize) = mergedPages m source base gid ∧
      ∀ d, some d ∈ slots → d.length ≤ m.pageSize := by
  obtain ⟨base', hb', h⟩ := bind_eq_ok.mp h
  have hsub : ∀ (j : Nat) d, base'[j]? = some d → base[j]? = some d := by
    unfold fetchIfNeeded at hb'
    split at hb'
    · cases hb'
      intro j d hd
      cases hd
    · exact hbase base' hb'
  dsimp only at h
  split at h
  · cases h
  · rename_i hfind
    cases h
    have hall := find?_missing_eq_none.mp hfind
    refine ⟨fun j p hp => ?_, _, rfl, pad_slots hsrc hbu hsub hall, fun d hd => ?_⟩
    · have hj := hall j p hp
      cases hs : source p with
      | some x => rfl
      | none =>
        rw [hs, Option.none_or] at hj
        obtain ⟨d, hd⟩ := Option.isSome_iff_exists.mp hj
        rw [Option.none_or, hsub j d hd]
        rfl
    · rcases List.mem_append.mp hd with hd | hd
      · obtain ⟨⟨p, j⟩, -, he⟩ := List.mem_map.mp hd
        cases hs : source p with
        | some x =>
          simp only [hs, Option.some_or, Option.some.injEq] at he
          exact Nat.le_of_eq (hsrc p d (he ▸ hs))
        | none =>
          simp only [hs, Option.none_or] at he
          exact Nat.le_of_eq (hbu d (List.mem_of_getElem? (hsub j d he)))
      · cases (List.mem_replicate.mp hd).2

/-- A base object that decodes gives its pages, whatever the dictionary. -/
theorem ReadPaths.HoldsGroup.decodeBasePages_eq {b : Backend} {ct : GroupContent} (hc : cfg.codecs.Lawful)
    (h : HoldsGroup cfg m b gid ct) (hps : 0 < m.pageSize) {dict : Option Bytes}
    (hdict : dict = none ∨ dict = cfg.dictionary) {data : Bytes} {pages : List Bytes}
    (hdata : (m.groupKey gid).bind b.getPageGroup = some data)
    (hd : decodeBasePages cfg dict m gid data = .ok pages) :
    pages = decodedPages m gid ct.base := by
  obtain ⟨key, obj, hk, hobj, hs, hl⟩ := h.base
  have hobj' : data = obj := by
    rw [hk, Option.bind_some, Backend.getPageGroup, hobj] at hdata
    exact (Option.some.inj hdata).symm
  subst hobj'
  unfold decodeBasePages at hd
  unfold decodedPages
  cases hf : m.hasFrames gid with
  | true =>
    obtain ⟨hspf, -⟩ := hasFrames_iff.mp hf
    rw [hf, if_pos rfl] at hd
    obtain ⟨out, hout, hpages⟩ := bind_eq_ok.mp hd
    obtain rfl := (hs hf).decode_inv hc hspf hps (h.length_lt hps) hdict hout
    cases hpages
    -- the decoded bytes are whole pages, cut apart again
    have hu := (hs hf).uniform.take (min (m.groupPageNums gid).length m.pageCount)
    rw [length_flatten_of_uniform hu, Nat.mul_div_cancel _ hps, map_block_flatten hu, if_pos rfl]
  | false =>
    simp only [hf, Bool.false_eq_true, if_false] at hd ⊢
    obtain ⟨out, hout, hpages⟩ := bind_eq_ok.mp hd
    cases hpages
    exact (hl hf).decode_inv hc hdict hout

/-- An empty object has no pages to decode. -/
theorem ReadPaths.HoldsNothing.decodeBasePages {b : Backend} {ct : GroupContent} (hc : cfg.codecs.Lawful)
    (h : HoldsNothing m b gid ct) {dict : Option Bytes} {data : Bytes} {pages : List Bytes}
    (hdata : (m.groupKey gid).bind b.getPageGroup = some data) :
    decodeBasePages cfg dict m gid data ≠ .ok pages := by
  intro hd
  obtain ⟨key, hk, hobj⟩ := h.object
  rw [hk, Option.bind_some, Backend.getPageGroup, hobj] at hdata
  cases hdata
  have hf : m.hasFrames gid = false := by simp [Manifest.hasFrames, h.frameTable]
  simp only [Turbolite.decodeBasePages, hf, Bool.false_eq_true, if_false] at hd
  obtain ⟨out, hout, -⟩ := bind_eq_ok.mp hd
  obtain ⟨bulk, hbulk, -⟩ := bind_eq_ok.mp hout
  exact CodecConfig.decodeBulk_nil hc _ _ _ hbulk

theorem ReadPaths.StoredObjects.decodeBasePages_inv {b : Backend} {ct : Nat → GroupContent}
    (hc : cfg.codecs.Lawful) (h : StoredObjects cfg m b ct) {dict : Option Bytes}
    (hdict : dict = none ∨ dict = cfg.dictionary) {data : Bytes} {pages : List Bytes}
    (hdata : (m.groupKey gid).bind b.getPageGroup = some data)
    (hd : decodeBasePages cfg dict m gid data = .ok pages) :
    ∀ (j : Nat) d, pages[j]? = some d → (ct gid).base[j]? = some d := by
  have hkey : (m.groupKey gid).isSome := by
    cases hk : m.groupKey gid with
    | none => rw [hk] at hdata; cases hdata
    | some key => rfl
  rcases h.holds gid hkey with hg | hg
  · rw [hg.decodeBasePages_eq hc h.pageSize_pos hdict hdata hd]
    exact fun _ _ hj => getElem?_decodedPages hj
  · exact absurd hd (hg.decodeBasePages hc hdata)

theorem ReadPaths.StoredObjects.uniform_base {b : Backend} {ct : Nat → GroupContent}
    (h : StoredObjects cfg m b ct) (hkey : (m.groupKey gid).isSome) :
    Uniform m.pageSize (ct gid).base := by
  rcases h.holds gid hkey with hg | hg
  · exact hg.uniform
  · rw [hg.base]
    exact fun xs hxs => absurd hxs List.not_mem_nil

/-- The pages of the object a manifest names for a group; none without a key. -/
def storedBase (m : Manifest) (ct : Nat → GroupContent) (gid : Nat) : List Bytes :=
  if (m.groupKey gid).isSome then (ct gid).base else []

theorem uniform_storedBase {b : Backend} {ct : Nat → GroupContent} (h : StoredObjects cfg m b ct)
    (gid : Nat) : Uniform m.pageSize (storedBase m ct gid) := by
  unfold storedBase
  split
  · rename_i hk
    exact h.uniform_base hk
  · exact fun xs hxs => absurd hxs List.not_mem_nil

/-- A group that was rewritten: every visited page had a source, and the object holds the merge. -/
theorem rewriteGroup_holds {b : Backend} {ct : Nat → GroupContent} (hc : cfg.codecs.Lawful)
    (h : StoredObjects cfg m b ct) (hsrc : ∀ p d, source p = some d → d.length = m.pageSize)
    {fetch : IoResult (List Bytes)} {missing : Nat → IoError} {r : Rewrite}
    (hbase : ∀ pages : List Bytes, fetch = .ok pages →
      ∀ (j : Nat) d, pages[j]? = some d → (storedBase m ct gid)[j]? = some d)
    (hr : rewriteGroup cfg m source gid fetch missing = .ok r) :
    (∀ j p : Nat, (liveSlots m gid)[j]? = some p →
      ((source p).or (storedBase m ct gid)[j]?).isSome) ∧
    RewriteHolds cfg m r (mergedPages m source (storedBase m ct gid) gid) := by
  obtain ⟨hall, slots, hslots, hpad, hlen⟩ :=
    rewriteGroup_inv hsrc (uniform_storedBase h gid) hbase hr
  refine ⟨hall, ?_⟩
  have hholds : RewriteHolds cfg m (encodeRewrite cfg m gid slots)
      (slots.map (CodecConfig.padPage m.pageSize)) :=
    encodeRewrite_holds hc h.pageSize_pos h.pageSize_lt hlen
  rw [← hslots, hpad] at hholds
  exact hholds

end Rewrite

end Turbolite
