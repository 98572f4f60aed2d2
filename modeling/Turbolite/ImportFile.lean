import Turbolite.BTreeWalker
import Turbolite.StoredState

/-!
# Turbolite.ImportFile

`import_sqlite_file` from the bytes of the file on: the header, the two divisions, the B-tree walk,
and then the packing and encoding of `Import`. The importer compresses without a dictionary, whatever
the configuration of the handle that reads.

`import_faithful_iff` says when an accepted file is imported page by page.
-/

namespace Turbolite

open Blocks Results ReadPaths Turbolite.Partition BTreeWalker

namespace ReadPaths

/-! ### A group object without overrides -/

/-- The object of a group holds the pages the group lists, and nothing replaces a part of it. -/
structure GroupObject (cfg : CodecConfig) (m : Manifest) (b : Backend) (gid : Nat)
    (pages : List Bytes) : Prop where
  object : ∃ key data, m.groupKey gid = some key ∧ b.objects key = some data ∧
    (0 < m.subPagesPerFrame → cfg.HoldsSeekable (aadPageGroup gid) data (m.frameTable gid)
      m.pageSize m.subPagesPerFrame pages) ∧
    (m.subPagesPerFrame = 0 → m.frameTable gid = [] ∧ cfg.Opens (aadPageGroup gid) data
      (leBytes 4 pages.length ++ leBytes 4 m.pageSize ++ pages.flatten))
  uniform : Uniform m.pageSize pages
  listed : (m.groupPageNums gid).length = pages.length
  noOverrides : ∀ f, (m.overrides gid).lookup f = none

/-- What a cold read of slot `j` of a group of `n` pages decompresses is below the cap. -/
def SlotFits (spf ps n j : Nat) : Prop :=
  (if 0 < spf then min spf (n - j / spf * spf) * ps else 8 + n * ps) ≤ maxTieredDecompressedBytes

section

variable {cfg : CodecConfig} {m : Manifest} {b : Backend} {gid : Nat} {pages : List Bytes}

theorem GroupObject.rangeRead (h : GroupObject cfg m b gid pages) (hps : 0 < m.pageSize)
    (hspf : 0 < m.subPagesPerFrame) {j : Nat} (hj : j < pages.length) (v : Option Bytes) :
    rangeRead cfg m b gid j = .ok v ↔
      SlotFits m.subPagesPerFrame m.pageSize pages.length j ∧ pages[j]? = v := by
  obtain ⟨key, obj, hk, hobj, hs, -⟩ := h.object
  have hseek := hs hspf
  have hbase : j / m.subPagesPerFrame * m.subPagesPerFrame ≤ j := Nat.div_mul_le_self _ _
  have hframe : j / m.subPagesPerFrame < (m.frameTable gid).length := by
    rw [hseek.length, lt_divCeil_iff hspf]
    omega
  have hentry := List.getElem?_eq_getElem hframe
  obtain ⟨hle, hop⟩ := hseek.frame _ _ hentry
  have hkey := Manifest.getElem?_pageGroupKeys hk
  have hrange := Backend.rangeGet_eq hobj hle
  have hlen := hseek.length_frame (j / m.subPagesPerFrame)
  have hstart : ¬ (m.groupPageNums gid).length < j / m.subPagesPerFrame * m.subPagesPerFrame := by
    rw [h.listed]
    omega
  have hub := hseek.uniform.block m.subPagesPerFrame (j / m.subPagesPerFrame)
  have hpage : framePage m (j % m.subPagesPerFrame)
      (block m.subPagesPerFrame (j / m.subPagesPerFrame) pages).flatten = pages[j] := by
    rw [framePage_flatten hps hub, getElem?_block_div hspf, List.getElem?_eq_getElem hj]
    rfl
  unfold ReadPaths.rangeRead fetchFrame SlotFits
  simp only [hentry, h.noOverrides, hkey, hrange, ok_bind, Option.map_some, if_pos hspf]
  constructor
  · intro hr
    obtain ⟨raw, hraw, hr⟩ := bind_eq_ok.mp hr
    obtain ⟨rfl, hcap⟩ := hop.openFrame_inv hraw
    rw [if_neg hstart, hpage] at hr
    cases hr
    exact ⟨hlen ▸ hcap, List.getElem?_eq_getElem hj⟩
  · intro ⟨hfits, hv⟩
    have hopen : cfg.decodeSeekableSubchunk (aadPageGroup gid) _ = .ok _ :=
      hop.openFrame (by rw [hlen]; exact hfits)
    rw [hopen]
    simp only [ok_bind, if_neg hstart, hpage, ← hv, List.getElem?_eq_getElem hj]

theorem GroupObject.coldRead_seekable (h : GroupObject cfg m b gid pages) (hps : 0 < m.pageSize)
    (hspf : 0 < m.subPagesPerFrame) {p j : Nat} (hpc : p < m.pageCount)
    (hloc : m.pageLocation p = some ⟨gid, j⟩) (hj : j < pages.length) (v : Bytes) :
    coldRead cfg m b p = .ok v ↔
      SlotFits m.subPagesPerFrame m.pageSize pages.length j ∧ pages[j]? = some v := by
  obtain ⟨key, obj, -, -, hs, -⟩ := h.object
  have hne : m.frameTable gid ≠ [] := by
    intro hnil
    have hlen := (hs hspf).length
    rw [hnil, List.length_nil] at hlen
    have := (lt_divCeil_iff (n := pages.length) (i := 0) hspf).mpr (by omega)
    omega
  have hf : m.hasFrames gid = true := hasFrames_iff.mpr ⟨hspf, hne⟩
  rw [← h.rangeRead hps hspf hj]
  simp only [coldRead, Nat.not_le.mpr hpc, if_false, hloc, hf, if_true]
  constructor
  · intro hr
    obtain ⟨o, ho, hr⟩ := bind_eq_ok.mp hr
    obtain ⟨-, hpage⟩ := (h.rangeRead hps hspf hj o).mp ho
    rw [← hpage, List.getElem?_eq_getElem hj] at hr
    cases hr
    rw [ho, ← hpage, List.getElem?_eq_getElem hj]
  · intro hr
    rw [hr]
    rfl

theorem GroupObject.coldRead_legacy (h : GroupObject cfg m b gid pages) (hps : 0 < m.pageSize)
    (hps' : m.pageSize < 2 ^ 32) (h0 : m.subPagesPerFrame = 0) (hnd : (m.groupPageNums gid).Nodup)
    {p j : Nat} (hpc : p < m.pageCount) (hloc : m.pageLocation p = some ⟨gid, j⟩)
    (hp : (m.groupPageNums gid)[j]? = some p) (v : Bytes) :
    coldRead cfg m b p = .ok v ↔
      SlotFits m.subPagesPerFrame m.pageSize pages.length j ∧ pages[j]? = some v := by
  obtain ⟨key, obj, hk, hobj, -, hl⟩ := h.object
  obtain ⟨-, hopens⟩ := hl h0
  have hf : m.hasFrames gid = false := by simp [Manifest.hasFrames, h0]
  have hslot : SlotFits m.subPagesPerFrame m.pageSize pages.length j ↔
      8 + pages.length * m.pageSize ≤ maxTieredDecompressedBytes := by simp [SlotFits, h0]
  rw [hslot]
  by_cases hfits : 8 + pages.length * m.pageSize ≤ maxTieredDecompressedBytes
  · have hlt : pages.length < 2 ^ 32 := by
      have := Nat.le_mul_of_pos_right pages.length hps
      have hmax : maxTieredDecompressedBytes < 2 ^ 32 := by decide
      omega
    have hg : HoldsGroup cfg m b gid ⟨pages, fun _ => none⟩ :=
      { base := ⟨key, obj, hk, hobj, by simp [hf], fun _ => ⟨h.uniform, hlt, hps', hopens⟩⟩
        size := hfits
        overFrames := fun f => by rw [h.noOverrides f]; rfl }
    rw [hg.coldRead_slot hps hnd hpc hloc hp, slotBytes, hf]
    simp [hfits, h.listed]
  · simp only [hfits, false_and, iff_false]
    intro hr
    simp only [coldRead, Nat.not_le.mpr hpc, if_false, hloc, hf, Bool.false_eq_true] at hr
    obtain ⟨ws, hws, -⟩ := bind_eq_ok.mp hr
    simp only [fullGroupInstall, hk, Option.bind_some, Backend.getPageGroup, hobj] at hws
    obtain ⟨out, hout, -⟩ := bind_eq_ok.mp hws
    simp only [decodeBase, hf, Bool.false_eq_true, if_false] at hout
    obtain ⟨raw, hraw, -⟩ := bind_eq_ok.mp hout
    have hcap := (hopens.openFrame_inv hraw).2
    rw [List.length_append, List.length_append, length_leBytes, length_leBytes,
      length_flatten_of_uniform h.uniform] at hcap
    omega

/-- A cold read of a slot succeeds below the cap, with the page of the slot. -/
theorem GroupObject.coldRead_slot (h : GroupObject cfg m b gid pages) (hps : 0 < m.pageSize)
    (hps' : m.pageSize < 2 ^ 32) (hnd : (m.groupPageNums gid).Nodup) {p j : Nat}
    (hpc : p < m.pageCount) (hloc : m.pageLocation p = some ⟨gid, j⟩)
    (hp : (m.groupPageNums gid)[j]? = some p) (v : Bytes) :
    coldRead cfg m b p = .ok v ↔
      SlotFits m.subPagesPerFrame m.pageSize pages.length j ∧ pages[j]? = some v := by
  have hj : j < pages.length := h.listed ▸ (List.getElem?_eq_some_iff.mp hp).1
  rcases Nat.eq_zero_or_pos m.subPagesPerFrame with h0 | hspf
  · exact h.coldRead_legacy hps hps' h0 hnd hpc hloc hp v
  · exact h.coldRead_seekable hps hspf hpc hloc hj v

end

end ReadPaths

/-! ### The importer -/

/-- The file and the configuration. -/
structure FileImport where
  cfg : CodecConfig
  backend : Backend
  pagesPerGroup : Nat
  subPagesPerFrame : Nat
  fromUtf8Lossy : Bytes → String
  file : Bytes
  -- the length of a file is a `u64`
  length_lt : file.length < 2 ^ 64

namespace FileImport

variable (i : FileImport)

/-- The page size in the header; 1 stands for 65536. -/
def pageSize : Nat := if beU16At i.file 16 = 1 then 65536 else beU16At i.file 16

/-- `page_count` and `total_groups`. Rust panics when it divides by zero. -/
def sizes : IoResult (Nat × Nat) :=
  if i.pageSize = 0 then .error .panic
  else if i.pagesPerGroup = 0 then .error .panic
  else .ok (i.file.length / i.pageSize, divCeil (i.file.length / i.pageSize) i.pagesPerGroup)

/-- The number of whole pages. -/
def pageCount : Nat := i.file.length / i.pageSize

/-- The change counter in the header becomes the version. -/
def fileChangeCounter : Nat := readFileChangeCounter (i.file.take 100)

/-- The trees of the file, or a panic. -/
def walk : IoResult Walk := walkAllBtrees i.file i.pageSize i.fromUtf8Lossy i.pageCount

/-- What is packed, encoded and uploaded. -/
def input (w : Walk) : ImportInput where
  cfg := { i.cfg with dictionary := none }
  backend := i.backend
  pageSize := i.pageSize
  pageCount := i.pageCount
  fileChangeCounter := i.fileChangeCounter
  pagesPerGroup := i.pagesPerGroup
  subPagesPerFrame := i.subPagesPerFrame
  file := readPage i.file i.pageSize
  walkAllBtrees := fun _ _ _ => w

/-- `import_sqlite_file`. -/
def importSqliteFile : IoResult (Manifest × Backend) :=
  if i.file.length < 100 then .error (.io .unexpectedEof "failed to fill whole buffer")
  else do
    let _ ← i.sizes
    if i.fileChangeCounter = 0 then .error .panic
    else do
      let w ← i.walk
      -- the type byte of page 0 is behind the 100 bytes of the header
      if i.pageSize ≤ 100 then .error .panic
      else (i.input w).importSqliteFile

/-! ### What an import should do -/

/-- The groups are the pages of the file, each once, and every page is read as the file has it. -/
structure Faithful (m : Manifest) (b : Backend) : Prop where
  pageCount : m.pageCount = i.pageCount
  partition : m.groupPages.flatten.Perm (List.range i.pageCount)
  reads : ∀ p < i.pageCount, coldRead i.cfg m b p = .ok (block i.pageSize p i.file)

/-- No tree of the file shares a page with another, and none starts past the end. -/
def TreesApart : Prop :=
  ∀ entries, parseSqliteMaster i.file i.pageSize i.fromUtf8Lossy = .ok entries →
    Apart i.file i.pageSize i.pageCount (rootsOf entries)

/-- No group has a frame too large for the decoders. -/
def GroupsFit : Prop :=
  ∀ w, i.walk = .ok w → ∀ g ∈ w.groups i.pagesPerGroup,
    SlotFits i.subPagesPerFrame i.pageSize g.length 0

variable {i}

/-- Both divisions are defined unless one of the divisors is zero. -/
theorem sizes_ok_iff : (∃ s, i.sizes = .ok s) ↔ i.pageSize ≠ 0 ∧ i.pagesPerGroup ≠ 0 := by
  unfold sizes
  split
  · rename_i h0
    simp [h0]
  · rename_i h0
    split
    · rename_i h1
      simp [h1]
    · rename_i h1
      simp [h0, h1]

/-- Groups of the configured size fit when a full one does. -/
theorem groupsFit_of_pagesPerGroup
    (h : 8 + i.pagesPerGroup * i.pageSize ≤ maxTieredDecompressedBytes) : i.GroupsFit := by
  intro w _ g hg
  have hle : g.length * i.pageSize ≤ i.pagesPerGroup * i.pageSize :=
    Nat.mul_le_mul_right _ (bounded_walkGroups w i.pagesPerGroup g hg)
  unfold SlotFits
  split
  · refine le_trans (Nat.mul_le_mul_right _ (Nat.min_le_right ..)) ?_
    rw [Nat.zero_div, Nat.zero_mul, Nat.sub_zero]
    omega
  · omega

/-! ### An accepted file -/

theorem pageSize_le (i : FileImport) : i.pageSize ≤ 65536 := by
  have hlt : beU16At i.file 16 < 65536 := lt_of_lt_of_eq (ofBeBytes_take_lt _ 2) (by decide)
  unfold pageSize
  split
  · exact Nat.le_refl _
  · exact Nat.le_of_lt hlt

/-- An import that succeeded. -/
structure Imported (i : FileImport) (w : Walk) (groups : List (List (Nat × Bytes))) (m : Manifest)
    (b : Backend) : Prop where
  large : 100 < i.pageSize
  ppg : 0 < i.pagesPerGroup
  walked : i.walk = .ok w
  read : (i.input w).groupPagesList.mapM (i.input w).readGroup = .ok groups
  manifest : m = (i.input w).manifest groups
  objects : ∀ k, b.objects k = (i.backend.putPageGroups ((i.input w).uploads groups)).objects k

theorem importSqliteFile_inv {m : Manifest} {b : Backend} (h : i.importSqliteFile = .ok (m, b)) :
    ∃ w groups, Imported i w groups m b := by
  unfold importSqliteFile at h
  split at h
  · cases h
  · obtain ⟨n, hsizes, h⟩ := bind_eq_ok.mp h
    split at h
    · cases h
    · obtain ⟨w, hw, h⟩ := bind_eq_ok.mp h
      split at h
      · cases h
      · rename_i hlarge
        unfold ImportInput.importSqliteFile at h
        split at h
        · cases h
        · rename_i hnz
          obtain ⟨groups, hgroups, h⟩ := bind_eq_ok.mp h
          obtain ⟨stored, hput, h⟩ := bind_eq_ok.mp h
          cases h
          refine ⟨w, groups, Nat.lt_of_not_le hlarge, ?_, hw, hgroups, rfl, ?_⟩
          · apply Nat.pos_of_ne_zero
            intro h0
            exact hnz (.inr (.inl h0))
          · intro k
            rw [(Backend.putManifest_inv hput).1]
            rfl

/-! ### The groups -/

section

variable {w : Walk} {groups : List (List (Nat × Bytes))} {m : Manifest} {b : Backend}

theorem swapToFront_perm (gs : List (List Nat)) : (ImportInput.swapToFront gs).Perm gs := by
  unfold ImportInput.swapToFront
  split
  · rename_i k hk
    obtain ⟨hlt, -, -⟩ := List.findIdx?_eq_some_iff_getElem.mp hk
    have h0 : 0 < gs.length := Nat.lt_of_le_of_lt (Nat.zero_le k) hlt
    rw [List.getD_eq_getElem?_getD, List.getD_eq_getElem?_getD, List.getElem?_eq_getElem hlt,
      List.getElem?_eq_getElem h0]
    exact List.set_set_perm h0 hlt
  · exact List.Perm.refl _

theorem Imported.groupPages (h : Imported i w groups m b) :
    m.groupPages = (i.input w).groupPagesList := by
  rw [h.manifest, ImportInput.manifest, Manifest.buildPageIndex_eq_of_bTreeAware rfl]

theorem Imported.pageSize (h : Imported i w groups m b) : m.pageSize = i.pageSize := by
  rw [h.manifest, ImportInput.manifest, Manifest.buildPageIndex_eq_of_bTreeAware rfl]
  rfl

theorem Imported.subPagesPerFrame (h : Imported i w groups m b) :
    m.subPagesPerFrame = i.subPagesPerFrame := by
  rw [h.manifest, ImportInput.manifest, Manifest.buildPageIndex_eq_of_bTreeAware rfl]
  rfl

/-- The groups are the walked pages. -/
theorem Imported.flatten_perm (h : Imported i w groups m b) :
    m.groupPages.flatten.Perm (w.btrees.flatMap (·.2.pages) ++ w.unowned) := by
  rw [h.groupPages]
  exact (swapToFront_perm _).flatten.trans (flatten_walkGroups w h.ppg)

theorem Imported.pageCount (h : Imported i w groups m b) : m.pageCount = i.pageCount := by
  rw [h.manifest, ImportInput.manifest, Manifest.pageCount_buildPageIndex]
  rfl

theorem length_readPage {file : Bytes} {pageSize p : Nat} {data : Bytes}
    (h : readPage file pageSize p = some data) : data.length = pageSize := by
  unfold readPage at h
  dsimp only at h
  split at h
  · cases h
    rw [List.length_take, List.length_drop]
    omega
  · cases h

/-- Every group was read from the file. -/
theorem Imported.read_group (h : Imported i w groups m b) {gid : Nat} {g : List (Nat × Bytes)}
    (hg : groups[gid]? = some g) : m.groupPages[gid]? = some (g.map (·.1)) ∧
      ∀ d ∈ g, readPage i.file i.pageSize d.1 = some d.2 := by
  have hlt : gid < (i.input w).groupPagesList.length := by
    rw [← length_of_mapM h.read]
    exact (List.getElem?_eq_some_iff.mp hg).1
  obtain ⟨g', hg', hread⟩ := mapM_getElem? h.read (List.getElem?_eq_getElem hlt)
  rw [hg] at hg'
  cases hg'
  have hkey : g.map (·.1) = (i.input w).groupPagesList[gid] := by
    refine mapM_map_key (fun p d hd => ?_) hread
    split at hd
    · cases hd
      rfl
    · cases hd
  refine ⟨by rw [h.groupPages, hkey]; exact List.getElem?_eq_getElem hlt, fun d hd => ?_⟩
  obtain ⟨p, -, hp⟩ := mapM_inv hread d hd
  split at hp
  · rename_i data hdata
    cases hp
    exact hdata
  · cases hp

/-- What the manifest says about group `gid`. -/
theorem Imported.manifest_group (h : Imported i w groups m b) {gid : Nat} {g : List (Nat × Bytes)}
    (hg : groups[gid]? = some g) :
    m.groupKey gid = some (.pageGroup gid i.fileChangeCounter) ∧
      m.frameTable gid = ((i.input w).encodeGroup gid g).2 ∧
      m.groupPageNums gid = m.groupPages.getD gid [] ∧ ∀ f, (m.overrides gid).lookup f = none := by
  have hlt := (List.getElem?_eq_some_iff.mp hg).1
  rw [h.manifest, ImportInput.manifest, Manifest.buildPageIndex_eq_of_bTreeAware rfl]
  refine ⟨?_, ?_, rfl, fun f => rfl⟩
  · simp [Manifest.groupKey, List.getD_eq_getElem?_getD, hlt, input]
  · simp [Manifest.frameTable, List.getD_eq_getElem?_getD, List.getElem?_zipIdx, hg]

/-- Its object is in the backend. -/
theorem Imported.object (h : Imported i w groups m b) {gid : Nat} {g : List (Nat × Bytes)}
    (hg : groups[gid]? = some g) : b.objects (.pageGroup gid i.fileChangeCounter) =
      some ((i.input w).encodeGroup gid g).1 := by
  rw [h.objects]
  refine Backend.putPageGroups_of_mem ?_ fun d hd => ?_
  · refine List.mem_append_left _ (List.mem_append_left _ (List.mem_map.mpr ⟨(g, gid), ?_, rfl⟩))
    exact List.mem_zipIdx_iff_getElem?.mpr hg
  · unfold ImportInput.uploads at hd
    rw [List.append_assoc] at hd
    rcases List.mem_append.mp hd with hd | hd
    · obtain ⟨g', hg', he⟩ := List.mem_map.mp hd
      have hgid : g'.2 = gid := (ObjectKey.pageGroup.inj (congrArg Prod.fst he)).1
      have hsame := List.mem_zipIdx_iff_getElem?.mp hg'
      rw [hgid, hg] at hsame
      cases hsame
      rw [← hgid]
      exact (congrArg Prod.snd he).symm
    · rcases onlyBundles_publishBundles _ _ _ _ hd with ⟨c, v, hc⟩ | ⟨c, v, hc⟩ <;> cases hc

/-- The object of a group holds the pages of the group as they were read. -/
theorem Imported.groupObject (h : Imported i w groups m b) (hc : i.cfg.codecs.Lawful)
    (hd : i.cfg.ReadsPlain) {gid : Nat} {g : List (Nat × Bytes)} (hg : groups[gid]? = some g) :
    GroupObject i.cfg m b gid (g.map (·.2)) := by
  obtain ⟨hkey, hft, hgp, hover⟩ := h.manifest_group hg
  obtain ⟨hpages, hread⟩ := h.read_group hg
  have hps := h.pageSize
  have hspf := h.subPagesPerFrame
  have hlen : ∀ d ∈ g, d.2.length = i.pageSize := fun d hd => length_readPage (hread d hd)
  have huniform : Uniform i.pageSize (g.map (·.2)) := by
    intro x hx
    obtain ⟨d, hd, rfl⟩ := List.mem_map.mp hx
    exact hlen d hd
  have hle : ∀ data, some data ∈ g.map (fun p => some p.2) → data.length ≤ i.pageSize := by
    intro data hdata
    obtain ⟨d, hd, he⟩ := List.mem_map.mp hdata
    cases he
    exact Nat.le_of_eq (hlen d hd)
  have hpad : (g.map fun p => some p.2).map (CodecConfig.padPage i.pageSize) = g.map (·.2) := by
    rw [List.map_map]
    exact List.map_congr_left fun d hd => CodecConfig.padPage_full (hlen d hd)
  refine ⟨⟨_, _, hkey, h.object hg, fun h1 => ?_, fun h0 => ?_⟩, hps ▸ huniform, ?_, hover⟩
  · rw [hspf] at h1
    rw [hft, hps, hspf, ← hpad]
    unfold ImportInput.encodeGroup
    rw [if_pos (show 0 < (i.input w).subPagesPerFrame from h1)]
    have hcodecs : (i.input w).cfg.codecs.Lawful := hc
    exact hd.seekable (CodecConfig.encodePageGroupSeekable_holds hcodecs _ hle)
  · rw [hspf] at h0
    rw [hft, hps, ← hpad]
    unfold ImportInput.encodeGroup
    rw [if_neg (show ¬ 0 < (i.input w).subPagesPerFrame from h0 ▸ Nat.lt_irrefl 0)]
    have hcodecs : (i.input w).cfg.codecs.Lawful := hc
    refine ⟨rfl, hd.opens ?_⟩
    rw [List.length_map]
    exact (CodecConfig.opens_sealFrame hcodecs _ _ : (i.input w).cfg.Opens (aadPageGroup gid)
      ((i.input w).cfg.encodePageGroup (aadPageGroup gid) i.pageSize _) _)
  · rw [hgp, List.getD_eq_getElem?_getD, hpages]
    simp

theorem readPage_of_lt {p : Nat} (h : p < i.pageCount) :
    readPage i.file i.pageSize p = some (block i.pageSize p i.file) := by
  have hle : (p + 1) * i.pageSize ≤ i.file.length := by
    refine le_trans (Nat.mul_le_mul_right _ h) ?_
    exact Nat.div_mul_le_self _ _
  rw [Nat.add_one_mul] at hle
  have hlt := i.length_lt
  unfold readPage
  rw [Nat.mod_eq_of_lt (by omega)]
  simp only [hle, if_true, block]

theorem slotFits_of_zero {spf ps n : Nat} (h : SlotFits spf ps n 0) (j : Nat) :
    SlotFits spf ps n j := by
  unfold SlotFits at h ⊢
  split
  · rename_i hspf
    rw [if_pos hspf, Nat.zero_div, Nat.zero_mul, Nat.sub_zero] at h
    refine le_trans (Nat.mul_le_mul_right _ ?_) h
    omega
  · rename_i hspf
    rw [if_neg hspf] at h
    exact h

/-- Where the groups list no page twice, a cold read of a slot below the cap is the page of the file. -/
theorem Imported.coldRead (h : Imported i w groups m b) (hc : i.cfg.codecs.Lawful)
    (hd : i.cfg.ReadsPlain) (hnd : m.groupPages.flatten.Nodup) {gid j p : Nat}
    (hslot : (m.groupPages.getD gid [])[j]? = some p) (hp : p < i.pageCount) (v : Bytes) :
    coldRead i.cfg m b p = .ok v ↔
      SlotFits i.subPagesPerFrame i.pageSize (m.groupPages.getD gid []).length j ∧
        block i.pageSize p i.file = v := by
  have hloc : m.pageLocation p = some ⟨gid, j⟩ := by
    have hidx : m.pageLocation p = (Manifest.pageIndexOf m.groupPages).lookup p := by
      rw [h.manifest, ImportInput.manifest, Manifest.buildPageIndex_eq_of_bTreeAware rfl]
      rfl
    rw [hidx]
    exact (lookup_pageIndexOf hnd p ⟨gid, j⟩).mpr hslot
  have hgid : gid < groups.length := by
    rw [length_of_mapM h.read, ← h.groupPages]
    by_contra hge
    rw [List.getD_eq_getElem?_getD, List.getElem?_eq_none (Nat.le_of_not_lt hge)] at hslot
    cases hslot
  obtain ⟨g, hg⟩ : ∃ g, groups[gid]? = some g := ⟨_, List.getElem?_eq_getElem hgid⟩
  have hobj := h.groupObject hc hd hg
  obtain ⟨-, -, hnums, -⟩ := h.manifest_group hg
  obtain ⟨hpages, hread⟩ := h.read_group hg
  have hlist : m.groupPages.getD gid [] = g.map (·.1) := by
    rw [List.getD_eq_getElem?_getD, hpages]
    rfl
  have hps := h.pageSize
  have hspf := h.subPagesPerFrame
  have hlarge := h.large
  have hsmall := i.pageSize_le
  have hgnd : (m.groupPageNums gid).Nodup := by
    rw [hnums, hlist]
    exact (List.nodup_flatten.mp hnd).1 _ (List.mem_of_getElem? hpages)
  -- the slot holds what was read for its page
  have hpage : (g.map (·.2))[j]? = some (block i.pageSize p i.file) := by
    rw [hlist, List.getElem?_map] at hslot
    obtain ⟨d, hdj, hdp⟩ := Option.map_eq_some_iff.mp hslot
    have hdr := hread d (List.mem_of_getElem? hdj)
    rw [hdp, readPage_of_lt hp] at hdr
    rw [List.getElem?_map, hdj, Option.map_some, ← Option.some.inj hdr]
  rw [hobj.coldRead_slot (by omega) (by omega) hgnd (by rw [h.pageCount]; exact hp) hloc
    (by rw [hnums]; exact hslot), hps, hspf, hpage, hlist]
  simp

/-- Exactly when the pages of an accepted file are imported, each once and as it is in the file; and
when the importer divides by zero. -/
theorem import_faithful_iff (i : FileImport) (hc : i.cfg.codecs.Lawful) (hd : i.cfg.ReadsPlain) :
    ((∃ s, i.sizes = .ok s) ↔ i.pageSize ≠ 0 ∧ i.pagesPerGroup ≠ 0) ∧
      ∀ m b, i.importSqliteFile = .ok (m, b) →
        (i.Faithful m b ↔ i.TreesApart ∧ i.GroupsFit) := by
  refine ⟨sizes_ok_iff, fun m b himport => ?_⟩
  obtain ⟨w, groups, h⟩ := importSqliteFile_inv himport
  have hgroups : m.groupPages.Perm (w.groups i.pagesPerGroup) := by
    rw [h.groupPages]
    exact swapToFront_perm _
  obtain ⟨entries, owned, hentries, -, -⟩ := walkAllBtrees_spec h.walked
  have hlarge := h.large
  have hcovers : m.groupPages.flatten.Perm (List.range i.pageCount) ↔
      Apart i.file i.pageSize i.pageCount (rootsOf entries) := by
    have hiff := covers_iff (by omega) i.pageSize_le hentries h.walked
    exact ⟨fun hp => hiff.mp (h.flatten_perm.symm.trans hp),
      fun hp => h.flatten_perm.trans (hiff.mpr hp)⟩
  constructor
  · intro hf
    have hnd : m.groupPages.flatten.Nodup := hf.partition.nodup_iff.mpr List.nodup_range
    refine ⟨fun es hes => ?_, fun w' hw' g hg => ?_⟩
    · rw [hentries] at hes
      cases hes
      exact hcovers.mp hf.partition
    · rw [h.walked] at hw'
      cases hw'
      obtain ⟨gid, hgid⟩ := List.mem_iff_getElem?.mp (hgroups.mem_iff.mpr hg)
      cases hcase : g with
      | nil =>
        unfold SlotFits
        split <;> simp [maxTieredDecompressedBytes]
      | cons p ps =>
        have hget : m.groupPages.getD gid [] = p :: ps := by
          rw [List.getD_eq_getElem?_getD, hgid, ← hcase]
          rfl
        have hslot : (m.groupPages.getD gid [])[0]? = some p := by
          rw [hget]
          rfl
        have hp : p < i.pageCount := List.mem_range.mp (hf.partition.mem_iff.mp
          (mem_flatten_iff_slot.mpr ⟨⟨gid, 0⟩, hslot⟩))
        have hfit := ((h.coldRead hc hd hnd hslot hp _).mp (hf.reads p hp)).1
        rw [hget] at hfit
        exact hfit
  · intro ⟨hapart, hfit⟩
    have hperm := hcovers.mpr (hapart entries hentries)
    have hnd : m.groupPages.flatten.Nodup := hperm.nodup_iff.mpr List.nodup_range
    refine ⟨h.pageCount, hperm, fun p hp => ?_⟩
    obtain ⟨⟨gid, j⟩, hslot⟩ :=
      mem_flatten_iff_slot.mp (hperm.mem_iff.mpr (List.mem_range.mpr hp))
    refine (h.coldRead hc hd hnd hslot hp _).mpr ⟨?_, rfl⟩
    have hmem : m.groupPages.getD gid [] ∈ m.groupPages := by
      have hlt : gid < m.groupPages.length := by
        by_contra hge
        rw [List.getD_eq_getElem?_getD, List.getElem?_eq_none (Nat.le_of_not_lt hge)] at hslot
        cases hslot
      rw [List.getD_eq_getElem?_getD, List.getElem?_eq_getElem hlt]
      exact List.getElem_mem hlt
    exact slotFits_of_zero (hfit w h.walked _ (hgroups.mem_iff.mp hmem)) j

end

/-! ### Small files -/

namespace Example

/-- The bytes of `xs` from `off` on. -/
def put (off : Nat) (xs : Bytes) (page : Bytes) : Bytes := splice page off xs

/-- A first page of 512 bytes with change counter 1 and the rows of `sqlite_master` in its last
bytes. -/
def page0 (rows : Nat) (cell : Bytes) : Bytes :=
  put (512 - cell.length) cell <| put 108 [1, 240] <| put 100 [13, 0, 0, 0, UInt8.ofNat rows] <|
    put 24 [0, 0, 0, 1] <| put 16 [2, 0] <| List.replicate 512 0

/-- A table named "t" with root page 2. -/
def tableRow : Bytes := [14, 1, 6, 23, 15, 15, 1, 13, 116, 97, 98, 108, 101, 116, 116, 2]

/-- `from_utf8_lossy` of ASCII. -/
def ascii (bs : Bytes) : String := String.ofList (bs.map fun b => Char.ofNat b.toNat)

/-- An import into an empty backend. -/
def ofFile (file : Bytes) (h : file.length < 2 ^ 64) : FileImport where
  cfg := .plain
  backend := { objects := fun _ => none }
  pagesPerGroup := 8
  subPagesPerFrame := 2
  fromUtf8Lossy := ascii
  file := file
  length_lt := h

/-- A table of an interior page and a leaf, and a page that nobody owns. -/
def spread : FileImport :=
  { ofFile (page0 1 tableRow ++ put 0 [5, 0, 0, 0, 0, 0, 0, 0, 0, 0, 0, 3] (List.replicate 512 0) ++
      put 0 [13] (List.replicate 512 0) ++ List.replicate 512 7) (by decide +kernel) with
    pagesPerGroup := 2 }

/-- The table's root is an interior page whose right-most child is page 1, the root of
`sqlite_master`. -/
def crossLinked : FileImport :=
  ofFile (page0 1 tableRow ++ put 0 [5, 0, 0, 0, 0, 0, 0, 0, 0, 0, 0, 1] (List.replicate 512 0))
    (by decide +kernel)

/-- A header without a page size. -/
def noPageSize : FileImport := ofFile (List.replicate 512 0) (by decide +kernel)

theorem readsPlain : CodecConfig.plain.ReadsPlain := fun _ _ h => h

/-- The schema's page is a tree of its own, and the table has the next two. -/
theorem walk_spread {r : Nat} (hr : r ∈ [0, 1]) {ps : List Nat}
    (h : walkBtree spread.file spread.pageSize spread.pageCount r = .ok ps) :
    ps = if r = 0 then [0] else [1, 2] := by
  have h0 : (walkBtree spread.file spread.pageSize spread.pageCount 0).toOption = some [0] := by
    decide +kernel
  have h1 : (walkBtree spread.file spread.pageSize spread.pageCount 1).toOption = some [1, 2] := by
    decide +kernel
  simp only [List.mem_cons, List.not_mem_nil, or_false] at hr
  rcases hr with rfl | rfl
  · rw [h] at h0
    exact Option.some.inj h0
  · rw [h] at h1
    exact Option.some.inj h1

theorem apart_spread : Apart spread.file spread.pageSize spread.pageCount [0, 1] := by
  refine ⟨fun r hr r' hr' hne ps ps' h h' => ?_, fun r hr ps _ _ => ?_⟩
  · rw [walk_spread hr h, walk_spread hr' h']
    simp only [List.mem_cons, List.not_mem_nil, or_false] at hr hr'
    rcases hr with rfl | rfl
    · rcases hr' with rfl | rfl
      · exact absurd rfl hne
      · decide
    · rcases hr' with rfl | rfl
      · decide
      · exact absurd rfl hne
  · have hcount : spread.pageCount = 4 := by decide +kernel
    simp only [List.mem_cons, List.not_mem_nil, or_false] at hr
    omega

end Example

/-- The table, its schema and the page without an owner are three groups. -/
theorem spread_imported : ∃ m b, Example.spread.importSqliteFile = .ok (m, b) ∧
    m.groupPages = [[0], [1, 2], [3]] ∧ Example.spread.Faithful m b := by
  have hgroups : Example.spread.importSqliteFile.toOption.map (·.1.groupPages) =
      some [[0], [1, 2], [3]] := by decide +kernel
  have hroots : (parseSqliteMaster Example.spread.file Example.spread.pageSize
      Example.spread.fromUtf8Lossy).toOption.map rootsOf = some [0, 1] := by decide +kernel
  cases himport : Example.spread.importSqliteFile with
  | error e =>
    rw [himport] at hgroups
    cases hgroups
  | ok r =>
    rw [himport] at hgroups
    have hiff := (import_faithful_iff Example.spread Codecs.plain_lawful Example.readsPlain).2
      r.1 r.2 himport
    refine ⟨r.1, r.2, rfl, Option.some.inj hgroups, hiff.mpr ⟨fun entries hentries => ?_, ?_⟩⟩
    · rw [hentries] at hroots
      rw [show rootsOf entries = [0, 1] from Option.some.inj hroots]
      exact Example.apart_spread
    · exact groupsFit_of_pagesPerGroup (by decide +kernel)

/-- Two trees that share a page: the import lists it twice. And a header page size of zero is divided
by. -/
theorem cross_linked_duplicated :
    (∃ m b, Example.crossLinked.importSqliteFile = .ok (m, b) ∧ m.groupPages = [[0, 1], [0]] ∧
      ¬ Example.crossLinked.Faithful m b) ∧
    100 ≤ Example.noPageSize.file.length ∧ Example.noPageSize.sizes = .error .panic := by
  refine ⟨?_, by decide +kernel, rfl⟩
  have hgroups : Example.crossLinked.importSqliteFile.toOption.map (·.1.groupPages) =
      some [[0, 1], [0]] := by decide +kernel
  cases h : Example.crossLinked.importSqliteFile with
  | error e =>
    rw [h] at hgroups
    cases hgroups
  | ok r =>
    rw [h] at hgroups
    have hgp : r.1.groupPages = [[0, 1], [0]] := Option.some.inj hgroups
    refine ⟨r.1, r.2, rfl, hgp, fun hf => ?_⟩
    have hnd := hf.partition.nodup_iff.mpr List.nodup_range
    rw [hgp] at hnd
    exact absurd hnd (by decide)

end FileImport

end Turbolite
