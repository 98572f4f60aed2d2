import Turbolite.Lifecycle
import Turbolite.Serializers
import Turbolite.StagingFile

/-!
# Turbolite.ReadBack

Can the program read what it writes? `manifests_read_back` says when every manifest that is written
down along a run, as the manifest object, as a staging trailer or as an envelope, passes its decoder.

The decoders ask that no vector that is indexed by group is longer than the vector of keys. Growth
opens groups first and uploads them later, so it is growth that has to be watched.
-/

namespace Turbolite.ReadBack

open Blocks Results Runs Lifecycle

/-! ### Reading back -/

/-- The matching decoder accepts the bytes and gives the manifest back. -/
def ReadsBack (S : Serde) : Written → Prop
  | .object m => ∃ m', decodeManifestBytes S (S.toVec m) = .ok m' ∧ m'.SamePersisted m
  | .trailer log m => ∃ bytes m',
      readStagingManifest ((log.appendManifest m).fileBytes S.toVec) = .ok (some bytes) ∧
      decodeManifestBytes S bytes = .ok m' ∧ m'.SamePersisted m
  | .envelope m => ∃ m', Wire.decode S (Wire.encode S m) = .ok m' ∧ m'.SamePersisted m

/-- The groups that growth by `n` pages opens have key entries already. -/
def Keyed (m : Manifest) (room ppg n : Nat) : Prop :=
  m.strategy = .bTreeAware → m.groupPages.length + divCeil (n - room) ppg ≤ m.pageGroupKeys.length

/-- Free slots of the last group, as `set_replay_page_count` counts them. -/
def replayRoom (m : Manifest) : Nat :=
  match m.groupPages.getLast? with
  | some last => m.pagesPerGroup - last.length
  | none => 0

/-- When an event is safe: sizes the decoders accept, and no group that waits for its upload. -/
def Safe (h : Handle) (s : State) : Event → Prop
  | .write page data => page < Manifest.maxPageCount ∧
      (s.shared.pageSize = 0 → Manifest.isValidPageSize data.length = true) ∧
      (s.shared.pagesPerGroup = 0 → h.pagesPerGroup ≤ 16384)
  | .checkpoint => Keyed s.shared (lastGroupRoom s.shared.groupPages (h.ppg s.shared))
      (h.ppg s.shared) (s.shared.unassigned s.dirty).length
  | .sync i => i.pendingPageCount ≤ Manifest.maxPageCount ∧
      (i.vacuum.isSome → i.snap.groupPages = [] ∨ i.snap.groupPages.length - 1 ∈ i.groups)
  | .failSync i => i.vacuum = none ∧
      Keyed s.shared (lastGroupRoom s.shared.groupPages s.shared.pagesPerGroup)
        s.shared.pagesPerGroup i.unassigned.length
  | .flush _ => True
  | .setLen n => n ≤ Manifest.maxPageCount ∧
      Keyed s.shared (lastGroupRoom s.shared.groupPages s.shared.pagesPerGroup)
        s.shared.pagesPerGroup (n - s.shared.pageCount)
  | .replay r _ => r.newPageCount s.shared ≤ Manifest.maxPageCount ∧
      Keyed s.shared (replayRoom s.shared) s.shared.pagesPerGroup
        (r.newPageCount s.shared - s.shared.pageCount)
  | .importFile i => Manifest.isValidPageSize i.pageSize = true ∧ i.pagesPerGroup ≤ 16384 ∧
      i.pageCount ≤ Manifest.maxPageCount
  | .encode => True

/-! ### Sizes after an edit -/

theorem length_appendPages (groups : List (List Nat)) (room ppg : Nat) (pages : List Nat) :
    (appendPages groups room ppg pages).length = groups.length + divCeil (pages.length - room) ppg := by
  simp [appendPages, appendToLast]

/-- The largest page of a list. -/
theorem foldl_max_lt {ps : List Nat} {a n : Nat} (ha : a < n) (h : ∀ p ∈ ps, p < n) :
    ps.foldl max a < n := by
  induction ps generalizing a with
  | nil => exact ha
  | cons p ps ih =>
    exact ih (max_lt ha (h p (List.mem_cons_self ..))) fun q hq => h q (List.mem_cons_of_mem p hq)

variable {m : Manifest}

theorem pageCount_assignNewPagesToGroups_le {pages : List Nat} (ppg : Nat) {n : Nat}
    (h : m.pageCount ≤ n) (hp : ∀ p ∈ pages, p < n) : (m.assignNewPagesToGroups pages ppg).pageCount ≤ n := by
  unfold Manifest.assignNewPagesToGroups
  split
  · exact h
  · rename_i hne
    obtain ⟨q, hq⟩ := List.exists_mem_of_ne_nil pages hne
    split
    · dsimp only
      split
      · exact foldl_max_lt (Nat.zero_lt_of_lt (hp q hq)) hp
      · exact h
    · exact h

theorem inRange_assignNewPagesToGroups (h : m.InRange) {pages : List Nat} {ppg : Nat}
    (hp : ∀ p ∈ pages, p < Manifest.maxPageCount)
    (hk : Keyed m (lastGroupRoom m.groupPages ppg) ppg pages.length) :
    (m.assignNewPagesToGroups pages ppg).InRange := by
  have hcount := pageCount_assignNewPagesToGroups_le ppg h.pageCount hp
  revert hcount
  unfold Manifest.assignNewPagesToGroups
  split
  · exact fun _ => h
  · split
    · dsimp only
      split
      · exact fun hcount => { h with pageCount := hcount }
      · exact fun _ => h
    · rename_i hst
      refine fun _ => { h with groupPages := ?_ }
      show (appendPages _ _ _ _).length ≤ _
      rw [length_appendPages, (List.perm_insertionSort _ _).length_eq]
      have hle := hk hst
      rwa [show pages.length - min (lastGroupRoom m.groupPages ppg) pages.length =
        pages.length - lastGroupRoom m.groupPages ppg by omega]

theorem inRange_buildPageIndex (h : m.InRange) : m.buildPageIndex.InRange := by
  obtain ⟨st, idx, heq⟩ := m.buildPageIndex_eq
  rw [heq]
  exact { h with }

theorem inRange_setLen (h : m.InRange) {n : Nat} (hn : n ≤ Manifest.maxPageCount)
    (hk : Keyed m (lastGroupRoom m.groupPages m.pagesPerGroup) m.pagesPerGroup (n - m.pageCount)) :
    (m.setLen n).InRange := by
  have hcount : ({ m with pageCount := n } : Manifest).InRange := { h with pageCount := hn }
  unfold Manifest.setLen Manifest.setLenFrom
  split
  · exact hcount
  · rename_i hst
    split
    · refine inRange_buildPageIndex { hcount with groupPages := ?_ }
      show (List.map _ _).length ≤ _
      rw [List.length_map]
      exact h.groupPages
    · split
      · refine inRange_assignNewPagesToGroups hcount (fun p hp => ?_) fun _ => ?_
        · rw [List.mem_range'_1] at hp
          omega
        · rw [List.length_range']
          exact hk hst
      · exact hcount

theorem inRange_setReplayPageCount (h : m.InRange) {n : Nat} (hn : n ≤ Manifest.maxPageCount)
    (hk : Keyed m (replayRoom m) m.pagesPerGroup (n - m.pageCount)) :
    (m.setReplayPageCount m.pageCount n).InRange := by
  have hcount : ({ m with pageCount := n } : Manifest).InRange := { h with pageCount := hn }
  unfold Manifest.setReplayPageCount
  split
  · exact hcount
  · rename_i hst
    split
    · -- every vector follows the groups that are kept
      refine inRange_buildPageIndex ⟨h.pageSize, h.pagesPerGroup, hn, ?_, ?_, ?_⟩
      · show (List.map _ _).length ≤ (List.map _ _).length
        simp
      · show (List.map _ _).length ≤ (List.map _ _).length
        simp
      · show (List.map _ _).length ≤ (List.map _ _).length
        simp
    · split
      · exact inRange_buildPageIndex hcount
      · refine inRange_buildPageIndex { hcount with groupPages := ?_ }
        show (appendPages _ (replayRoom m) _ _).length ≤ _
        rw [length_appendPages, List.length_range']
        exact hk hst

theorem inRange_postManifest (h : m.InRange) {r : Replay}
    (hn : r.newPageCount m ≤ Manifest.maxPageCount)
    (hk : Keyed m (replayRoom m) m.pagesPerGroup (r.newPageCount m - m.pageCount)) :
    (r.postManifest m).InRange := by
  have hgrown : (if r.newPageCount m ≠ m.pageCount then
      m.setReplayPageCount m.pageCount (r.newPageCount m) else m).InRange := by
    split
    · exact inRange_setReplayPageCount h hn hk
    · exact h
  exact { hgrown with }

/-! ### Sizes after a publication -/

theorem inRange_newKeys {w : GroupWrites} {v : Nat} :
    m.pageGroupKeys.length ≤ (w.newKeys m v).length ∧
      ∀ r ∈ w.rewrites, r.gid < (w.newKeys m v).length := by
  obtain ⟨hle, hlt⟩ := (length_growSets_le none).mp (le_refl (w.newKeys m v).length)
  exact ⟨hle, fun r hr => hlt _ (List.mem_map.mpr ⟨r, hr, rfl⟩)⟩

theorem length_newFrameTables_le {w : GroupWrites} {n : Nat} (hft : m.frameTables.length ≤ n)
    (hw : ∀ r ∈ w.rewrites, r.gid < n) : (w.newFrameTables m).length ≤ n := by
  refine (length_growSets_le []).mpr ⟨hft, fun x hx => ?_⟩
  obtain ⟨r, hr, hrx⟩ := List.mem_filterMap.mp hx
  obtain ⟨ft, -, rfl⟩ := Option.map_eq_some_iff.mp hrx
  exact hw r hr

theorem length_drainOverrides (w : GroupWrites) (ovs : List (HMap Nat SubframeOverride)) :
    (w.drainOverrides ovs).length = ovs.length := by
  have hgen : ∀ (rs : List Rewrite) (ovs : List (HMap Nat SubframeOverride)),
      (rs.foldl (fun ovs r => ovs.set r.gid ∅) ovs).length = ovs.length := by
    intro rs
    induction rs with
    | nil => intro ovs; rfl
    | cons r rs ih => intro ovs; rw [List.foldl_cons, ih, List.length_set]
  exact hgen w.rewrites ovs

theorem length_foldl_insertFrame_le {v n : Nat} {fs : List FrameWrite}
    {ovs : List (HMap Nat SubframeOverride)} (hovs : ovs.length ≤ n) (hfs : ∀ f ∈ fs, f.gid < n) :
    (fs.foldl (GroupWrites.insertFrame v) ovs).length ≤ n := by
  induction fs generalizing ovs with
  | nil => exact hovs
  | cons f fs ih =>
    refine ih ?_ fun f' hf' => hfs f' (List.mem_cons_of_mem f hf')
    rw [GroupWrites.insertFrame, length_growSet]
    exact max_le hovs (hfs f (List.mem_cons_self ..))

theorem length_newOverrides_le {w : GroupWrites} {v : Nat}
    (hovs : m.subframeOverrides.length ≤ (w.newKeys m v).length)
    (hfs : ∀ f ∈ w.frames, f.gid < (w.newKeys m v).length) :
    (w.newOverrides m v).length ≤ (w.newKeys m v).length := by
  have hle := length_foldl_insertFrame_le (v := v) hovs hfs
  rw [GroupWrites.newOverrides, length_drainOverrides, List.length_append, List.length_replicate]
  omega

/-- A group with frames has a key entry. -/
theorem lt_of_hasFrames (h : m.InRange) {gid : Nat} (hf : m.hasFrames gid = true) :
    gid < m.pageGroupKeys.length := by
  obtain ⟨-, hne⟩ := ReadPaths.hasFrames_iff.mp hf
  have hlt : gid < m.frameTables.length := by
    by_contra hge
    refine hne ?_
    rw [Manifest.frameTable, List.getD_eq_getElem?_getD, List.getElem?_eq_none (Nat.le_of_not_lt hge)]
    rfl
  exact lt_of_lt_of_le hlt h.frameTables

theorem inRange_flush {i : FlushInput} (h : i.manifest.InRange) {m' : Manifest} {b : Backend}
    (hf : i.flushInner = .ok (some (m', b))) : m'.InRange := by
  obtain ⟨staged, -, ⟨-, hnone⟩ | ⟨cc, w, plans, b', hw, -, hsome⟩⟩ := FlushInput.flushInner_inv hf
  · cases hnone
  · cases hsome
    obtain ⟨hkeys, hgids⟩ := inRange_newKeys (m := i.manifest) (w := w) (v := i.manifest.version + 1)
    refine inRange_buildPageIndex ⟨h.pageSize, h.pagesPerGroup, h.pageCount, ?_, ?_, ?_⟩
    · exact length_newFrameTables_le (h.frameTables.trans hkeys) hgids
    · refine length_newOverrides_le (h.subframeOverrides.trans hkeys) fun f hf => ?_
      -- an override is only written for a group that has frames
      obtain ⟨-, huse, -⟩ := (hw.frames_iff f.gid f.frameIdx).mp (List.mem_map.mpr ⟨f, hf, rfl⟩)
      simp only [FlushInput.useOverride, Bool.and_eq_true] at huse
      exact lt_of_lt_of_le (lt_of_hasFrames h huse.1.1.1) hkeys
    · exact h.groupPages.trans hkeys

/-- The last group that new pages open holds one of them, and the index says so. -/
theorem last_opened {pages : List Nat} {ppg : Nat}
    (hlt : m.groupPages.length < (m.assignNewPagesToGroups pages ppg).groupPages.length) :
    ∃ p ∈ pages, ∃ j, (m.assignNewPagesToGroups pages ppg).pageLocation p =
      some ⟨(m.assignNewPagesToGroups pages ppg).groupPages.length - 1, j⟩ := by
  have hne : pages ≠ [] := by
    rintro rfl
    simp [Manifest.assignNewPagesToGroups] at hlt
  cases hst : m.strategy with
  | positional =>
    rw [Manifest.assignNewPagesToGroups_groupPages hst] at hlt
    exact absurd hlt (lt_irrefl _)
  | bTreeAware =>
    have hstrat := m.assignNewPagesToGroups_strategy pages ppg
    rw [Manifest.assignNewPagesToGroups, if_neg hne, hst] at hlt hstrat ⊢
    dsimp only at hlt hstrat ⊢
    generalize hsorted : pages.insertionSort (· ≤ ·) = sorted at hlt hstrat ⊢
    generalize min (lastGroupRoom m.groupPages ppg) sorted.length = fill at hlt hstrat ⊢
    have hlen : (appendPages m.groupPages fill ppg sorted).length =
        m.groupPages.length + (blocks ppg (sorted.drop fill)).length := by
      rw [length_appendPages, length_blocks, List.length_drop]
    rw [hlen] at hlt ⊢
    -- the last entry that is inserted is the last page of the last block
    rcases List.eq_nil_or_concat (blocks ppg (sorted.drop fill)) with hnil | ⟨bs, last, hbs⟩
    · rw [hnil] at hlt
      exact absurd hlt (lt_irrefl _)
    · have hmem : last ∈ blocks ppg (sorted.drop fill) := by simp [hbs]
      obtain ⟨init, p, hlast⟩ : ∃ (init : List Nat) (p : Nat), last = init.concat p :=
        (List.eq_nil_or_concat last).resolve_left (ne_nil_of_mem_blocks hmem)
      have hp : p ∈ pages := by
        have hin : p ∈ sorted := by
          obtain ⟨k, -, hk⟩ := List.mem_map.mp hmem
          refine List.mem_of_mem_drop (List.mem_of_mem_drop (List.mem_of_mem_take
            (show p ∈ block ppg k (sorted.drop fill) from ?_)))
          rw [hk, hlast]
          simp
        rw [← hsorted] at hin
        exact (List.mem_insertionSort _).mp hin
      have hentries : ∃ es, appendedEntries m.groupPages fill ppg sorted =
          es ++ [(p, ⟨m.groupPages.length + bs.length, init.length⟩)] := by
        rw [appendedEntries, hbs, hlast]
        simp only [List.concat_eq_append, List.zipIdx_append, List.flatMap_append, List.zipIdx_cons,
          List.zipIdx_nil, List.flatMap_cons, List.flatMap_nil, List.append_nil, List.map_append,
          List.map_cons, List.map_nil, Nat.zero_add, ← List.append_assoc]
        exact ⟨_, rfl⟩
      obtain ⟨es, hes⟩ := hentries
      refine ⟨p, hp, init.length, ?_⟩
      rw [Manifest.pageLocation]
      dsimp only
      rw [hes, List.foldl_append, List.foldl_cons, List.foldl_nil, AList.lookup_insert, hbs]
      simp

/-- The live page count a VACUUM leaves is a `u32`, or the manifest's. -/
theorem vacuum_le {i : SyncInput} (h : i.manifest.InRange) {n : Nat} (hv : i.vacuum = some n) :
    n ≤ Manifest.maxPageCount := by
  unfold SyncInput.vacuum at hv
  split at hv
  · split at hv
    · rename_i page0 prev _ _
      split at hv
      · cases hv
        split
        · exact (beU32At_lt page0 28).le.trans (by decide)
        · exact h.pageCount
      · cases hv
    · cases hv
  · cases hv

/-- The snapshot of a sync is in range but for the groups it may have opened. -/
theorem inRange_snap {i : SyncInput} (h : i.manifest.InRange)
    (hd : ∀ p ∈ i.dirty, p < Manifest.maxPageCount) {keys : List (Option ObjectKey)}
    (hkeys : i.snap.pageGroupKeys.length ≤ keys.length)
    (hgroups : i.snap.groupPages.length ≤ keys.length) :
    ({ i.snap with pageGroupKeys := keys } : Manifest).InRange := by
  have hw : i.walked.pageCount ≤ Manifest.maxPageCount ∧
      i.walked.frameTables.length ≤ i.walked.pageGroupKeys.length ∧
      i.walked.subframeOverrides.length ≤ i.walked.pageGroupKeys.length := by
    unfold SyncInput.walked
    split
    · rename_i n hv
      obtain ⟨st, idx, hrw⟩ := i.manifest.rewalk_eq n _ _
      rw [hrw]
      exact ⟨vacuum_le h hv, le_rfl, le_rfl⟩
    · exact ⟨h.pageCount, h.frameTables, h.subframeOverrides⟩
  obtain ⟨hps, -, hppg⟩ := i.snap_fields
  have hcount : i.snap.pageCount ≤ Manifest.maxPageCount :=
    pageCount_assignNewPagesToGroups_le _ hw.1 fun p hp => hd p (List.mem_filter.mp hp).1
  obtain ⟨n, gps, idx, heq⟩ := i.snap_eq
  have hft : i.snap.frameTables.length ≤ i.snap.pageGroupKeys.length := by
    rw [heq]
    exact hw.2.1
  have hov : i.snap.subframeOverrides.length ≤ i.snap.pageGroupKeys.length := by
    rw [heq]
    exact hw.2.2
  exact ⟨hps ▸ h.pageSize, hppg ▸ h.pagesPerGroup, hcount, hft.trans hkeys, hov.trans hkeys, hgroups⟩

theorem inRange_sync {i : SyncInput} (h : i.manifest.InRange)
    (hd : ∀ p ∈ i.dirty, p < Manifest.maxPageCount)
    (hpend : i.pendingPageCount ≤ Manifest.maxPageCount)
    (hvac : i.vacuum.isSome → i.snap.groupPages = [] ∨ i.snap.groupPages.length - 1 ∈ i.groups)
    {m' : Manifest} {b : Backend} (hs : i.durableSync = .ok (some (m', b))) : m'.InRange := by
  obtain ⟨cc, w, plans, -, hgids, -, rfl, -⟩ := SyncInput.durableSync_inv hs
  obtain ⟨hkeys, hrewritten⟩ := inRange_newKeys (m := i.snap) (w := w) (v := i.snap.version + 1)
  have hcovers : ∀ g ∈ i.groups, g < (w.newKeys i.snap (i.snap.version + 1)).length := by
    intro g hg
    obtain ⟨r, hr, rfl⟩ := List.mem_map.mp (hgids ▸ hg)
    exact hrewritten r hr
  have hlast : i.snap.groupPages.length ≤ (w.newKeys i.snap (i.snap.version + 1)).length := by
    have hof : i.snap.groupPages.length - 1 ∈ i.groups → i.snap.groupPages.length ≤
        (w.newKeys i.snap (i.snap.version + 1)).length := by
      intro hmem
      have := hcovers _ hmem
      omega
    cases hv : i.vacuum with
    | some n =>
      rcases hvac (by rw [hv]; rfl) with hnil | hmem
      · rw [hnil]
        exact Nat.zero_le _
      · exact hof hmem
    | none =>
      have hwalked : i.walked = i.manifest := by rw [SyncInput.walked, hv]
      rcases Nat.lt_or_ge i.walked.groupPages.length i.snap.groupPages.length with hlt | hge
      · -- a group opened by the sync holds a dirty page
        obtain ⟨p, hp, j, hloc⟩ := last_opened hlt
        refine hof (List.mem_dedup.mpr (List.mem_append_left _ (List.mem_filterMap.mpr
          ⟨p, (List.mem_filter.mp hp).1, ?_⟩)))
        exact congrArg (Option.map (·.groupId)) hloc
      · obtain ⟨n, gps, idx, heq⟩ := i.snap_eq
        have hsame : i.snap.pageGroupKeys = i.manifest.pageGroupKeys := by rw [heq, hwalked]
        rw [hwalked] at hge
        exact (hge.trans h.groupPages).trans (hsame ▸ hkeys)
  have hsnap := inRange_snap h hd hkeys hlast
  rw [SyncInput.publication_manifest]
  refine inRange_buildPageIndex ⟨hsnap.pageSize, h.pagesPerGroup, ?_, ?_, ?_, hlast⟩
  · refine max_le hsnap.pageCount ?_
    cases hv : i.vacuum with
    | some n => exact vacuum_le h hv
    | none => exact hpend
  · exact length_newFrameTables_le hsnap.frameTables hrewritten
  · show (w.drainOverrides i.snap.subframeOverrides).length ≤ _
    rw [length_drainOverrides]
    exact hsnap.subframeOverrides

theorem inRange_import {i : ImportInput} (hps : Manifest.isValidPageSize i.pageSize = true)
    (hppg : i.pagesPerGroup ≤ 16384) (hcount : i.pageCount ≤ Manifest.maxPageCount) {m' : Manifest}
    {b : Backend} (hi : i.importSqliteFile = .ok (m', b)) : m'.InRange := by
  obtain ⟨groups, hgroups, rfl⟩ := ImportInput.importSqliteFile_inv hi
  have hlen := length_of_mapM hgroups
  refine inRange_buildPageIndex ⟨.inr hps, hppg, hcount, ?_, Nat.zero_le _, ?_⟩
  · simp
  · simp [hlen]

theorem inRange_detectAndNormalizeStrategy (h : m.InRange) :
    m.detectAndNormalizeStrategy.InRange := by
  refine inRange_buildPageIndex { h with subframeOverrides := ?_ }
  show (m.subframeOverrides ++ List.replicate (m.pageGroupKeys.length - m.subframeOverrides.length)
    _).length ≤ m.pageGroupKeys.length
  have hle := h.subframeOverrides
  rw [List.length_append, List.length_replicate]
  omega

/-! ### The invariant -/

/-- The manifest is in range, and a log can be told from its trailer. -/
def Sound : Written → Prop
  | .object m | .envelope m => m.InRange
  | .trailer log m => m.InRange ∧ log.WellFormed

/-- What every reachable state keeps. -/
structure Inv (s : State) : Prop where
  inRange : s.shared.InRange
  dirty : ∀ p ∈ s.dirty, p < Manifest.maxPageCount
  openLog : ∀ r ∈ s.openLog, r.2.length = s.shared.pageSize ∧ r.1 * s.shared.pageSize < 2 ^ 64
  sized : s.openLog ≠ [] → s.shared.pageSize ≠ 0
  written : ∀ w ∈ s.written, Sound w

variable {s : State}

theorem Inv.written_append (h : Inv s) {w : Written} (hw : Sound w) :
    ∀ x ∈ s.written ++ [w], Sound x := by
  intro x hx
  rcases List.mem_append.mp hx with hx | hx
  · exact h.written x hx
  · rw [List.mem_singleton.mp hx]
    exact hw

/-- A manifest of the same page size takes the place of the shared one. -/
theorem Inv.replace (h : Inv s) {m : Manifest} (hm : m.InRange)
    (hps : m.pageSize = s.shared.pageSize) {dirty : List Nat} (hd : ∀ p ∈ dirty, p ∈ s.dirty)
    {written : List Written} (hw : ∀ w ∈ written, Sound w) :
    Inv { s with shared := m, dirty := dirty, written := written } where
  inRange := hm
  dirty := fun p hp => h.dirty p (hd p hp)
  openLog := fun r hr => by
    show r.2.length = m.pageSize ∧ r.1 * m.pageSize < 2 ^ 64
    rw [hps]
    exact h.openLog r hr
  sized := fun hne => by
    show m.pageSize ≠ 0
    rw [hps]
    exact h.sized hne
  written := hw

theorem Inv.wellFormed_log (h : Inv s) {records : List (Nat × Bytes)} (hps : s.shared.pageSize ≠ 0)
    (hr : ∀ r ∈ records, r.2.length = s.shared.pageSize ∧ r.1 * s.shared.pageSize < 2 ^ 64) :
    (s.log records).WellFormed :=
  ⟨h.inRange.pageSize.resolve_left hps, hr⟩

/-! ### One event -/

variable {h : Handle} {s' : State}

theorem inRange_seedGeometry (hm : m.InRange) {bufLen ppg : Nat} (spf : Nat)
    (hps : m.pageSize = 0 → Manifest.isValidPageSize bufLen = true)
    (hppg : m.pagesPerGroup = 0 → ppg ≤ 16384) : (m.seedGeometry bufLen ppg spf).InRange := by
  refine ⟨?_, ?_, hm.pageCount, hm.frameTables, hm.subframeOverrides, hm.groupPages⟩
  · show (if m.pageSize = 0 then bufLen else m.pageSize) = 0 ∨ _
    by_cases h0 : m.pageSize = 0
    · right
      show Manifest.isValidPageSize (if m.pageSize = 0 then bufLen else m.pageSize) = true
      rw [if_pos h0]
      exact hps h0
    · show (if m.pageSize = 0 then bufLen else m.pageSize) = 0 ∨
        Manifest.isValidPageSize (if m.pageSize = 0 then bufLen else m.pageSize) = true
      rw [if_neg h0]
      exact hm.pageSize
  · show (if m.pagesPerGroup = 0 then ppg else m.pagesPerGroup) ≤ 16384
    split
    · rename_i h0
      exact hppg h0
    · exact hm.pagesPerGroup

theorem inv_write {page : Nat} {data : Bytes} (hi : Inv s) (hsafe : Safe h s (.write page data))
    (hs : step h s (.write page data) = some s') : Inv s' := by
  obtain ⟨hpage, hps, hppg⟩ := hsafe
  simp only [step] at hs
  split at hs
  · rename_i hguard
    cases hs
    obtain ⟨hlen, hoff⟩ := hguard
    have hseed := inRange_seedGeometry hi.inRange h.subPagesPerFrame hps hppg
    -- the page size was there before, unless this is the first page
    have hsame : s.openLog ≠ [] → (s.shared.seedGeometry data.length h.pagesPerGroup
        h.subPagesPerFrame).pageSize = s.shared.pageSize := fun hne => if_neg (hi.sized hne)
    refine ⟨hseed, fun p hp => ?_, fun r hr => ?_, fun _ h0 => ?_, hi.written⟩
    · rcases List.mem_insert_iff.mp hp with rfl | hp
      · exact hpage
      · exact hi.dirty p hp
    · rcases List.mem_append.mp hr with hr | hr
      · dsimp only
        rw [hsame (List.ne_nil_of_mem hr)]
        exact hi.openLog r hr
      · rw [List.mem_singleton.mp hr]
        exact ⟨hlen, hlen ▸ hoff⟩
    · by_cases hz : s.shared.pageSize = 0
      · have hv := (le_of_isValidPageSize (hps hz)).1
        rw [show data.length = 0 from hlen.trans h0] at hv
        omega
      · exact hz ((if_neg hz).symm.trans h0)
  · cases hs

theorem inv_checkpoint (hi : Inv s) (hsafe : Safe h s .checkpoint)
    (hs : step h s .checkpoint = some s') : Inv s' := by
  have hm : (s.shared.localCheckpoint s.dirty (h.ppg s.shared)).InRange :=
    inRange_assignNewPagesToGroups hi.inRange
      (fun p hp => hi.dirty p (List.mem_filter.mp hp).1) hsafe
  have hps : (s.shared.localCheckpoint s.dirty (h.ppg s.shared)).pageSize = s.shared.pageSize := by
    obtain ⟨n, gps, idx, heq⟩ := s.shared.localCheckpoint_eq s.dirty (h.ppg s.shared)
    rw [heq]
  simp only [step] at hs
  split at hs
  · cases hs
    exact hi.replace hm hps (fun p hp => absurd hp List.not_mem_nil) hi.written
  · rename_i hne
    cases hs
    refine ⟨hm, fun p hp => absurd hp List.not_mem_nil, fun r hr => absurd hr List.not_mem_nil,
      fun h0 => absurd rfl h0, hi.written_append ⟨hm, ?_⟩⟩
    exact hi.wellFormed_log (hi.sized hne) hi.openLog

theorem inv_sync {i : SyncInput} (hi : Inv s) (hsafe : Safe h s (.sync i))
    (hs : step h s (.sync i) = some s') : Inv s' := by
  simp only [step] at hs
  split at hs
  · rename_i hguard
    obtain ⟨hm, hdirty⟩ := hguard
    split at hs
    · rename_i m' b hok
      cases hs
      have hr : m'.InRange := inRange_sync (hm ▸ hi.inRange)
        (fun p hp => hi.dirty p (hdirty.mem_iff.mp hp)) hsafe.1 hsafe.2 hok
      have hps : m'.pageSize = s.shared.pageSize := by
        obtain ⟨cc, w, plans, -, -, -, rfl, -⟩ := SyncInput.durableSync_inv hok
        rw [SyncInput.publication_manifest, ← hm, ← i.snap_fields.1]
        exact Manifest.pageSize_buildPageIndex _
      exact hi.replace hr hps (fun p hp => absurd hp List.not_mem_nil) (hi.written_append hr)
    · cases hs
      exact hi
    · cases hs
  · cases hs

theorem inv_failSync {i : SyncInput} (hi : Inv s) (hsafe : Safe h s (.failSync i))
    (hs : step h s (.failSync i) = some s') : Inv s' := by
  simp only [step] at hs
  split at hs
  · rename_i hguard
    obtain ⟨hm, hdirty, -⟩ := hguard
    obtain ⟨hv, hk⟩ := hsafe
    cases hs
    have hwalked : i.walked = s.shared := by
      rw [SyncInput.walked, hv]
      exact hm
    have hr : i.snap.InRange := by
      rw [SyncInput.snap, hm, hwalked]
      refine inRange_assignNewPagesToGroups hi.inRange (fun p hp => ?_) hk
      exact hi.dirty p (hdirty.mem_iff.mp (List.mem_filter.mp hp).1)
    exact hi.replace hr (i.snap_fields.1.trans (congrArg Manifest.pageSize hm)) (fun p hp => hp)
      hi.written
  · cases hs

theorem inv_flush {i : FlushInput} (hi : Inv s) (hs : step h s (.flush i) = some s') : Inv s' := by
  simp only [step] at hs
  split at hs
  · rename_i hm
    split at hs
    · rename_i m' b hok
      cases hs
      have hr : m'.InRange := inRange_flush (hm ▸ hi.inRange) hok
      have hps : m'.pageSize = s.shared.pageSize := by
        obtain ⟨staged, -, ⟨-, hnone⟩ | ⟨cc, w, plans, b', -, -, hsome⟩⟩ :=
          FlushInput.flushInner_inv hok
        · cases hnone
        · cases hsome
          rw [← hm]
          exact Manifest.pageSize_buildPageIndex _
      exact hi.replace hr hps (fun p hp => hp) (hi.written_append hr)
    · cases hs
      exact hi
    · cases hs
      exact hi
  · cases hs

theorem inv_setLen {n : Nat} (hi : Inv s) (hsafe : Safe h s (.setLen n))
    (hs : step h s (.setLen n) = some s') : Inv s' := by
  simp only [step] at hs
  split at hs
  · cases hs
    exact hi
  · cases hs
    have hps : (s.shared.setLen n).pageSize = s.shared.pageSize := by
      obtain ⟨n', gps, idx, heq⟩ := s.shared.setLen_eq n
      rw [heq]
    exact hi.replace (inRange_setLen hi.inRange hsafe.1 hsafe.2) hps
      (fun p hp => (List.mem_filter.mp hp).1) hi.written

theorem pageSize_postManifest (r : Replay) (m : Manifest) :
    (r.postManifest m).pageSize = m.pageSize := by
  show (if r.newPageCount m ≠ m.pageCount then
    m.setReplayPageCount m.pageCount (r.newPageCount m) else m).pageSize = m.pageSize
  split
  · unfold Manifest.setReplayPageCount
    split
    · rfl
    · split
      · exact Manifest.pageSize_buildPageIndex _
      · split
        · exact Manifest.pageSize_buildPageIndex _
        · exact Manifest.pageSize_buildPageIndex _
  · rfl

theorem inv_replay {r : Replay} {pages : List (Nat × Bytes)} (hi : Inv s)
    (hsafe : Safe h s (.replay r pages)) (hs : step h s (.replay r pages) = some s') : Inv s' := by
  simp only [step] at hs
  split at hs
  · rename_i hguard
    obtain ⟨hsized, -, hpages⟩ := hguard
    cases hs
    have hr : (r.postManifest s.shared).InRange := inRange_postManifest hi.inRange hsafe.1 hsafe.2
    have hps : (r.postManifest s.shared).pageSize = s.shared.pageSize :=
      pageSize_postManifest r s.shared
    have hlog : (s.log pages).WellFormed := by
      refine hi.wellFormed_log hsized fun p hp => ⟨(hpages p hp).2, ?_⟩
      have hid := (hpages p hp).1
      have hle := (le_of_isValidPageSize (hi.inRange.pageSize.resolve_left hsized)).2
      calc p.1 * s.shared.pageSize ≤ p.1 * 65536 := Nat.mul_le_mul_left _ hle
        _ < 2 ^ 64 := by omega
    have hinv := hi.replace hr hps (fun p hp => hp) (hi.written_append (w := .trailer _ _) ⟨hr, hlog⟩)
    exact ⟨hinv.inRange, hinv.dirty, hinv.openLog, hinv.sized, hinv.written⟩
  · cases hs

theorem inv_importFile {i : ImportInput} (hi : Inv s) (hsafe : Safe h s (.importFile i))
    (hs : step h s (.importFile i) = some s') : Inv s' := by
  simp only [step] at hs
  split at hs
  · rename_i m' b hok
    cases hs
    have hr : m'.InRange := inRange_import hsafe.1 hsafe.2.1 hsafe.2.2 hok
    exact ⟨inRange_detectAndNormalizeStrategy hr, fun p hp => absurd hp List.not_mem_nil,
      fun r hr => absurd hr List.not_mem_nil, fun h0 => absurd rfl h0, hi.written_append hr⟩
  · cases hs
    exact hi

/-- One event keeps the invariant. -/
theorem step_inv {e : Event} (hi : Inv s) (hsafe : Safe h s e) (hs : step h s e = some s') :
    Inv s' := by
  cases e with
  | write page data => exact inv_write hi hsafe hs
  | checkpoint => exact inv_checkpoint hi hsafe hs
  | sync i => exact inv_sync hi hsafe hs
  | failSync i => exact inv_failSync hi hsafe hs
  | flush i => exact inv_flush hi hs
  | setLen n => exact inv_setLen hi hsafe hs
  | replay r pages => exact inv_replay hi hsafe hs
  | importFile i => exact inv_importFile hi hsafe hs
  | encode =>
    cases hs
    exact ⟨hi.inRange, hi.dirty, hi.openLog, hi.sized, hi.written_append hi.inRange⟩

/-! ### Runs -/

/-- A sound record is read back. -/
theorem readsBack_of_sound {S : Serde} {w : Written} (h : Sound w)
    (hrt : S.RoundTrips w.manifest) (hsmall : S.Small w.manifest) : ReadsBack S w := by
  cases w with
  | object m => exact (decodeManifestBytes_toVec hrt hsmall).mpr h
  | envelope m => exact (Wire.decode_encode hrt hsmall).mpr h
  | trailer log m =>
    obtain ⟨hr, hlog⟩ := h
    obtain ⟨m', hdec, hsame⟩ := (decodeManifestBytes_toVec hrt hsmall).mpr hr
    have h64 : (S.toVec m).length < 2 ^ 64 := lt_of_le_of_lt hsmall.toVec (by decide)
    have hwf : (log.appendManifest m).WellFormed := hlog
    exact ⟨S.toVec m, m', readStagingManifest_fileBytes hwf rfl h64, hdec, hsame⟩

/-- From an empty database: whatever is written down along a run whose events are safe is accepted by
the matching decoder and comes back as it was. -/
theorem manifests_read_back (S : Serde) {es : List Event} (hrun : run (step h) {} es = some s)
    (hsafe : Meets (step h) (Safe h) {} es) :
    ∀ w ∈ s.written, S.RoundTrips w.manifest → S.Small w.manifest → ReadsBack S w := by
  have hinit : Inv {} := by
    refine ⟨⟨.inl rfl, Nat.zero_le _, Nat.zero_le _, le_rfl, le_rfl, le_rfl⟩, ?_, ?_, ?_, ?_⟩
    · exact fun p hp => absurd hp List.not_mem_nil
    · exact fun r hr => absurd hr List.not_mem_nil
    · exact fun h0 => absurd rfl h0
    · exact fun w hw => absurd hw List.not_mem_nil
  have hinv : Inv s := run_invariant (fun _ _ _ hi hc hs => step_inv hi hc hs) hinit hsafe hrun
  intro w hw hrt hsmall
  exact readsBack_of_sound (hinv.written w hw) hrt hsmall

namespace Example

/-- Page 1 of an empty SQLite database: 512-byte pages, change counter 1, a table leaf. -/
def page0 : Bytes := (((List.replicate 512 0).set 16 2).set 27 1).set 100 13

/-- The import of the one-page file, one page a group. -/
def file : ImportInput where
  cfg := .plain
  backend := { objects := fun _ => none }
  pageSize := 512
  pageCount := 1
  fileChangeCounter := 1
  pagesPerGroup := 1
  subPagesPerFrame := 0
  file := fun p => if p = 0 then some page0 else none
  walkAllBtrees := fun _ _ _ => ⟨[(0, ⟨"sqlite_master", "table", [0]⟩)], []⟩

/-- A handle with groups of one page. -/
def handle : Handle := ⟨1, 0, by decide⟩

/-- A page full of one byte. -/
def page (n : UInt8) : Bytes := List.replicate 512 n

/-- The manifest of the import. -/
def imported : Manifest := (file.manifest [[(0, page0)]]).detectAndNormalizeStrategy

/-- A page is written and checkpointed. -/
def events (p : Nat) : List Event := [.importFile file, .write p (page 7), .checkpoint]

/-- After the write of page `p`. -/
def wrote (p : Nat) : State where
  shared := imported
  dirty := [p]
  openLog := [(p, page 7)]
  written := [.object (file.manifest [[(0, page0)]])]

/-- After the checkpoint. -/
def checkpointed (p : Nat) : State where
  shared := imported.localCheckpoint [p] 1
  stagingSeq := 1
  written := [.object (file.manifest [[(0, page0)]]),
    .trailer { version := 0, pageSize := 512, records := [(p, page 7)] }
      (imported.localCheckpoint [p] 1)]

/-- After the import. -/
def opened : State where
  shared := imported
  written := [.object (file.manifest [[(0, page0)]])]

theorem step_import : step handle {} (.importFile file) = some opened := rfl

theorem step_write {p : Nat} (hp : p * 512 < 2 ^ 64) :
    step handle opened (.write p (page 7)) = some (wrote p) := by
  have hlen : (page 7).length = 512 := List.length_replicate
  have hseed : imported.seedGeometry 512 1 0 = imported := rfl
  simp only [step, handle, opened, hlen, hseed]
  exact if_pos ⟨rfl, hp⟩

theorem run_events {p : Nat} (hp : p * 512 < 2 ^ 64) :
    run (step handle) {} (events p) = some (checkpointed p) :=
  run_cons.mpr ⟨_, step_import, run_cons.mpr ⟨_, step_write hp, rfl⟩⟩

end Example

/-- A checkpoint of a page the manifest has: the trailer is read back. -/
theorem checkpoint_reads_back : ∃ s log m, run (step Example.handle) {} (Example.events 0) = some s ∧
    .trailer log m ∈ s.written ∧ ReadsBack (Serde.on m) (.trailer log m) := by
  have hrun := Example.run_events (p := 0) (by decide)
  have hmem : Written.trailer _ _ ∈ (Example.checkpointed 0).written :=
    List.mem_cons_of_mem _ (List.mem_singleton_self _)
  refine ⟨_, _, _, hrun, hmem, manifests_read_back _ hrun ?_ _ hmem (Serde.roundTrips_on _)
    ⟨by decide +kernel, by decide +kernel⟩⟩
  refine .cons ⟨by decide, by decide, by decide⟩ Example.step_import (.cons ?_ (Example.step_write (by decide)) ⟨?_, ?_⟩)
  · exact ⟨by decide, fun h => absurd h (by decide), fun h => absurd h (by decide)⟩
  · intro _
    decide
  · exact fun _ _ => trivial

/-- A checkpoint of a page past the end opens a group that has no object yet: the trailer names more
groups than keys and is refused. -/
theorem checkpoint_refused : ∃ s log m, run (step Example.handle) {} (Example.events 1) = some s ∧
    .trailer log m ∈ s.written ∧ (Serde.on m).RoundTrips m ∧ (Serde.on m).Small m ∧
    ¬ ReadsBack (Serde.on m) (.trailer log m) := by
  have hrun := Example.run_events (p := 1) (by decide)
  have hmem : Written.trailer _ _ ∈ (Example.checkpointed 1).written :=
    List.mem_cons_of_mem _ (List.mem_singleton_self _)
  have hrt := Serde.roundTrips_on (Example.imported.localCheckpoint [1] 1)
  have hsmall : (Serde.on (Example.imported.localCheckpoint [1] 1)).Small
      (Example.imported.localCheckpoint [1] 1) := ⟨by decide +kernel, by decide +kernel⟩
  refine ⟨_, _, _, hrun, hmem, hrt, hsmall, ?_⟩
  intro ⟨bytes, m', hread, hdec, hsame⟩
  have hlog : StagingLog.WellFormed (StagingLog.appendManifest ⟨0, 512, [(1, Example.page 7)], none⟩
      (Example.imported.localCheckpoint [1] 1)) := by
    refine ⟨by decide, fun r hr => ?_⟩
    rw [List.mem_singleton.mp hr]
    exact ⟨List.length_replicate, by decide⟩
  have hbytes := readStagingManifest_fileBytes hlog rfl
    (lt_of_le_of_lt hsmall.toVec (by decide))
  rw [hbytes] at hread
  cases hread
  have hrange := (decodeManifestBytes_toVec hrt hsmall).mp ⟨m', hdec, hsame⟩
  exact absurd hrange.groupPages (by decide)

end Turbolite.ReadBack
