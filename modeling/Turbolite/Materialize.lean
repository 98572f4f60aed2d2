import Turbolite.Serializers
import Turbolite.StoredState

/-!
# Turbolite.Materialize

`materialize_manifest_to_file`: the whole database of a manifest written to a file. It decodes the page
groups and applies the overrides on its own, without the dictionary, stages every page in memory, and
only then truncates the output.

`materialize_agrees_iff` says when the file it leaves is what cold reads through the manifest return.
-/

namespace Turbolite

open Blocks Results ReadPaths

/-- The manifest, the backend, and the file that is there. `outputFault` is the error met while the
staged pages are written out, with the file that error leaves behind. -/
structure Materialize where
  cfg : CodecConfig
  backend : Backend
  manifest : Manifest
  output : Option Bytes
  outputFault : Option (IoError × Option Bytes) := none

namespace Materialize

variable (i : Materialize)

/-! ### Staging -/

/-- `keys_with_gids`. They are fetched fifty at a time. -/
def keysWithGids : List (Nat × ObjectKey) :=
  (List.range i.manifest.pageGroupKeys.length).filterMap fun gid =>
    (i.manifest.groupKey gid).map fun key => (gid, key)

/-- `decoded_pages`. -/
def decodeGroup (gid : Nat) (pgData : Bytes) : IoResult Bytes :=
  if i.manifest.hasFrames gid then do
    let (_, _, bulk) ← i.cfg.decodePageGroupSeekableFull none (aadPageGroup gid) pgData
      (i.manifest.frameTable gid) i.manifest.pageSize (i.manifest.groupPageNums gid).length
      i.manifest.pageCount
    .ok bulk
  else do
    let (_, _, pages) ← i.cfg.decodePageGroup none (aadPageGroup gid) pgData
    .ok pages.flatten

/-- The pages of one override. -/
def stageOverride (gid frameIdx : Nat) (ovr : SubframeOverride) : IoResult (List (Nat × Bytes)) :=
  match i.backend.getPageGroup ovr.key with
  | none => .error (.io .notFound s!"materialize: missing override object for group {gid} frame {frameIdx} key {ovr.key.text} (manifest v{i.manifest.version}); retry on next poll")
  | some ovrData => do
    let decompressed ← i.cfg.openFrame none (aadOverrideFrame gid frameIdx) ovrData
      maxTieredDecompressedBytes
    let framePageNums := block i.manifest.subPagesPerFrame frameIdx (i.manifest.groupPageNums gid)
    let dataLen := framePageNums.length * i.manifest.pageSize
    if framePageNums = [] then .ok []
    else if decompressed.length < dataLen then
      .error (.io .invalidData s!"materialize: override object too short for group {gid} frame {frameIdx} key {ovr.key.text} (need {dataLen} bytes, got {decompressed.length})")
    else
      -- the loop stops at the first page of the frame past the end
      .ok (PageMap.scatter i.manifest.pageSize
        (framePageNums.takeWhile (· < i.manifest.pageCount)) decompressed)

/-- The overrides of a group, when the manifest has a frame size. -/
def stageOverrides (gid : Nat) : IoResult (List (Nat × Bytes)) :=
  if 0 < i.manifest.subPagesPerFrame then do
    let writes ← (i.manifest.overrides gid).entries.mapM fun ov => i.stageOverride gid ov.1 ov.2
    .ok writes.flatten
  else .ok []

/-- The pages of one group: the base object's up to the first page past the end, then the overrides'. -/
def stageGroup (gid : Nat) (key : ObjectKey) : IoResult (List (Nat × Bytes)) :=
  match i.backend.getPageGroup key with
  | none => .error (.io .notFound s!"materialize: missing page-group object for group {gid} key {key.text} (manifest v{i.manifest.version}); leader publish may race the upload, retry on next poll")
  | some pgData => do
    let decoded ← i.decodeGroup gid pgData
    let overrides ← i.stageOverrides gid
    .ok (PageMap.scatter i.manifest.pageSize (liveSlots i.manifest gid) decoded ++ overrides)

/-- `staged_writes`, by page instead of by offset. -/
def stagedWrites : IoResult (List (Nat × Bytes)) := do
  let groups ← i.keysWithGids.mapM fun gk => i.stageGroup gk.1 gk.2
  .ok groups.flatten

/-! ### The output -/

/-- `write_all_at` for every staged page. -/
def writeAllAt (pageSize : Nat) (file : Bytes) (writes : List (Nat × Bytes)) : Bytes :=
  writes.foldl (fun f w => splice f (w.1 * pageSize) w.2) file

/-- `materialize_manifest_to_file`: what it returns and the output file after it. -/
def materializeManifestToFile : IoResult Nat × Option Bytes :=
  if i.manifest.pageCount = 0 ∨ i.manifest.pageSize = 0 then
    (.error (.io .notFound "empty manifest, no data to materialize"), i.output)
  else
    match i.stagedWrites with
    | .error e => (.error e, i.output)
    | .ok writes =>
      match i.outputFault with
      | some (e, left) => (.error e, left)
      | none => (.ok i.manifest.changeCounter, some (writeAllAt i.manifest.pageSize
          (List.replicate (i.manifest.pageCount * i.manifest.pageSize) 0) writes))

/-! ### What it should do -/

/-- The file is the database as cold reads through the manifest return it. -/
structure Agrees (file : Bytes) : Prop where
  length : file.length = i.manifest.pageCount * i.manifest.pageSize
  pages : ∀ p < i.manifest.pageCount,
    coldRead i.cfg i.manifest i.backend p = .ok (block i.manifest.pageSize p file)

/-- An object that holds pages is missing, or the decoders of the read paths refuse it. -/
inductive Unusable : Prop where
  | group (gid : Nat) (key : ObjectKey) : i.manifest.groupKey gid = some key →
      (∀ data, i.backend.objects key = some data →
        ∃ e, decodeBase i.cfg i.manifest gid data = .error e) → Unusable
  | override (gid : Nat) (key : ObjectKey) (frameIdx : Nat) (ovr : SubframeOverride) :
      i.manifest.groupKey gid = some key → 0 < i.manifest.subPagesPerFrame →
      (i.manifest.overrides gid).lookup frameIdx = some ovr →
      (∀ data, i.backend.objects ovr.key = some data →
        ∃ e, i.cfg.decodeSeekableSubchunk (aadOverrideFrame gid frameIdx) data = .error e) → Unusable

/-! ### The staged pages of stored groups -/

section Staged

/-- No page past the end comes before position `j` or is at it. -/
def Live (m : Manifest) (ns : List Nat) (j : Nat) : Prop := ∀ q ∈ ns.take (j + 1), q < m.pageCount

instance (m : Manifest) (ns : List Nat) (j : Nat) : Decidable (Live m ns j) :=
  inferInstanceAs (Decidable (∀ q ∈ ns.take (j + 1), q < m.pageCount))

/-- The page an override stages for slot `j`. -/
def overStaged (m : Manifest) (gid : Nat) (ct : GroupContent) (j : Nat) : Option Bytes :=
  if 0 < m.subPagesPerFrame then
    (ct.overFrames (j / m.subPagesPerFrame)).bind fun os =>
      if Live m (block m.subPagesPerFrame (j / m.subPagesPerFrame) (m.groupPageNums gid))
          (j % m.subPagesPerFrame) then os[j % m.subPagesPerFrame]? else none
  else none

/-- The page the base object stages for slot `j`. -/
def baseStaged (m : Manifest) (gid : Nat) (ct : GroupContent) (j : Nat) : Option Bytes :=
  if Live m (m.groupPageNums gid) j then ct.base[j]? else none

/-- What is staged for slot `j` of a group: an override is staged after the base object. -/
def slotStaged (m : Manifest) (gid : Nat) (ct : GroupContent) (j : Nat) : Option Bytes :=
  (overStaged m gid ct j).or (baseStaged m gid ct j)

/-- When the file and a cold read have the same page in slot `j` of a group, where the groups before
stage `earlier` for it. -/
structure SlotAgrees (m : Manifest) (gid : Nat) (ct : GroupContent) (j : Nat)
    (earlier : Option Bytes) : Prop where
  /-- The group has an object. -/
  keyed : (m.groupKey gid).isSome
  /-- The base object has the slot's frame; a legacy object has a page for every page listed. -/
  reached : if m.hasFrames gid then j / m.subPagesPerFrame * m.subPagesPerFrame < ct.base.length
    else (m.groupPageNums gid).length ≤ ct.base.length
  /-- No override changes a page of a legacy group: cold reads do not look at it. -/
  unframed : m.hasFrames gid = false → ∀ x, overStaged m gid ct j = some x → ct.base[j]? = some x
  /-- Nothing is staged for a slot behind a page past the end or behind the end of the base object.
  Then the page is what the groups before stage for it, or zeros. -/
  skipped : slotStaged m gid ct j = none →
    slotBytes m gid ct j = some (earlier.getD (zeroPage m))

/-- What the groups below `n` stage for a page: the last of them that lists it decides. -/
def stagedBelow (m : Manifest) (ct : Nat → GroupContent) : Nat → Nat → Option Bytes
  | 0, _ => none
  | n + 1, p =>
    if (m.groupKey n).isSome ∧ p ∈ m.groupPageNums n then
      (slotStaged m n (ct n) ((m.groupPageNums n).idxOf p)).or (stagedBelow m ct n p)
    else stagedBelow m ct n p

variable {m : Manifest}

theorem getElem?_takeWhile (ns : List Nat) (j : Nat) :
    (ns.takeWhile (· < m.pageCount))[j]? = if Live m ns j then ns[j]? else none := by
  induction ns generalizing j with
  | nil => simp
  | cons q ns ih =>
    rw [List.takeWhile_cons]
    by_cases hq : q < m.pageCount
    · cases j with
      | zero => simp [Live, hq]
      | succ j =>
        have hlive : Live m (q :: ns) (j + 1) ↔ Live m ns j := by simp [Live, hq]
        simp only [hq, decide_true, if_true, List.getElem?_cons_succ, ih, hlive]
    · simp [Live, hq]

/-- Installing the live pages of a list from a buffer of pages. -/
theorem install_live {c : PageMap} {ps : Nat} (hps : 0 < ps) {ns : List Nat} (hnd : ns.Nodup)
    {D : List Bytes} (hu : Uniform ps D) {j p : Nat} (hp : ns[j]? = some p) :
    c.install (PageMap.scatter ps (ns.takeWhile (· < m.pageCount)) D.flatten) p =
      (if Live m ns j then D[j]? else none).or (c p) := by
  by_cases hlive : Live m ns j
  · have hj : (ns.takeWhile (· < m.pageCount))[j]? = some p := by
      rw [getElem?_takeWhile, if_pos hlive, hp]
    rw [if_pos hlive, PageMap.install_scatter (hnd.sublist (List.takeWhile_sublist _)) hj,
      length_flatten_of_uniform hu, Nat.mul_div_cancel _ hps]
    split
    · rename_i hlt
      rw [block_flatten hu hlt, List.getElem?_eq_getElem hlt]
      rfl
    · rename_i hge
      rw [List.getElem?_eq_none (Nat.le_of_not_lt hge)]
      rfl
  · rw [if_neg hlive, PageMap.install_scatter_of_notMem]
    · rfl
    · intro hmem
      obtain ⟨k, hk⟩ := List.mem_iff_getElem?.mp hmem
      rw [getElem?_takeWhile] at hk
      split at hk
      · rename_i hlive'
        obtain ⟨hlt, he⟩ := List.getElem?_eq_some_iff.mp hp
        obtain ⟨hlt', he'⟩ := List.getElem?_eq_some_iff.mp hk
        have hkj : k = j := (List.Nodup.getElem_inj_iff hnd).mp (he'.trans he.symm)
        exact hlive (hkj ▸ hlive')
      · cases hk

/-- A live slot is below the page count. -/
theorem lt_of_live {ns : List Nat} (hnd : ns.Nodup) {j : Nat} (hj : j < ns.length)
    (h : Live m ns j) : j < m.pageCount := by
  have hle := Manifest.length_le_of_forall_lt (hnd.sublist (List.take_sublist (j + 1) _)) h
  rw [List.length_take] at hle
  omega

variable {i : Materialize} {gid : Nat} {ct : GroupContent}

/-- What a successful decode of the base object gives. -/
theorem decodeGroup_inv (hc : i.cfg.codecs.Lawful)
    (h : HoldsGroup i.cfg i.manifest i.backend gid ct) (hps : 0 < i.manifest.pageSize)
    {key : ObjectKey} (hkey : i.manifest.groupKey gid = some key) {data decoded : Bytes}
    (hdata : i.backend.objects key = some data) (hd : i.decodeGroup gid data = .ok decoded) :
    decoded = (decodedPages i.manifest gid ct.base).flatten := by
  obtain ⟨key', data', hkey', hdata', hseek, hleg⟩ := h.base
  rw [hkey] at hkey'
  cases hkey'
  rw [hdata] at hdata'
  cases hdata'
  unfold decodeGroup at hd
  unfold decodedPages
  cases hf : i.manifest.hasFrames gid with
  | true =>
    simp only [hf, if_true] at hd ⊢
    obtain ⟨out, hout, he⟩ := bind_eq_ok.mp hd
    cases he
    rw [(hseek hf).decode_inv hc (hasFrames_iff.mp hf).1 hps (h.length_lt hps) (.inl rfl) hout]
  | false =>
    simp only [hf, Bool.false_eq_true, if_false] at hd ⊢
    obtain ⟨out, hout, he⟩ := bind_eq_ok.mp hd
    cases he
    rw [(hleg hf).decode_inv hc (.inl rfl) hout]

/-- What a staged override is: the pages of its frame, which it covers. -/
theorem stageOverride_inv (hc : i.cfg.codecs.Lawful) (hps : 0 < i.manifest.pageSize) {f : Nat}
    {ovr : SubframeOverride} {os : List Bytes}
    (h : HoldsOver i.cfg i.manifest i.backend gid f (some ovr) (some os))
    {ws : List (Nat × Bytes)} (hw : i.stageOverride gid f ovr = .ok ws) :
    (block i.manifest.subPagesPerFrame f (i.manifest.groupPageNums gid)).length ≤ os.length ∧
      ws = PageMap.scatter i.manifest.pageSize
        ((block i.manifest.subPagesPerFrame f (i.manifest.groupPageNums gid)).takeWhile
          (· < i.manifest.pageCount)) os.flatten := by
  obtain ⟨data, os', hdata, hos, hholds, -⟩ := h
  cases hos
  unfold stageOverride at hw
  simp only [Backend.getPageGroup, hdata] at hw
  obtain ⟨raw, hraw, hw⟩ := bind_eq_ok.mp hw
  obtain ⟨rfl, -⟩ := hholds.opens.openFrame_dict hc (.inl rfl) hraw
  rw [length_flatten_of_uniform hholds.uniform] at hw
  split at hw
  · rename_i hnil
    cases hw
    rw [hnil]
    exact ⟨Nat.zero_le _, by simp [PageMap.scatter]⟩
  · split at hw
    · cases hw
    · rename_i hle
      cases hw
      exact ⟨Nat.le_of_mul_le_mul_right (Nat.le_of_not_lt hle) hps, rfl⟩

theorem install_append (c : PageMap) (ws ws' : List (Nat × Bytes)) :
    c.install (ws ++ ws') = (c.install ws).install ws' := by
  rw [PageMap.install, List.foldl_append]
  rfl

/-- The overrides of a group, one after the other. -/
theorem install_overrides {c : PageMap} {W : (Sigma fun _ : Nat => SubframeOverride) → List (Nat × Bytes)}
    {es : List (Sigma fun _ : Nat => SubframeOverride)} {f p : Nat} {x : Option Bytes}
    (h : ∀ e ∈ es, ∀ c : PageMap, c.install (W e) p = (if e.1 = f then x else none).or (c p)) :
    c.install (es.flatMap W) p = (if f ∈ es.map (·.1) then x else none).or (c p) := by
  induction es generalizing c with
  | nil => simp [PageMap.install]
  | cons e es ih =>
    rw [List.flatMap_cons, install_append, ih fun e' he' => h e' (List.mem_cons_of_mem _ he'),
      h e List.mem_cons_self]
    simp only [List.map_cons, List.mem_cons]
    by_cases hf : e.1 = f
    · rw [if_pos hf, if_pos (show f = e.1 ∨ f ∈ es.map (·.1) from .inl hf.symm)]
      split
      · cases x <;> rfl
      · rfl
    · have hf' : ¬ f = e.1 := fun h => hf h.symm
      simp only [hf, hf', if_false, false_or, Option.none_or]

/-- One staged override at a slot of its group. -/
theorem install_stageOverride (hc : i.cfg.codecs.Lawful)
    (h : HoldsGroup i.cfg i.manifest i.backend gid ct) (hps : 0 < i.manifest.pageSize)
    (hspf : 0 < i.manifest.subPagesPerFrame) (hnd : (i.manifest.groupPageNums gid).Nodup) {j p : Nat}
    (hp : (i.manifest.groupPageNums gid)[j]? = some p) {f : Nat} {ovr : SubframeOverride}
    (hl : (i.manifest.overrides gid).lookup f = some ovr) {ws : List (Nat × Bytes)}
    (hw : i.stageOverride gid f ovr = .ok ws) (c : PageMap) :
    c.install ws p = (if f = j / i.manifest.subPagesPerFrame then overStaged i.manifest gid ct j
      else none).or (c p) := by
  have hover := h.overFrames f
  rw [hl] at hover
  obtain ⟨data, os, hdata, hos, hholds⟩ := hover
  obtain ⟨-, rfl⟩ := stageOverride_inv hc hps ⟨data, os, hdata, rfl, hholds⟩ hw
  have hfnd : (block i.manifest.subPagesPerFrame f (i.manifest.groupPageNums gid)).Nodup :=
    (hnd.sublist (List.drop_sublist _ _)).sublist (List.take_sublist _ _)
  split
  · rename_i hf
    subst hf
    have hslot : (block i.manifest.subPagesPerFrame (j / i.manifest.subPagesPerFrame)
        (i.manifest.groupPageNums gid))[j % i.manifest.subPagesPerFrame]? = some p := by
      rw [getElem?_block_div hspf, hp]
    rw [install_live hps hfnd hholds.1.uniform hslot, overStaged, if_pos hspf, hos]
    rfl
  · rename_i hf
    rw [PageMap.install_scatter_of_notMem]
    · rfl
    · intro hmem
      exact hf (mem_block_slot hnd hspf hp ((List.takeWhile_sublist _).mem hmem)).symm

/-- The staged overrides of a group at one of its slots. -/
theorem install_stageOverrides (hc : i.cfg.codecs.Lawful)
    (h : HoldsGroup i.cfg i.manifest i.backend gid ct) (hps : 0 < i.manifest.pageSize)
    (hnd : (i.manifest.groupPageNums gid).Nodup) {ws : List (Nat × Bytes)}
    (hw : i.stageOverrides gid = .ok ws) {j p : Nat}
    (hp : (i.manifest.groupPageNums gid)[j]? = some p) (c : PageMap) :
    c.install ws p = (overStaged i.manifest gid ct j).or (c p) := by
  unfold stageOverrides at hw
  split at hw
  · rename_i hspf
    obtain ⟨ovs, hovs, hw⟩ := bind_eq_ok.mp hw
    cases hw
    rw [eq_map_of_mapM [] hovs, ← List.flatMap_def,
      install_overrides (x := overStaged i.manifest gid ct j) (f := j / i.manifest.subPagesPerFrame)]
    · congr 1
      split
      · rfl
      · rename_i hnone
        -- no override of the slot's frame
        have hl : (i.manifest.overrides gid).lookup (j / i.manifest.subPagesPerFrame) = none :=
          AList.lookup_eq_none.mpr hnone
        have hover := h.overFrames (j / i.manifest.subPagesPerFrame)
        rw [hl] at hover
        rw [overStaged, if_pos hspf, show ct.overFrames _ = none from hover]
        rfl
    · intro e he c
      obtain ⟨W, -, hW⟩ := ok_of_mapM hovs he
      rw [hW]
      exact install_stageOverride hc h hps hspf hnd hp (lookup_of_mem_entries he) hW c
  · rename_i hspf
    cases hw
    rw [overStaged, if_neg hspf]
    rfl

/-- A staged group at one of its slots. -/
theorem install_stageGroup (hc : i.cfg.codecs.Lawful)
    (h : HoldsGroup i.cfg i.manifest i.backend gid ct) (hps : 0 < i.manifest.pageSize)
    (hnd : (i.manifest.groupPageNums gid).Nodup) {key : ObjectKey}
    (hkey : i.manifest.groupKey gid = some key) {ws : List (Nat × Bytes)}
    (hw : i.stageGroup gid key = .ok ws) {j p : Nat}
    (hp : (i.manifest.groupPageNums gid)[j]? = some p) (c : PageMap) :
    c.install ws p = (slotStaged i.manifest gid ct j).or (c p) := by
  unfold stageGroup at hw
  split at hw
  · cases hw
  · rename_i data hdata
    obtain ⟨decoded, hdec, hw⟩ := bind_eq_ok.mp hw
    obtain ⟨ovs, hovs, hw⟩ := bind_eq_ok.mp hw
    cases hw
    have hD := decodeGroup_inv hc h hps hkey hdata hdec
    subst hD
    rw [install_append, install_stageOverrides hc h hps hnd hovs hp, liveSlots,
      install_live hps hnd h.uniform_decoded hp, slotStaged, Option.or_assoc, baseStaged]
    congr 2
    split
    · rename_i hlive
      -- a live slot is below the page count, so the decoder did not cut it off
      have hj : j < (i.manifest.groupPageNums gid).length := (List.getElem?_eq_some_iff.mp hp).1
      have hpc := lt_of_live hnd hj hlive
      unfold decodedPages
      split
      · rw [List.getElem?_take_of_lt (lt_min hj hpc)]
      · rfl
    · rfl

/-! ### All groups -/

theorem of_mem_scatter {ps : Nat} {ns : List Nat} {data : Bytes} {w : Nat × Bytes}
    (h : w ∈ PageMap.scatter ps ns data) : w.1 ∈ ns ∧ w.2.length = ps := by
  obtain ⟨⟨p, k⟩, hpk, rfl⟩ := List.mem_map.mp h
  have hk := List.mem_zipIdx_iff_getElem?.mp hpk
  have hlt : k < data.length / ps := by
    have hlen := (List.getElem?_eq_some_iff.mp hk).1
    rw [List.length_take] at hlen
    exact lt_of_lt_of_le hlen (Nat.min_le_left ..)
  refine ⟨(List.take_sublist _ _).mem (List.mem_of_getElem? hk), ?_⟩
  have hle : (k + 1) * ps ≤ data.length :=
    le_trans (Nat.mul_le_mul_right _ hlt) (Nat.div_mul_le_self _ _)
  rw [Nat.add_one_mul] at hle
  show (block ps k data).length = ps
  rw [length_block]
  omega

/-- The shape of a staged write, whatever the backend holds. -/
def Staged (i : Materialize) (gid : Nat) (w : Nat × Bytes) : Prop :=
  w.1 ∈ i.manifest.groupPageNums gid ∧ w.1 < i.manifest.pageCount ∧
    w.2.length = i.manifest.pageSize

theorem staged_of_mem_scatter {ns : List Nat} (hsub : ∀ p ∈ ns, p ∈ i.manifest.groupPageNums gid)
    {data : Bytes} {w : Nat × Bytes} (hw : w ∈ PageMap.scatter i.manifest.pageSize
      (ns.takeWhile (· < i.manifest.pageCount)) data) : Staged i gid w := by
  obtain ⟨hmem, hlen⟩ := of_mem_scatter hw
  refine ⟨hsub _ ((List.takeWhile_sublist _).mem hmem), ?_, hlen⟩
  have hall := List.all_eq_true.mp (List.all_takeWhile (p := (· < i.manifest.pageCount)) (l := ns))
  exact of_decide_eq_true (hall _ hmem)

theorem staged_of_mem_override {f : Nat} {ovr : SubframeOverride} {ws : List (Nat × Bytes)}
    (h : i.stageOverride gid f ovr = .ok ws) {w : Nat × Bytes} (hw : w ∈ ws) : Staged i gid w := by
  unfold stageOverride at h
  split at h
  · cases h
  · obtain ⟨raw, -, h⟩ := bind_eq_ok.mp h
    dsimp only at h
    split at h
    · cases h
      cases hw
    · split at h
      · cases h
      · cases h
        refine staged_of_mem_scatter (fun p hp => ?_) hw
        exact List.mem_of_mem_drop (List.mem_of_mem_take hp)

theorem staged_of_mem_group {key : ObjectKey} {ws : List (Nat × Bytes)}
    (h : i.stageGroup gid key = .ok ws) {w : Nat × Bytes} (hw : w ∈ ws) : Staged i gid w := by
  unfold stageGroup at h
  split at h
  · cases h
  · obtain ⟨decoded, -, h⟩ := bind_eq_ok.mp h
    obtain ⟨ovs, hovs, h⟩ := bind_eq_ok.mp h
    cases h
    rcases List.mem_append.mp hw with hw | hw
    · exact staged_of_mem_scatter (fun p hp => hp) hw
    · unfold stageOverrides at hovs
      split at hovs
      · obtain ⟨wss, hwss, hovs⟩ := bind_eq_ok.mp hovs
        cases hovs
        obtain ⟨ws', hws', hw⟩ := List.mem_flatten.mp hw
        obtain ⟨e, -, he⟩ := mapM_inv hwss ws' hws'
        exact staged_of_mem_override he hw
      · cases hovs
        cases hw

theorem mem_keysWithGids {key : ObjectKey} :
    (gid, key) ∈ i.keysWithGids ↔ i.manifest.groupKey gid = some key := by
  unfold keysWithGids
  simp only [List.mem_filterMap, List.mem_range, Option.map_eq_some_iff, Prod.mk.injEq]
  constructor
  · rintro ⟨g, -, k, hk, rfl, rfl⟩
    exact hk
  · intro hk
    exact ⟨gid, (List.getElem?_eq_some_iff.mp (Manifest.getElem?_pageGroupKeys hk)).1, key, hk, rfl, rfl⟩

/-- The groups below `n`, one after the other. -/
theorem install_groups (ct : Nat → GroupContent) {W : Nat × ObjectKey → List (Nat × Bytes)} {p : Nat}
    (h : ∀ gid key, m.groupKey gid = some key → ∀ c : PageMap, c.install (W (gid, key)) p =
      (if p ∈ m.groupPageNums gid then slotStaged m gid (ct gid) ((m.groupPageNums gid).idxOf p)
        else none).or (c p)) (c : PageMap) (n : Nat) :
    c.install (((List.range n).filterMap fun gid =>
      (m.groupKey gid).map fun key => (gid, key)).flatMap W) p = (stagedBelow m ct n p).or (c p) := by
  induction n with
  | zero => simp [PageMap.install, stagedBelow]
  | succ n ih =>
    rw [List.range_succ, List.filterMap_append, List.flatMap_append, install_append, stagedBelow]
    cases hk : m.groupKey n with
    | none => simpa [hk, PageMap.install] using ih
    | some key =>
      simp only [List.filterMap_cons, List.filterMap_nil, hk, Option.map_some, List.flatMap_cons,
        List.flatMap_nil, List.append_nil, h n key hk, ih, Option.isSome_some, true_and]
      split
      · rw [Option.or_assoc]
      · rfl

/-! ### The output file -/

/-- Page-sized writes inside a file of pages replace the pages they name. -/
theorem writeAllAt_spec {ps n : Nat} {ws : List (Nat × Bytes)}
    (hws : ∀ w ∈ ws, w.1 < n ∧ w.2.length = ps) {xss : List Bytes} (hu : Uniform ps xss)
    (hlen : xss.length = n) {c : PageMap} (hc : ∀ p < n, xss[p]? = c p) :
    ∃ yss, writeAllAt ps xss.flatten ws = yss.flatten ∧ Uniform ps yss ∧ yss.length = n ∧
      ∀ p < n, yss[p]? = c.install ws p := by
  induction ws generalizing xss c with
  | nil => exact ⟨xss, rfl, hu, hlen, hc⟩
  | cons w ws ih =>
    obtain ⟨hlt, hsize⟩ := hws w List.mem_cons_self
    have hu1 : Uniform ps [w.2] := by
      intro x hx
      rw [List.mem_singleton.mp hx, hsize]
    have hfit : w.1 + [w.2].length ≤ xss.length := by
      rw [hlen]
      exact hlt
    have hsplice : splice xss.flatten (w.1 * ps) w.2 = (splice xss w.1 [w.2]).flatten := by
      rw [← splice_flatten hu hu1, List.flatten_singleton]
    have hnext : ∀ p < n, (splice xss w.1 [w.2])[p]? = Function.update c w.1 (some w.2) p := by
      intro p hp
      rw [getElem?_splice hfit, List.length_singleton]
      by_cases he : p = w.1
      · rw [he, if_pos ⟨Nat.le_refl _, Nat.lt_succ_self _⟩, Function.update_self, Nat.sub_self]
        rfl
      · rw [if_neg (by omega), Function.update_of_ne he, hc p hp]
    obtain ⟨yss, hy, hyu, hyl, hyp⟩ := ih (fun w' hw' => hws w' (List.mem_cons_of_mem _ hw'))
      (hu.splice hu1 w.1) (by rw [length_splice hfit, hlen]) hnext
    refine ⟨yss, ?_, hyu, hyl, hyp⟩
    rw [← hy, ← hsplice]
    rfl

/-! ### Locations -/

theorem mem_of_lookup_foldl_insert {es : List (Nat × PageLocation)} {idx : HMap Nat PageLocation}
    {p : Nat} {loc : PageLocation} (hp : p ∈ es.map (·.1))
    (h : (es.foldl (fun idx e => idx.insert e.1 e.2) idx).lookup p = some loc) : (p, loc) ∈ es := by
  induction es generalizing idx with
  | nil => cases hp
  | cons e es ih =>
    have hrest : (es.foldl (fun idx e => idx.insert e.1 e.2) (idx.insert e.1 e.2)).lookup p =
        some loc := h
    rcases Manifest.lookup_foldl_insert hrest with hmem | hidx
    · exact List.mem_cons_of_mem e hmem
    · rcases List.mem_cons.mp hp with rfl | hp
      · rw [AList.lookup_insert] at hidx
        cases hidx
        exact List.mem_cons_self
      · exact List.mem_cons_of_mem e (ih hp h)

theorem pageIndexOf_append (gps : List (List Nat)) (last : List Nat) :
    Manifest.pageIndexOf (gps ++ [last]) =
      (last.zipIdx.map fun pi => (pi.1, (⟨gps.length, pi.2⟩ : PageLocation))).foldl
        (fun idx e => idx.insert e.1 e.2) (Manifest.pageIndexOf gps) := by
  unfold Manifest.pageIndexOf Manifest.slotEntries
  rw [List.zipIdx_append, List.flatMap_append, List.foldl_append]
  simp

/-- Of the groups that list a page its location names the last. -/
theorem lookup_pageIndexOf_last {gps : List (List Nat)} {p g j : Nat}
    (h : (Manifest.pageIndexOf gps).lookup p = some ⟨g, j⟩) {g' : Nat}
    (hmem : p ∈ gps.getD g' []) : g' ≤ g := by
  induction gps using List.reverseRecOn generalizing g' with
  | nil => simp at hmem
  | append_singleton gps last ih =>
    rw [pageIndexOf_append] at h
    have hkeys : (last.zipIdx.map fun pi => (pi.1, (⟨gps.length, pi.2⟩ : PageLocation))).map (·.1) =
        last := by
      rw [List.map_map]
      exact List.zipIdx_map_fst 0 last
    have hle : g' ≤ gps.length := by
      by_contra hgt
      rw [List.getD_eq_getElem?_getD, List.getElem?_eq_none (by simp; omega)] at hmem
      cases hmem
    by_cases hlast : p ∈ last
    · obtain ⟨pi, -, he⟩ := List.mem_map.mp (mem_of_lookup_foldl_insert (hkeys.symm ▸ hlast) h)
      cases he
      exact hle
    · rcases Manifest.lookup_foldl_insert h with hm | hidx
      · exact absurd (hkeys ▸ List.mem_map_of_mem (f := (·.1)) hm) hlast
      · refine ih hidx ?_
        rw [List.getD_eq_getElem?_getD] at hmem ⊢
        rcases Nat.lt_or_eq_of_le hle with hlt | rfl
        · rwa [List.getElem?_append_left hlt] at hmem
        · rw [List.getElem?_concat_length] at hmem
          exact absurd hmem hlast

/-- The groups after a page's location do not list it. -/
theorem notMem_after (hidx : m.Indexed) {p gid j : Nat}
    (hloc : m.pageLocation p = some ⟨gid, j⟩) {g : Nat} (hg : gid < g) : p ∉ m.groupPageNums g := by
  intro hmem
  cases hst : m.strategy with
  | positional =>
    rw [Manifest.groupPageNums_positional hst, List.mem_range'_1] at hmem
    simp only [Manifest.pageLocation, hst] at hloc
    split at hloc
    · cases hloc
    · rename_i hppg
      cases hloc
      have hpos : 0 < m.pagesPerGroup := by omega
      have hlt : p < g * m.pagesPerGroup := (Nat.div_lt_iff_lt_mul hpos).mp hg
      omega
  | bTreeAware =>
    rw [Manifest.groupPageNums_bTreeAware hst] at hmem
    have hl : (Manifest.pageIndexOf m.groupPages).lookup p = some ⟨gid, j⟩ := by
      rw [← hidx.bTreeAware hst p]
      simpa only [Manifest.pageLocation, hst] using hloc
    exact absurd (lookup_pageIndexOf_last hl hmem) (Nat.not_le.mpr hg)

/-- A page that a group lists has a location. -/
theorem isSome_pageLocation_of_mem (hidx : m.Indexed) {p g : Nat} (hp : p < m.pageCount)
    (hmem : p ∈ m.groupPageNums g) : (m.pageLocation p).isSome := by
  cases hst : m.strategy with
  | positional =>
    rw [Manifest.groupPageNums_positional hst, List.mem_range'_1] at hmem
    simp only [Manifest.pageLocation, hst]
    rw [if_neg]
    · rfl
    · rintro (h0 | hle)
      · rw [h0] at hmem
        omega
      · omega
  | bTreeAware =>
    rw [Manifest.groupPageNums_bTreeAware hst] at hmem
    obtain ⟨k, hk⟩ := List.mem_iff_getElem?.mp hmem
    have hsome := Manifest.pageIndexOf_complete hk
    rw [← hidx.bTreeAware hst p] at hsome
    simpa only [Manifest.pageLocation, hst] using hsome

theorem idxOf_of_nodup {ns : List Nat} (hnd : ns.Nodup) {j p : Nat} (hp : ns[j]? = some p) :
    ns.idxOf p = j := by
  obtain ⟨hlt, rfl⟩ := List.getElem?_eq_some_iff.mp hp
  exact List.Nodup.idxOf_getElem hnd j hlt

variable {ct : Nat → GroupContent}

/-- What all groups stage for a page is staged by the group of its location, or before. -/
theorem stagedBelow_located (hidx : m.Indexed) (hnd : ∀ g, (m.groupPageNums g).Nodup) {p gid j : Nat}
    (hloc : m.pageLocation p = some ⟨gid, j⟩) {n : Nat} (hn : gid < n) :
    stagedBelow m ct n p = if (m.groupKey gid).isSome then
      (slotStaged m gid (ct gid) j).or (stagedBelow m ct gid p) else stagedBelow m ct gid p := by
  induction n with
  | zero => omega
  | succ n ih =>
    rw [stagedBelow]
    rcases Nat.lt_or_eq_of_le (Nat.le_of_lt_succ hn) with hlt | rfl
    · rw [if_neg fun h => notMem_after hidx hloc hlt h.2, ih hlt]
    · have hslot := hidx.located hloc
      rw [idxOf_of_nodup (hnd gid) hslot]
      simp [List.mem_of_getElem? hslot]

theorem stagedBelow_unlisted {p : Nat} (h : ∀ g, p ∉ m.groupPageNums g) (n : Nat) :
    stagedBelow m ct n p = none := by
  induction n with
  | zero => rfl
  | succ n ih => rw [stagedBelow, if_neg fun hn => h n hn.2, ih]

end Staged

/-! ### Successful runs -/

variable {i}

theorem stagedWrites_inv {ws : List (Nat × Bytes)} (h : i.stagedWrites = .ok ws) :
    ws = i.keysWithGids.flatMap (fun gk => (i.stageGroup gk.1 gk.2).toOption.getD []) ∧
      ∀ gid key, i.manifest.groupKey gid = some key → ∃ W, i.stageGroup gid key = .ok W := by
  obtain ⟨groups, hgroups, hws⟩ := bind_eq_ok.mp h
  cases hws
  refine ⟨by rw [eq_map_of_mapM [] hgroups, List.flatMap_def], fun gid key hkey => ?_⟩
  obtain ⟨W, -, hW⟩ := ok_of_mapM hgroups (mem_keysWithGids.mpr hkey)
  exact ⟨W, hW⟩

theorem materialize_inv {cc : Nat} {out : Option Bytes}
    (h : i.materializeManifestToFile = (.ok cc, out)) :
    0 < i.manifest.pageSize ∧ ∃ ws, i.stagedWrites = .ok ws ∧
      out = some (writeAllAt i.manifest.pageSize
        (List.replicate (i.manifest.pageCount * i.manifest.pageSize) 0) ws) := by
  unfold materializeManifestToFile at h
  split at h
  · cases h
  · rename_i hne
    split at h
    · cases h
    · rename_i ws hws
      split at h
      · cases h
      · cases h
        exact ⟨by omega, ws, hws, rfl⟩

section Ok

variable {ct : Nat → GroupContent} {ws : List (Nat × Bytes)}

/-- A group that was staged has its object. -/
theorem holdsGroup_of_staged (hc : i.cfg.codecs.Lawful)
    (hst : Stored i.cfg i.manifest i.backend ct) (hws : i.stagedWrites = .ok ws) {gid : Nat}
    (hkey : (i.manifest.groupKey gid).isSome) : HoldsGroup i.cfg i.manifest i.backend gid (ct gid) := by
  rcases hst.holds gid hkey with h | h
  · exact h
  · obtain ⟨key, hk, hobj⟩ := h.object
    obtain ⟨W, hW⟩ := (stagedWrites_inv hws).2 gid key hk
    have hf : i.manifest.hasFrames gid = false := by simp [Manifest.hasFrames, h.frameTable]
    unfold stageGroup at hW
    simp only [Backend.getPageGroup, hobj] at hW
    obtain ⟨decoded, hdec, -⟩ := bind_eq_ok.mp hW
    unfold decodeGroup at hdec
    simp only [hf, Bool.false_eq_true, if_false] at hdec
    obtain ⟨out, hout, -⟩ := bind_eq_ok.mp hdec
    obtain ⟨bulk, hbulk, -⟩ := bind_eq_ok.mp hout
    exact absurd hbulk (CodecConfig.decodeBulk_nil hc _ _ _)

/-- The staged overrides cover their frames. -/
theorem covers_of_staged (hc : i.cfg.codecs.Lawful) (hst : Stored i.cfg i.manifest i.backend ct)
    (hws : i.stagedWrites = .ok ws) {gid : Nat} (hkey : (i.manifest.groupKey gid).isSome)
    (hspf : 0 < i.manifest.subPagesPerFrame) {f : Nat} {os : List Bytes}
    (hos : (ct gid).overFrames f = some os) :
    (block i.manifest.subPagesPerFrame f (i.manifest.groupPageNums gid)).length ≤ os.length := by
  obtain ⟨key, hk⟩ := Option.isSome_iff_exists.mp hkey
  obtain ⟨W, hW⟩ := (stagedWrites_inv hws).2 gid key hk
  have hover := (holdsGroup_of_staged hc hst hws hkey).overFrames f
  rw [hos] at hover
  cases hl : (i.manifest.overrides gid).lookup f with
  | none =>
    rw [hl] at hover
    cases hover
  | some ovr =>
    rw [hl] at hover
    unfold stageGroup at hW
    split at hW
    · cases hW
    · obtain ⟨decoded, -, hW⟩ := bind_eq_ok.mp hW
      obtain ⟨ovs, hovs, -⟩ := bind_eq_ok.mp hW
      unfold stageOverrides at hovs
      rw [if_pos hspf] at hovs
      obtain ⟨wss, hwss, -⟩ := bind_eq_ok.mp hovs
      obtain ⟨W', -, hW'⟩ := ok_of_mapM hwss (mem_entries_of_lookup hl)
      exact (stageOverride_inv hc hst.pageSize_pos hover hW').1

/-- The pages of the file. -/
theorem file_pages (hc : i.cfg.codecs.Lawful) (hst : Stored i.cfg i.manifest i.backend ct)
    (hws : i.stagedWrites = .ok ws) :
    ∃ yss, writeAllAt i.manifest.pageSize
        (List.replicate (i.manifest.pageCount * i.manifest.pageSize) 0) ws = yss.flatten ∧
      Uniform i.manifest.pageSize yss ∧ yss.length = i.manifest.pageCount ∧
      ∀ p < i.manifest.pageCount, yss[p]? = some ((stagedBelow i.manifest ct
        i.manifest.pageGroupKeys.length p).getD (zeroPage i.manifest)) := by
  obtain ⟨hflat, hgroups⟩ := stagedWrites_inv hws
  have hmem : ∀ w ∈ ws, w.1 < i.manifest.pageCount ∧ w.2.length = i.manifest.pageSize := by
    intro w hw
    rw [hflat] at hw
    obtain ⟨⟨gid, key⟩, hgk, hw⟩ := List.mem_flatMap.mp hw
    obtain ⟨W, hW⟩ := hgroups gid key (mem_keysWithGids.mp hgk)
    rw [hW] at hw
    exact (staged_of_mem_group hW hw).2
  have hzero : List.replicate (i.manifest.pageCount * i.manifest.pageSize) 0 =
      (List.replicate i.manifest.pageCount (zeroPage i.manifest)).flatten := by
    rw [zeroPage, List.flatten_replicate_replicate]
  have hu : Uniform i.manifest.pageSize
      (List.replicate i.manifest.pageCount (zeroPage i.manifest)) := by
    intro x hx
    rw [List.eq_of_mem_replicate hx, zeroPage, List.length_replicate]
  obtain ⟨yss, hy, hyu, hyl, hyp⟩ := writeAllAt_spec hmem hu List.length_replicate
    (c := fun _ => some (zeroPage i.manifest)) (fun p hp => by simp [hp])
  refine ⟨yss, by rw [hzero, hy], hyu, hyl, fun p hp => ?_⟩
  rw [hyp p hp, hflat, keysWithGids, install_groups ct]
  · cases stagedBelow i.manifest ct i.manifest.pageGroupKeys.length p <;> rfl
  · intro gid key hkey c
    obtain ⟨W, hW⟩ := hgroups gid key hkey
    rw [hW]
    show c.install W p = _
    split
    · rename_i hin
      obtain ⟨j, hj⟩ := List.mem_iff_getElem?.mp hin
      have hnd := Manifest.nodup_groupPageNums hst.nodup gid
      have hholds := holdsGroup_of_staged hc hst hws (Option.isSome_of_mem hkey)
      rw [idxOf_of_nodup hnd hj]
      exact install_stageGroup hc hholds hst.pageSize_pos hnd hkey hW hj c
    · rename_i hout
      rw [PageMap.install_of_notMem]
      · rfl
      · intro hin
        obtain ⟨w, hw, rfl⟩ := List.mem_map.mp hin
        exact hout (staged_of_mem_group hW hw).1

end Ok

/-! ### Agreement -/

theorem Live.block {m : Manifest} {ns : List Nat} {j : Nat} (h : Live m ns j) {k : Nat} :
    Live m (Blocks.block k (j / k) ns) (j % k) := by
  intro q hq
  obtain ⟨r, hr⟩ := List.mem_iff_getElem?.mp hq
  have hlt : r < j % k + 1 := by
    by_contra hge
    rw [List.getElem?_take_eq_none (Nat.le_of_not_lt hge)] at hr
    cases hr
  rw [List.getElem?_take_of_lt hlt, getElem?_block] at hr
  split at hr
  · have hle : j / k * k + r < j + 1 := by
      have := Nat.div_add_mod' j k
      omega
    rw [← List.getElem?_take_of_lt hle] at hr
    exact h q (List.mem_of_getElem? hr)
  · cases hr

/-- A slot of a group with frames that is staged is staged as it is read. -/
theorem staged_eq_frame {m : Manifest} {gid j : Nat} {ct : GroupContent}
    (hspf : 0 < m.subPagesPerFrame) (hj : j < (m.groupPageNums gid).length)
    (hcov : ∀ os, ct.overFrames (j / m.subPagesPerFrame) = some os →
      (block m.subPagesPerFrame (j / m.subPagesPerFrame) (m.groupPageNums gid)).length ≤ os.length)
    {x : Bytes} (h : slotStaged m gid ct j = some x) :
    (ct.frame m.subPagesPerFrame (j / m.subPagesPerFrame))[j % m.subPagesPerFrame]? = some x := by
  unfold slotStaged overStaged at h
  rw [if_pos hspf] at h
  unfold GroupContent.frame
  cases ho : ct.overFrames (j / m.subPagesPerFrame) with
  | none =>
    rw [ho, Option.bind_none, Option.none_or, baseStaged] at h
    split at h
    · show (block _ _ ct.base)[_]? = _
      rw [getElem?_block_div hspf]
      exact h
    · cases h
  | some os =>
    rw [ho, Option.bind_some] at h
    have hmod : j % m.subPagesPerFrame < os.length := by
      refine lt_of_lt_of_le ?_ (hcov os ho)
      have := Nat.mod_lt j hspf
      have := Nat.div_add_mod' j m.subPagesPerFrame
      rw [length_block]
      omega
    show os[_]? = _
    by_cases hlive : Live m (block m.subPagesPerFrame (j / m.subPagesPerFrame)
        (m.groupPageNums gid)) (j % m.subPagesPerFrame)
    · rw [if_pos hlive, List.getElem?_eq_getElem hmod] at h
      rw [List.getElem?_eq_getElem hmod]
      exact h
    · -- then the group has a page past the end before the slot as well
      have hbase : baseStaged m gid ct j = none := if_neg fun hb => hlive hb.block
      rw [if_neg hlive, hbase] at h
      cases h

/-- A cold read of a slot returns what is staged for it, exactly when the slot agrees. -/
theorem slotAgrees_iff {m : Manifest} {gid j : Nat} {ct : GroupContent}
    (hj : j < (m.groupPageNums gid).length)
    (hcov : 0 < m.subPagesPerFrame → ∀ os, ct.overFrames (j / m.subPagesPerFrame) = some os →
      (block m.subPagesPerFrame (j / m.subPagesPerFrame) (m.groupPageNums gid)).length ≤ os.length)
    (earlier : Option Bytes) :
    ((m.groupKey gid).isSome ∧ slotBytes m gid ct j =
        some (((slotStaged m gid ct j).or earlier).getD (zeroPage m))) ↔
      SlotAgrees m gid ct j earlier := by
  constructor
  · intro ⟨hkey, h⟩
    refine ⟨hkey, ?_, fun hf x hx => ?_, fun hnone => by rw [h, hnone]; rfl⟩
    · unfold slotBytes at h
      split at h
      · rename_i hf
        rw [if_pos hf]
        -- a slot that the frames do not reach has no bytes
        by_contra hlt
        rw [if_neg hlt] at h
        cases h
      · rename_i hf
        rw [if_neg hf]
        by_contra hlt
        rw [if_neg hlt] at h
        cases h
    · have hst : slotStaged m gid ct j = some x := by rw [slotStaged, hx]; rfl
      rw [hst, slotBytes, hf] at h
      simp only [Bool.false_eq_true, if_false] at h
      split at h
      · exact h
      · cases h
  · intro ha
    refine ⟨ha.keyed, ?_⟩
    cases hst : slotStaged m gid ct j with
    | none =>
      rw [ha.skipped hst]
      rfl
    | some x =>
      show _ = some x
      have hreached := ha.reached
      unfold slotBytes
      cases hf : m.hasFrames gid with
      | true =>
        rw [hf] at hreached
        have hspf := (hasFrames_iff.mp hf).1
        rw [if_pos rfl] at hreached ⊢
        rw [if_pos hreached, staged_eq_frame hspf hj (hcov hspf) hst]
        rfl
      | false =>
        rw [hf] at hreached
        simp only [Bool.false_eq_true, if_false] at hreached ⊢
        rw [if_pos hreached]
        -- without frames an override is not read, so it has to be the base page
        cases hover : overStaged m gid ct j with
        | some y =>
          rw [slotStaged, hover] at hst
          cases hst
          exact ha.unframed hf x hover
        | none =>
          rw [slotStaged, hover, Option.none_or, baseStaged] at hst
          split at hst
          · exact hst
          · cases hst

/-- The page of a file of pages. -/
theorem block_of_getElem? {ps p : Nat} {yss : List Bytes} (hu : Uniform ps yss) {x : Bytes}
    (h : yss[p]? = some x) : block ps p yss.flatten = x := by
  obtain ⟨hlt, rfl⟩ := List.getElem?_eq_some_iff.mp h
  exact block_flatten hu hlt

/-- The file of a successful run agrees exactly when every slot below the page count does. -/
theorem agrees_iff (hc : i.cfg.codecs.Lawful) {ct : Nat → GroupContent}
    (hst : Stored i.cfg i.manifest i.backend ct) {ws : List (Nat × Bytes)}
    (hws : i.stagedWrites = .ok ws) :
    i.Agrees (writeAllAt i.manifest.pageSize
        (List.replicate (i.manifest.pageCount * i.manifest.pageSize) 0) ws) ↔
      ∀ p < i.manifest.pageCount, ∀ gid j, i.manifest.pageLocation p = some ⟨gid, j⟩ →
        SlotAgrees i.manifest gid (ct gid) j (stagedBelow i.manifest ct gid p) := by
  obtain ⟨yss, hy, hyu, hyl, hyp⟩ := file_pages hc hst hws
  have hlen : yss.flatten.length = i.manifest.pageCount * i.manifest.pageSize := by
    rw [length_flatten_of_uniform hyu, hyl]
  have hnd := Manifest.nodup_groupPageNums hst.nodup
  rw [hy]
  -- page by page: what a cold read returns is what is staged
  have hpage : ∀ p < i.manifest.pageCount,
      (coldRead i.cfg i.manifest i.backend p = .ok (block i.manifest.pageSize p yss.flatten) ↔
        ∀ gid j, i.manifest.pageLocation p = some ⟨gid, j⟩ →
          SlotAgrees i.manifest gid (ct gid) j (stagedBelow i.manifest ct gid p)) := by
    intro p hp
    rw [block_of_getElem? hyu (hyp p hp), hst.coldRead_iff hc, coldBytes,
      if_neg (Nat.not_le.mpr hp)]
    cases hloc : i.manifest.pageLocation p with
    | none =>
      have hout : ∀ g, p ∉ i.manifest.groupPageNums g := by
        intro g hg
        have hsome := isSome_pageLocation_of_mem hst.indexed hp hg
        rw [hloc] at hsome
        cases hsome
      simp [stagedBelow_unlisted hout]
    | some loc =>
      obtain ⟨gid, j⟩ := loc
      have hslot := hst.indexed.located hloc
      have hj : j < (i.manifest.groupPageNums gid).length := (List.getElem?_eq_some_iff.mp hslot).1
      have hall : (∀ g k, some (⟨gid, j⟩ : PageLocation) = some ⟨g, k⟩ →
          SlotAgrees i.manifest g (ct g) k (stagedBelow i.manifest ct g p)) ↔
            SlotAgrees i.manifest gid (ct gid) j (stagedBelow i.manifest ct gid p) := by
        constructor
        · intro h
          exact h gid j rfl
        · intro h g k he
          cases he
          exact h
      rw [hall]
      by_cases hkey : (i.manifest.groupKey gid).isSome
      · have hn : gid < i.manifest.pageGroupKeys.length := by
          obtain ⟨key, hk⟩ := Option.isSome_iff_exists.mp hkey
          exact (List.getElem?_eq_some_iff.mp (Manifest.getElem?_pageGroupKeys hk)).1
        rw [stagedBelow_located hst.indexed hnd hloc hn, if_pos hkey, ← slotAgrees_iff hj
          fun hspf os hos => covers_of_staged hc hst hws hkey hspf hos]
        simp only [hkey, if_true, true_and]
      · simp only [hkey]
        constructor
        · intro h
          cases h
        · intro h
          exact absurd h.keyed hkey
  constructor
  · intro ha p hp
    exact (hpage p hp).mp (ha.pages p hp)
  · intro h
    exact ⟨hlen, fun p hp => (hpage p hp).mpr (h p hp)⟩

/-! ### Failing runs -/

theorem decodeBase_of_decodeGroup (hd : i.cfg.ReadsPlain) {gid : Nat} {data decoded : Bytes}
    (h : i.decodeGroup gid data = .ok decoded) :
    ∃ out, decodeBase i.cfg i.manifest gid data = .ok out := by
  unfold decodeGroup at h
  unfold decodeBase
  split at h
  · rename_i hf
    obtain ⟨out, hout, -⟩ := bind_eq_ok.mp h
    rw [if_pos hf]
    exact ⟨out, hd.decodeSeekable hout⟩
  · rename_i hf
    obtain ⟨out, hout, -⟩ := bind_eq_ok.mp h
    obtain ⟨bulk, hbulk, -⟩ := bind_eq_ok.mp hout
    rw [if_neg hf]
    exact ⟨bulk, hd.decodeBulk hbulk⟩

/-- What was staged had every object, and the read paths decode it as well. -/
theorem usable_of_staged (hd : i.cfg.ReadsPlain) {ws : List (Nat × Bytes)}
    (hws : i.stagedWrites = .ok ws) : ¬ i.Unusable := by
  have hgroups := (stagedWrites_inv hws).2
  intro h
  cases h with
  | group gid key hkey hbad =>
    obtain ⟨W, hW⟩ := hgroups gid key hkey
    unfold stageGroup at hW
    split at hW
    · cases hW
    · rename_i data hdata
      obtain ⟨decoded, hdec, -⟩ := bind_eq_ok.mp hW
      obtain ⟨out, hout⟩ := decodeBase_of_decodeGroup hd hdec
      obtain ⟨e, he⟩ := hbad data hdata
      rw [hout] at he
      cases he
  | override gid key f ovr hkey hspf hl hbad =>
    obtain ⟨W, hW⟩ := hgroups gid key hkey
    unfold stageGroup at hW
    split at hW
    · cases hW
    · obtain ⟨decoded, -, hW⟩ := bind_eq_ok.mp hW
      obtain ⟨ovs, hovs, -⟩ := bind_eq_ok.mp hW
      unfold stageOverrides at hovs
      rw [if_pos hspf] at hovs
      obtain ⟨wss, hwss, -⟩ := bind_eq_ok.mp hovs
      obtain ⟨W', -, hW'⟩ := ok_of_mapM hwss (mem_entries_of_lookup hl)
      unfold stageOverride at hW'
      split at hW'
      · cases hW'
      · rename_i data hdata
        obtain ⟨raw, hraw, -⟩ := bind_eq_ok.mp hW'
        obtain ⟨e, he⟩ := hbad data hdata
        rw [CodecConfig.decodeSeekableSubchunk, hd.openFrame hraw] at he
        cases he

/-- Nothing is written before everything is staged. -/
theorem materialize_of_not_staged (h : ∀ ws, i.stagedWrites ≠ .ok ws) :
    ∃ e, i.materializeManifestToFile = (.error e, i.output) := by
  unfold materializeManifestToFile
  split
  · exact ⟨_, rfl⟩
  · split
    · exact ⟨_, rfl⟩
    · rename_i ws hws
      exact absurd hws (h ws)

/-- A missing or undecodable object makes the call fail with the output as it was, whatever the
manifest and the backend. When the call succeeds over stored objects, the output is the database of
the manifest exactly when every slot of a page agrees. -/
theorem materialize_agrees_iff (i : Materialize) (hc : i.cfg.codecs.Lawful) (hd : i.cfg.ReadsPlain) :
    (i.Unusable → ∃ e, i.materializeManifestToFile = (.error e, i.output)) ∧
      ∀ ct, Stored i.cfg i.manifest i.backend ct → ∀ cc out,
        i.materializeManifestToFile = (.ok cc, out) →
          ((∃ file, out = some file ∧ i.Agrees file) ↔
            ∀ p < i.manifest.pageCount, ∀ gid j, i.manifest.pageLocation p = some ⟨gid, j⟩ →
              SlotAgrees i.manifest gid (ct gid) j (stagedBelow i.manifest ct gid p)) := by
  constructor
  · intro hbad
    exact materialize_of_not_staged fun ws hws => usable_of_staged hd hws hbad
  · intro ct hst cc out hrun
    obtain ⟨-, ws, hws, rfl⟩ := materialize_inv hrun
    rw [← agrees_iff hc hst hws]
    constructor
    · intro ⟨file, hfile, ha⟩
      cases hfile
      exact ha
    · intro ha
      exact ⟨_, rfl, ha⟩

/-! ### Small databases -/

namespace Example

/-- Two pages, the second under an override; no file is there yet. -/
def overridden : Materialize where
  cfg := .plain
  backend := ReadPaths.Example.backend 3
  manifest := ReadPaths.Example.manifest
  output := none

/-- The same without its objects, over an old file. -/
def missing : Materialize where
  cfg := .plain
  backend := { objects := fun _ => none }
  manifest := ReadPaths.Example.manifest
  output := some [1, 2, 3]

/-- The base object of a group of three pages. -/
def group : Bytes × List FrameEntry :=
  CodecConfig.plain.encodePageGroupSeekable (aadPageGroup 0) 512 1
    [some (ReadPaths.Example.page 1), some (ReadPaths.Example.page 3), some (ReadPaths.Example.page 2)]

/-- Page 2, past the end, is listed before page 1. -/
def pastEnd : Materialize where
  cfg := .plain
  backend := { objects := fun k => if k = .pageGroup 0 1 then some group.1 else none }
  manifest :=
    { version := 1
      changeCounter := 1
      pageCount := 2
      pageSize := 512
      pagesPerGroup := 3
      pageGroupKeys := [some (.pageGroup 0 1)]
      frameTables := [group.2]
      subPagesPerFrame := 1
      strategy := .bTreeAware
      groupPages := [[0, 2, 1]]
      pageIndex := Manifest.pageIndexOf [[0, 2, 1]] }
  output := none

theorem slotAgrees {j : Nat} (hj : j < 2) (earlier : Option Bytes) :
    SlotAgrees ReadPaths.Example.manifest 0 (ReadPaths.Example.content 3 0) j earlier where
  keyed := rfl
  reached := by
    have hf : ReadPaths.Example.manifest.hasFrames 0 = true := by decide +kernel
    rw [if_pos hf, show ReadPaths.Example.manifest.subPagesPerFrame = 1 from rfl, Nat.div_one,
      Nat.mul_one]
    exact hj
  unframed := by
    intro hf
    have ht : ReadPaths.Example.manifest.hasFrames 0 = true := by decide +kernel
    rw [hf] at ht
    cases ht
  skipped := by
    intro hnone
    have hsome : ∀ k < 2, (slotStaged ReadPaths.Example.manifest 0
        (ReadPaths.Example.content 3 0) k).isSome = true := by decide +kernel
    have hj' := hsome j hj
    rw [hnone] at hj'
    cases hj'

end Example

theorem overridden_agrees :
    (∃ cc file, Example.overridden.materializeManifestToFile = (.ok cc, some file) ∧
      Example.overridden.Agrees file) ∧
    ∃ e, Example.missing.materializeManifestToFile = (.error e, some [1, 2, 3]) := by
  have hplain : CodecConfig.plain.ReadsPlain := fun _ _ h => h
  constructor
  · cases hrun : Example.overridden.materializeManifestToFile with
    | mk r out =>
      have hok : Example.overridden.materializeManifestToFile.1.toOption.isSome = true := by
        decide +kernel
      rw [hrun] at hok
      cases r with
      | error e => cases hok
      | ok cc =>
        have hiff := (materialize_agrees_iff Example.overridden Codecs.plain_lawful hplain).2 _
          (ReadPaths.Example.stored 3) cc out hrun
        obtain ⟨file, hfile, ha⟩ := hiff.mpr (by
          intro p hp gid j hloc
          have hg := ReadPaths.Example.group_eq_zero hloc
          subst hg
          have hslot := (ReadPaths.Example.stored 3).indexed.located hloc
          exact Example.slotAgrees (List.getElem?_eq_some_iff.mp hslot).1 _)
        rw [hfile]
        exact ⟨cc, file, rfl, ha⟩
  · refine (materialize_agrees_iff Example.missing Codecs.plain_lawful hplain).1 ?_
    refine .group 0 (.pageGroup 0 1) rfl fun data hdata => ?_
    cases hdata

/-- Staging stops at the page past the end: page 1 stays zero in the file. -/
theorem page_past_end_stops : ∃ cc file,
    Example.pastEnd.materializeManifestToFile = (.ok cc, some file) ∧
      coldRead .plain Example.pastEnd.manifest Example.pastEnd.backend 1 =
        .ok (ReadPaths.Example.page 2) ∧
      block 512 1 file = List.replicate 512 0 ∧ ¬ Example.pastEnd.Agrees file := by
  have hcold : (coldRead .plain Example.pastEnd.manifest Example.pastEnd.backend 1).toOption =
      some (ReadPaths.Example.page 2) := by decide +kernel
  have hok : Example.pastEnd.materializeManifestToFile.1.toOption.isSome = true := by decide +kernel
  have hout : (Example.pastEnd.materializeManifestToFile.2.map (block 512 1)) =
      some (List.replicate 512 0) := by decide +kernel
  have hread : coldRead .plain Example.pastEnd.manifest Example.pastEnd.backend 1 =
      .ok (ReadPaths.Example.page 2) := by
    cases hr : coldRead .plain Example.pastEnd.manifest Example.pastEnd.backend 1 with
    | error e =>
      rw [hr] at hcold
      cases hcold
    | ok d =>
      rw [hr] at hcold
      rw [Option.some.inj hcold]
  cases hrun : Example.pastEnd.materializeManifestToFile with
  | mk r out =>
    rw [hrun] at hok hout
    cases r with
    | error e => cases hok
    | ok cc =>
      obtain ⟨file, rfl, hblock⟩ := Option.map_eq_some_iff.mp hout
      refine ⟨cc, file, rfl, hread, hblock, fun ha => ?_⟩
      have hpage := ha.pages 1 (by decide)
      have hsame : ReadPaths.Example.page 2 = block 512 1 file :=
        Except.ok.inj (hread.symm.trans hpage)
      rw [hblock] at hsame
      exact absurd hsame (by decide +kernel)

end Materialize

end Turbolite
