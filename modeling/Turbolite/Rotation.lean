import Turbolite.ColdRead
import Turbolite.Serializers
import Turbolite.Writers

/-!
# Turbolite.Rotation

`rotate_encryption_key`: every group object and every bundle is decrypted with the old key, encrypted
with the new one under the identity of its slot and uploaded under a key of the next version; then the
manifest is stored, and the old objects are deleted. `None` on either side means plaintext.

Nothing is decompressed, so what a reader gets under the new key is decided frame by frame: a frame that
was recoded opens to what it opened to. The override frames are not recoded. They keep their objects,
and a page that is read from one depends on what its object opens to under the new key.
-/

namespace Turbolite

open Blocks Results ReadPaths

/-! ### Slots -/

/-- The identity an object is encrypted under. -/
def Slot.aad : Slot → Bytes
  | .group gid => aadPageGroup gid
  | .interior c => aadInteriorBundle c
  | .index c => aadIndexBundle c
  | .override gid f => aadOverrideFrame gid f

/-- What the error messages call an object. -/
def Slot.kind : Slot → String
  | .group _ => "Page group"
  | .interior _ => "Interior chunk"
  | .index _ => "Index chunk"
  | .override .. => "Override frame"

namespace Manifest

/-- The frame table of a slot; only groups have one. -/
def framesOf (m : Manifest) : Slot → List FrameEntry
  | .group gid => m.frameTable gid
  | _ => []

/-- What is recoded, in the order of the source. -/
def rotatedSlots (m : Manifest) : List Slot :=
  m.keyedGroups.map .group ++ m.interiorChunkKeys.keys.map .interior ++
    m.indexChunkKeys.keys.map .index

theorem nodup_rotatedSlots (m : Manifest) : m.rotatedSlots.Nodup := by
  have hgroups : (m.keyedGroups.map Slot.group).Nodup :=
    m.nodup_keyedGroups.map fun _ _ h => Slot.group.inj h
  have hinterior : (m.interiorChunkKeys.keys.map Slot.interior).Nodup :=
    m.interiorChunkKeys.nodupKeys.map fun _ _ h => Slot.interior.inj h
  have hindex : (m.indexChunkKeys.keys.map Slot.index).Nodup :=
    m.indexChunkKeys.nodupKeys.map fun _ _ h => Slot.index.inj h
  refine (hgroups.append hinterior ?_).append hindex ?_
  · intro s hs hs'
    obtain ⟨g, -, rfl⟩ := List.mem_map.mp hs
    simp at hs'
  · intro s hs hs'
    obtain ⟨c, -, rfl⟩ := List.mem_map.mp hs'
    simp at hs

theorem mem_keyedGroups {m : Manifest} {gid : Nat} :
    gid ∈ m.keyedGroups ↔ (m.groupKey gid).isSome := by
  simp only [keyedGroups, List.mem_filter, List.mem_range, and_iff_right_iff_imp]
  intro h
  by_contra hge
  have hnone : m.groupKey gid = none := by
    simp [groupKey, List.getD_eq_getElem?_getD, List.getElem?_eq_none (Nat.le_of_not_lt hge)]
  rw [hnone] at h
  cases h

theorem mem_rotatedSlots {m : Manifest} {s : Slot} :
    s ∈ m.rotatedSlots ↔ (m.keyAt s).isSome ∧ ∀ gid f, s ≠ .override gid f := by
  cases s with
  | group gid => simp [rotatedSlots, keyAt, mem_keyedGroups]
  | interior c => simp [rotatedSlots, keyAt, AList.lookup_isSome, AList.mem_keys]
  | index c => simp [rotatedSlots, keyAt, AList.lookup_isSome, AList.mem_keys]
  | override gid f => simp [rotatedSlots]

end Manifest

/-! ### Recoding -/

namespace Rotation

variable (cfg : CodecConfig) (newKey : Option Bytes)

/-- The configuration after the rotation. -/
def newCfg : CodecConfig := { cfg with encryptionKey := newKey }

/-- `maybe_encrypt`. -/
def maybeEncrypt (aad data : Bytes) : Bytes :=
  match newKey with
  | some key => cfg.codecs.encrypt key aad data
  | none => data

/-- `maybe_decrypt`, then `maybe_encrypt`. -/
def recode (aad data : Bytes) : IoResult Bytes := do
  let compressed ← cfg.decryptIfNeeded data aad
  .ok (maybeEncrypt cfg newKey aad compressed)

/-- One frame of a seekable object; a frame past the end of the object is a slice out of range. -/
def recodeEntry (aad blob : Bytes) (entry : FrameEntry) : IoResult Bytes :=
  if blob.length < entry.offset + entry.len then .error .panic
  else recode cfg newKey aad ((blob.drop entry.offset).take entry.len)

/-- A group with a frame table is recoded frame by frame, everything else as a whole. -/
def recodeObject (m : Manifest) (s : Slot) (data : Bytes) :
    IoResult (Bytes × Option (List FrameEntry)) :=
  if m.framesOf s ≠ [] then do
    let frames ← (m.framesOf s).mapM (recodeEntry cfg newKey s.aad data)
    let out := frames.foldl CodecConfig.pushFrame ([], [])
    .ok (out.1, some out.2)
  else do
    let out ← recode cfg newKey s.aad data
    .ok (out, none)

/-- The backend so far, and the new objects. -/
structure Progress where
  backend : Backend
  objects : Slot → Bytes × Option (List FrameEntry) := fun _ => ([], none)

/-- Fetch, recode and upload the object of one slot. -/
def rotateObject (m : Manifest) (st : Progress) (s : Slot) : IoResult Progress :=
  match m.keyAt s with
  | none => .error .panic
  | some key =>
    match st.backend.getPageGroup key with
    | none => .error (.io .notFound s!"{s.kind} {key.text} not found")
    | some data => do
      let out ← recodeObject cfg newKey m s data
      .ok ⟨st.backend.putPageGroups [(s.key (m.version + 1), out.1)],
        Function.update st.objects s out⟩

/-- The new manifest with its uploads and the keys it replaces. -/
def publication (m : Manifest) (st : Progress) : Publication :=
  rotatePublication m (fun gid => st.objects (.group gid)) (fun c => (st.objects (.interior c)).1)
    fun c => (st.objects (.index c)).1

/-- The old key has to open the first group, its first frame where it has frames. -/
def validateOldKey (m : Manifest) (b : Backend) : IoResult Unit :=
  match cfg.encryptionKey, m.keyedGroups.head? with
  | some key, some gid =>
    match (m.groupKey gid).bind b.getPageGroup with
    | none => .error (.io .notFound s!"Page group {keyText (m.groupKey gid)} not found")
    | some blob => do
      let test ← match (m.frameTable gid).head? with
        | some e =>
          if blob.length < e.offset + e.len then .error .panic
          else .ok ((blob.drop e.offset).take e.len)
        | none => .ok blob
      match cfg.codecs.decrypt key (aadPageGroup gid) test with
      | some _ => .ok ()
      | none => .error (.io .invalidInput
          "Old encryption key failed to decrypt existing data. Wrong key?")
  | _, _ => .ok ()

/-- The first new group is fetched again, decrypted and decompressed without a dictionary. -/
def verify (m' : Manifest) (b : Backend) : IoResult Unit :=
  match m'.keyedGroups.head? with
  | none => .ok ()
  | some gid =>
    match (m'.groupKey gid).bind b.getPageGroup with
    | none => .error (.io .other
        "verification failed: newly uploaded page group not found in S3")
    | some blob => do
      let data ← match (m'.frameTable gid).head? with
        | some e =>
          if blob.length < e.offset + e.len then
            .error (.io .other "verification failed: frame extends beyond blob")
          else .ok ((blob.drop e.offset).take e.len)
        | none => .ok blob
      let plain ← (newCfg cfg newKey).decryptIfNeeded data (aadPageGroup gid)
      match cfg.codecs.decompress none plain with
      | some _ => .ok ()
      | none => .error (.io .other "verification failed: cannot decompress new data")

/-- `rotate_encryption_key`. -/
def rotateEncryptionKey (b : Backend) : IoResult Backend :=
  if cfg.encryptionKey = none ∧ newKey = none then .error (.io .invalidInput
    "rotate_encryption_key: both old and new keys are None (nothing to do)")
  else if cfg.encryptionKey = newKey then .error (.io .invalidInput
    "rotate_encryption_key: old and new keys are identical (nothing to do)")
  else
    match b.manifest with
    | none => .error (.io .notFound "No manifest found in backend")
    | some m => do
      -- the source does this at the first group of the loop
      validateOldKey cfg m b
      let st ← m.rotatedSlots.foldlM (rotateObject cfg newKey m) { backend := b }
      let p := publication m st
      verify cfg newKey p.manifest st.backend
      let stored ← st.backend.putManifest p.manifest
      .ok (stored.deleteObjects p.replaced)

/-- A backend a rotation leaves when it fails, or the process exits, before it stores the manifest:
some of the objects are uploaded. -/
def Interrupted (m : Manifest) (b b' : Backend) : Prop :=
  ∃ n st, (m.rotatedSlots.take n).foldlM (rotateObject cfg newKey m) { backend := b } = .ok st ∧
    b' = st.backend

/-! ### Reading -/

/-- `decode_interior_bundle`, for both kinds of bundle. -/
def decodeInteriorBundle (aad data : Bytes) : IoResult (List (Nat × Bytes)) := do
  let raw ← cfg.openFrame cfg.dictionary aad data maxTieredDecompressedBytes
  if raw.length < 8 then .error (.io .invalidData "interior bundle too short for header")
  else
    let pageCount := ofLeBytes (raw.take 4)
    let pageSize := ofLeBytes ((raw.drop 4).take 4)
    let expectedLen := 8 + pageCount * 8 + pageCount * pageSize
    if 2 ^ 64 ≤ expectedLen then .error (.io .invalidData
      "interior bundle page_count * page_size overflows usize (corrupt/malformed)")
    else if raw.length < expectedLen then
      .error (.io .invalidData
        s!"interior bundle truncated: expected {expectedLen} bytes, got {raw.length}")
    else
      .ok ((List.range pageCount).map fun i =>
        (ofLeBytes ((raw.drop (8 + i * 8)).take 8), block pageSize i (raw.drop (8 + pageCount * 8))))

/-- The pages of the bundle in a slot. -/
def readBundle (m : Manifest) (b : Backend) (s : Slot) : IoResult (List (Nat × Bytes)) :=
  match (m.keyAt s).bind b.getPageGroup with
  | none => .error (.io .notFound s!"{s.kind} not found")
  | some data => decodeInteriorBundle cfg s.aad data

/-- A cold read of page `p` opens this override. -/
structure OpensOverride (m : Manifest) (p gid idx : Nat) (ovr : SubframeOverride) : Prop where
  inFile : p < m.pageCount
  located : m.pageLocation p = some ⟨gid, idx⟩
  seekable : m.hasFrames gid = true
  framed : idx / m.subPagesPerFrame < (m.frameTable gid).length
  inGroup : idx / m.subPagesPerFrame * m.subPagesPerFrame ≤ (m.groupPageNums gid).length
  override : (m.overrides gid).lookup (idx / m.subPagesPerFrame) = some ovr

/-- The page at slot `idx` of a group, from the object of an override. -/
def overridePage (m : Manifest) (b : Backend) (gid idx : Nat) (ovr : SubframeOverride) :
    IoResult Bytes :=
  match b.getPageGroup ovr.key with
  | none => .error (.io .notFound
      s!"seekable frame object missing for gid={gid} frame={idx / m.subPagesPerFrame}")
  | some data => do
    let raw ← cfg.decodeSeekableSubchunk (aadOverrideFrame gid (idx / m.subPagesPerFrame)) data
    .ok (framePage m (idx % m.subPagesPerFrame) raw)

/-- Every override a read opens gives the same page under the new key. -/
def OverridesOpen (m : Manifest) (b : Backend) : Prop :=
  ∀ p gid idx ovr, OpensOverride m p gid idx ovr →
    ∀ v, overridePage cfg m b gid idx ovr = .ok v →
      overridePage (newCfg cfg newKey) m b gid idx ovr = .ok v

/-- What could be read is read under the new key: pages, in and outside a planned scan, and bundles. -/
structure Preserved (m : Manifest) (b : Backend) (m' : Manifest) (b' : Backend) : Prop where
  pages : ∀ p v, coldRead cfg m b p = .ok v → coldRead (newCfg cfg newKey) m' b' p = .ok v
  scans : ∀ p v, scanRead cfg m b p = .ok v → scanRead (newCfg cfg newKey) m' b' p = .ok v
  interior : ∀ c ps, readBundle cfg m b (.interior c) = .ok ps →
    readBundle (newCfg cfg newKey) m' b' (.interior c) = .ok ps
  index : ∀ c ps, readBundle cfg m b (.index c) = .ok ps →
    readBundle (newCfg cfg newKey) m' b' (.index c) = .ok ps

/-! ### A recoded frame opens to the same -/

/-- `out` opens under the new key to what `data` opens to under the old one. -/
def SameFrame (aad data out : Bytes) : Prop :=
  ∀ dict cap, (newCfg cfg newKey).openFrame dict aad out cap = cfg.openFrame dict aad data cap

/-- The same for two objects with their frame tables, frame for frame. -/
structure SameFrames (aad : Bytes) (data : Bytes) (ft : List FrameEntry) (out : Bytes)
    (ft' : List FrameEntry) : Prop where
  length : ft'.length = ft.length
  frame : ∀ (i : Nat) (e : FrameEntry), ft[i]? = some e → ∃ e' : FrameEntry, ft'[i]? = some e' ∧
    e.offset + e.len ≤ data.length ∧ e'.offset + e'.len ≤ out.length ∧
    SameFrame cfg newKey aad ((data.drop e.offset).take e.len) ((out.drop e'.offset).take e'.len)

section

variable {cfg : CodecConfig} {newKey : Option Bytes} {aad data out : Bytes}

theorem sameFrame_recode (hc : cfg.codecs.Lawful) (h : recode cfg newKey aad data = .ok out) :
    SameFrame cfg newKey aad data out := by
  intro dict cap
  obtain ⟨plain, hplain, hout⟩ := bind_eq_ok.mp h
  cases hout
  have hnew : (newCfg cfg newKey).decryptIfNeeded (maybeEncrypt cfg newKey aad plain) aad =
      .ok plain := by
    unfold CodecConfig.decryptIfNeeded newCfg maybeEncrypt
    cases newKey with
    | none => rfl
    | some key => simp only [hc.decrypt_encrypt]
  rw [CodecConfig.openFrame, CodecConfig.openFrame, hnew, hplain]
  rfl

theorem sameFrames_recode (hc : cfg.codecs.Lawful) {ft : List FrameEntry} {frames : List Bytes}
    (h : ft.mapM (recodeEntry cfg newKey aad data) = .ok frames) :
    SameFrames cfg newKey aad data ft (frames.foldl CodecConfig.pushFrame ([], [])).1
      (frames.foldl CodecConfig.pushFrame ([], [])).2 where
  length := by
    rw [CodecConfig.length_pushFrame_table]
    exact length_of_mapM h
  frame i e he := by
    obtain ⟨frame, hframe, hrec⟩ := mapM_getElem? h he
    have hlt : i < (frames.foldl CodecConfig.pushFrame ([], [])).2.length := by
      rw [CodecConfig.length_pushFrame_table]
      exact (List.getElem?_eq_some_iff.mp hframe).1
    have he' := List.getElem?_eq_getElem hlt
    obtain ⟨frame', hframe', hle, hcut⟩ := CodecConfig.pushFrame_spec frames he'
    obtain rfl : frame = frame' := Option.some.inj (hframe.symm.trans hframe')
    unfold recodeEntry at hrec
    split at hrec
    · cases hrec
    · rename_i hbound
      refine ⟨_, he', Nat.le_of_not_lt hbound, hle, ?_⟩
      rw [hcut]
      exact sameFrame_recode hc hrec

end

/-! ### What the loop leaves -/

section

variable {cfg : CodecConfig} {newKey : Option Bytes} {m : Manifest} {b : Backend}

theorem rotateObject_inv {st st' : Progress} {s : Slot}
    (h : rotateObject cfg newKey m st s = .ok st') :
    ∃ key data out, m.keyAt s = some key ∧ st.backend.objects key = some data ∧
      recodeObject cfg newKey m s data = .ok out ∧
      st' = ⟨st.backend.putPageGroups [(s.key (m.version + 1), out.1)],
        Function.update st.objects s out⟩ := by
  unfold rotateObject at h
  split at h
  · cases h
  · rename_i key hkey
    split at h
    · cases h
    · rename_i data hdata
      obtain ⟨out, hout, hst⟩ := bind_eq_ok.mp h
      cases hst
      exact ⟨key, data, out, hkey, hdata, hout, rfl⟩

/-- After some slots: their objects are uploaded, each recoded from what the backend had. -/
structure Rotated (cfg : CodecConfig) (newKey : Option Bytes) (m : Manifest) (b : Backend)
    (slots : List Slot) (st : Progress) : Prop where
  backend : st.backend =
    b.putPageGroups (slots.map fun s => (s.key (m.version + 1), (st.objects s).1))
  recoded : ∀ s ∈ slots, ∃ key data, m.keyAt s = some key ∧ b.objects key = some data ∧
    recodeObject cfg newKey m s data = .ok (st.objects s)

/-- An upload of the next version is under no key of the manifest. -/
theorem key_ne (hw : WellKeyed m) {s t : Slot} {k : ObjectKey} (h : m.keyAt t = some k) :
    s.key (m.version + 1) ≠ k := by
  intro he
  obtain ⟨v, hv, hver⟩ := hw.version t k h
  rw [← he, Slot.version_key] at hver
  cases hver
  omega

theorem objects_putPageGroups (hw : WellKeyed m) {slots : List Slot} {f : Slot → Bytes} {t : Slot}
    {k : ObjectKey} (h : m.keyAt t = some k) :
    (b.putPageGroups (slots.map fun s => (s.key (m.version + 1), f s))).objects k = b.objects k := by
  apply Backend.putPageGroups_of_notMem
  intro hmem
  obtain ⟨s, -, he⟩ := List.mem_map.mp ((List.map_map (l := slots) ..) ▸ hmem)
  exact key_ne hw h he

theorem putPageGroups_append (us vs : List (ObjectKey × Bytes)) :
    (b.putPageGroups us).putPageGroups vs = b.putPageGroups (us ++ vs) := by
  simp only [Backend.putPageGroups, List.foldl_append]

theorem rotated_of_foldlM (hw : WellKeyed m) {slots : List Slot} (hnd : slots.Nodup) {st : Progress}
    (h : slots.foldlM (rotateObject cfg newKey m) { backend := b } = .ok st) :
    Rotated cfg newKey m b slots st := by
  induction slots using List.reverseRecOn generalizing st with
  | nil =>
    cases h
    exact ⟨rfl, by simp⟩
  | append_singleton slots s ih =>
    rw [List.foldlM_append] at h
    obtain ⟨st₁, h₁, h₂⟩ := bind_eq_ok.mp h
    rw [List.foldlM_cons] at h₂
    obtain ⟨st₂, hs, hst⟩ := bind_eq_ok.mp h₂
    cases hst
    obtain ⟨hslots, -, hnotMem⟩ := List.nodup_append.mp hnd
    have hr := ih hslots h₁
    obtain ⟨key, data, out, hkey, hdata, hout, rfl⟩ := rotateObject_inv hs
    -- the earlier slots keep what they have
    have hkept : ∀ t ∈ slots, Function.update st₁.objects s out t = st₁.objects t := by
      intro t ht
      exact Function.update_of_ne (hnotMem t ht s (List.mem_singleton_self s)) _ _
    constructor
    · have hmap : slots.map (fun t => (t.key (m.version + 1), (st₁.objects t).1)) =
          slots.map fun t => (t.key (m.version + 1), (Function.update st₁.objects s out t).1) := by
        apply List.map_congr_left
        intro t ht
        rw [hkept t ht]
      simp only [List.map_append, List.map_cons, List.map_nil, Function.update_self]
      rw [hr.backend, putPageGroups_append, hmap]
    · intro t ht
      show ∃ key data, m.keyAt t = some key ∧ b.objects key = some data ∧
        recodeObject cfg newKey m t data = .ok (Function.update st₁.objects s out t)
      rcases List.mem_append.mp ht with ht | ht
      · rw [hkept t ht]
        exact hr.recoded t ht
      · rw [List.mem_singleton.mp ht, Function.update_self]
        rw [hr.backend, objects_putPageGroups hw hkey] at hdata
        exact ⟨key, data, hkey, hdata, hout⟩

/-- An interrupted rotation changes no object the manifest names. -/
theorem Interrupted.reads (hw : WellKeyed m) {b' : Backend} (h : Interrupted cfg newKey m b b') :
    b'.manifest = b.manifest ∧ ∀ p, coldRead cfg m b' p = coldRead cfg m b p := by
  obtain ⟨n, st, hst, rfl⟩ := h
  have hr := rotated_of_foldlM hw (m.nodup_rotatedSlots.sublist (List.take_sublist _ _)) hst
  rw [hr.backend]
  exact ⟨rfl, coldRead_congr fun s k hs => objects_putPageGroups hw hs⟩

/-- The uploads of the publication are those of the loop. -/
theorem uploads_publication (st : Progress) : (publication m st).uploads =
    m.rotatedSlots.map fun s => (s.key (m.version + 1), (st.objects s).1) := by
  simp [publication, rotatePublication, Manifest.rotatedSlots, GroupWrites.uploads, rotatedGroups,
    rekeyChunks, Slot.key, GroupWrites.ofRewrites, Function.comp_def]

end

/-! ### The new manifest -/

section

variable {cfg : CodecConfig} {newKey : Option Bytes} {m : Manifest} {b b' : Backend} {st : Progress}

/-- A rotation that succeeds publishes what its loop recoded. -/
theorem rotateEncryptionKey_inv (hw : WellKeyed m) (hm : b.manifest = some m)
    (h : rotateEncryptionKey cfg newKey b = .ok b') :
    ∃ st, Rotated cfg newKey m b m.rotatedSlots st ∧ b.publish (publication m st) true = .ok b' ∧
      b'.manifest = some (publication m st).manifest := by
  unfold rotateEncryptionKey at h
  split at h
  · cases h
  · split at h
    · cases h
    · rw [hm] at h
      obtain ⟨-, -, h⟩ := bind_eq_ok.mp h
      obtain ⟨st, hst, h⟩ := bind_eq_ok.mp h
      obtain ⟨-, -, h⟩ := bind_eq_ok.mp h
      obtain ⟨stored, hput, h⟩ := bind_eq_ok.mp h
      have hr := rotated_of_foldlM hw m.nodup_rotatedSlots hst
      rw [hr.backend, ← uploads_publication] at hput
      refine ⟨st, hr, ?_, ?_⟩
      · rw [Backend.publish, hput]
        exact h
      · have hstored : stored.manifest = some (publication m st).manifest := by
          rw [(Backend.putManifest_inv hput).1]
        cases h
        exact hstored

theorem publication_publishes (m : Manifest) (st : Progress) : Publishes m (publication m st) :=
  rotatePublication_publishes ..

/-- Every recoded slot names its new object. -/
theorem keyAt_publication {s : Slot} (hs : s ∈ m.rotatedSlots) :
    (publication m st).manifest.keyAt s = some (s.key (m.version + 1)) := by
  obtain ⟨hkey, hover⟩ := Manifest.mem_rotatedSlots.mp hs
  cases s with
  | group gid =>
    have hmem : gid ∈ m.keyedGroups := Manifest.mem_keyedGroups.mpr hkey
    have hget := (rotatedGroups m fun gid => st.objects (.group gid)).newKeys_getD m (m.version + 1) gid
    rw [if_pos (by simpa [rotatedGroups, Function.comp_def] using hmem)] at hget
    exact hget
  | interior c =>
    have hlook := lookup_insertKeys (fun c => (Slot.interior c).key (m.version + 1))
      m.interiorChunkKeys.keys m.interiorChunkKeys c
    rw [if_pos (AList.mem_keys.mp (AList.lookup_isSome.mp hkey))] at hlook
    exact hlook
  | index c =>
    have hlook := lookup_insertKeys (fun c => (Slot.index c).key (m.version + 1))
      m.indexChunkKeys.keys m.indexChunkKeys c
    rw [if_pos (AList.mem_keys.mp (AList.lookup_isSome.mp hkey))] at hlook
    exact hlook
  | override gid f => exact absurd rfl (hover gid f)

/-- The new object of a recoded slot. -/
theorem recoded_object (hw : WellKeyed m) (hpub : b.publish (publication m st) true = .ok b')
    {s : Slot} (hs : s ∈ m.rotatedSlots) :
    ((publication m st).manifest.keyAt s).bind b'.getPageGroup = some (st.objects s).1 := by
  have hkey : (publication m st).manifest.keyAt s = some (s.key (m.version + 1)) :=
    keyAt_publication hs
  rw [hkey, Option.bind_some]
  refine Backend.publish_objects_of_upload (publication_publishes m st) hw hpub hkey ?_ ?_
  · rw [uploads_publication]
    exact List.mem_map_of_mem hs
  · intro d hd
    rw [uploads_publication] at hd
    obtain ⟨t, -, he⟩ := List.mem_map.mp hd
    obtain ⟨hk, rfl⟩ := Prod.mk.inj he
    rw [Slot.key_injective hk]

/-- An override keeps its object. -/
theorem override_object (hw : WellKeyed m) (hpub : b.publish (publication m st) true = .ok b')
    {gid f : Nat} {ovr : SubframeOverride} (h : (m.overrides gid).lookup f = some ovr) :
    b'.objects ovr.key = b.objects ovr.key := by
  have hkey : m.keyAt (.override gid f) = some ovr.key := by
    simp only [Manifest.keyAt, h, Option.map_some]
  exact Backend.publish_objects_of_kept (publication_publishes m st) hw hpub (s := .override gid f)
    hkey hkey

/-- A recoded group has its new frame table; the others keep theirs. -/
theorem frameTable_publication (m : Manifest) (st : Progress) (gid : Nat) :
    (publication m st).manifest.frameTable gid =
      if (m.groupKey gid).isSome then ((st.objects (.group gid)).2).getD (m.frameTable gid)
      else m.frameTable gid := by
  let w := rotatedGroups m fun gid => st.objects (.group gid)
  have hgids : w.rewrites.map (·.gid) = m.keyedGroups := by
    simp [w, rotatedGroups, GroupWrites.ofRewrites, Function.comp_def]
  show (w.newFrameTables m).getD gid [] = _
  split
  · rename_i hkey
    have hmem := Manifest.mem_keyedGroups.mpr hkey
    cases hft : (st.objects (.group gid)).2 with
    | some ft =>
      have hr : (⟨gid, (st.objects (.group gid)).1, some ft⟩ : Rewrite) ∈ w.rewrites := by
        rw [← hft]
        exact List.mem_map_of_mem (f := fun gid => (⟨gid, (st.objects (.group gid)).1,
          (st.objects (.group gid)).2⟩ : Rewrite)) hmem
      exact GroupWrites.newFrameTables_getD_of_mem hr rfl
    | none =>
      -- a group that is recoded as a whole has no entry among the new tables
      refine getD_growSets_of_notMem [] ?_
      intro hin
      obtain ⟨⟨g, ft⟩, hg, rfl⟩ := List.mem_map.mp hin
      obtain ⟨r, hr, hrg⟩ := List.mem_filterMap.mp hg
      obtain ⟨g', -, rfl⟩ := List.mem_map.mp hr
      obtain ⟨ft', hft', he⟩ := Option.map_eq_some_iff.mp hrg
      obtain rfl : g' = g := congrArg Prod.fst he
      rw [hft] at hft'
      cases hft'
  · rename_i hkey
    refine GroupWrites.newFrameTables_getD_of_notMem ?_
    rw [hgids, Manifest.mem_keyedGroups]
    exact hkey

/-- The recoded object of a group under its new table: as a whole, or frame by frame, it opens to what
the old one opened to under the old table. -/
theorem group_opens (hc : cfg.codecs.Lawful) {gid : Nat} {data : Bytes}
    (hkey : (m.groupKey gid).isSome = true)
    (hrec : recodeObject cfg newKey m (.group gid) data = .ok (st.objects (.group gid))) :
    (m.frameTable gid = [] ∧ (publication m st).manifest.frameTable gid = [] ∧
      SameFrame cfg newKey (aadPageGroup gid) data (st.objects (.group gid)).1) ∨
    (m.frameTable gid ≠ [] ∧ SameFrames cfg newKey (aadPageGroup gid) data (m.frameTable gid)
      (st.objects (.group gid)).1 ((publication m st).manifest.frameTable gid)) := by
  rw [frameTable_publication, if_pos hkey]
  by_cases htable : m.frameTable gid = []
  · left
    have hwhole : ¬ m.framesOf (.group gid) ≠ [] := not_not.mpr htable
    rw [recodeObject, if_neg hwhole] at hrec
    obtain ⟨o, ho, hout⟩ := bind_eq_ok.mp hrec
    rw [← Except.ok.inj hout]
    exact ⟨htable, htable, sameFrame_recode hc ho⟩
  · right
    have hframes : m.framesOf (.group gid) ≠ [] := htable
    rw [recodeObject, if_pos hframes] at hrec
    obtain ⟨frames, hmap, hout⟩ := bind_eq_ok.mp hrec
    rw [← Except.ok.inj hout]
    exact ⟨htable, sameFrames_recode hc hmap⟩

/-- The object of a keyed group was fetched and recoded. -/
theorem Rotated.group (hr : Rotated cfg newKey m b m.rotatedSlots st) {gid : Nat} {key : ObjectKey}
    (hkey : m.groupKey gid = some key) : ∃ data, b.objects key = some data ∧
      recodeObject cfg newKey m (.group gid) data = .ok (st.objects (.group gid)) := by
  have hsome : (m.groupKey gid).isSome = true := by rw [hkey]; rfl
  obtain ⟨key', data, hkey', hdata, hrec⟩ := hr.recoded (.group gid)
    (Manifest.mem_rotatedSlots.mpr ⟨hsome, by simp⟩)
  obtain rfl : key = key' := Option.some.inj (hkey.symm.trans hkey')
  exact ⟨data, hdata, hrec⟩

theorem length_frameTable_publication (hc : cfg.codecs.Lawful)
    (hr : Rotated cfg newKey m b m.rotatedSlots st) (gid : Nat) :
    ((publication m st).manifest.frameTable gid).length = (m.frameTable gid).length := by
  cases hkey : m.groupKey gid with
  | none => rw [frameTable_publication, if_neg (by rw [hkey]; simp)]
  | some key =>
    have hsome : (m.groupKey gid).isSome = true := by rw [hkey]; rfl
    obtain ⟨data, -, hrec⟩ := hr.group hkey
    cases group_opens hc hsome hrec with
    | inl hwhole => rw [hwhole.1, hwhole.2.1]
    | inr hframes => exact hframes.2.length

theorem hasFrames_publication (hc : cfg.codecs.Lawful)
    (hr : Rotated cfg newKey m b m.rotatedSlots st) (gid : Nat) :
    (publication m st).manifest.hasFrames gid = m.hasFrames gid := by
  have hempty : ((publication m st).manifest.frameTable gid).isEmpty =
      (m.frameTable gid).isEmpty := by
    rw [Bool.eq_iff_iff, List.isEmpty_iff_length_eq_zero, List.isEmpty_iff_length_eq_zero,
      length_frameTable_publication hc hr]
  unfold Manifest.hasFrames
  rw [hempty]
  rfl

/-- The decoders of the whole object. -/
theorem decodeBase_publication (hc : cfg.codecs.Lawful)
    (hlegacy : m.subPagesPerFrame = 0 → ∀ gid, m.frameTable gid = [])
    (hr : Rotated cfg newKey m b m.rotatedSlots st) {gid : Nat} {data : Bytes}
    (hkey : (m.groupKey gid).isSome = true)
    (hrec : recodeObject cfg newKey m (.group gid) data = .ok (st.objects (.group gid))) :
    decodeBase (newCfg cfg newKey) (publication m st).manifest gid (st.objects (.group gid)).1 =
      decodeBase cfg m gid data := by
  unfold decodeBase
  rw [hasFrames_publication hc hr gid]
  cases group_opens hc hkey hrec with
  | inl hwhole =>
    have hnone : m.hasFrames gid = false := by simp [Manifest.hasFrames, hwhole.1]
    simp only [hnone, Bool.false_eq_true, if_false, CodecConfig.decodePageGroupBulk]
    rw [hwhole.2.2]
    rfl
  | inr hframes =>
    obtain ⟨htable, hsame⟩ := hframes
    have hspf : 0 < m.subPagesPerFrame := by
      by_contra h0
      exact htable (hlegacy (Nat.eq_zero_of_not_pos h0) gid)
    have hsome : m.hasFrames gid = true := by simp [Manifest.hasFrames, htable, hspf]
    simp only [hsome, if_true, CodecConfig.decodePageGroupSeekableFull]
    have hentries : ∀ dict cap, ((publication m st).manifest.frameTable gid).map
        ((newCfg cfg newKey).openEntry dict (aadPageGroup gid) (st.objects (.group gid)).1 cap) =
        (m.frameTable gid).map (cfg.openEntry dict (aadPageGroup gid) data cap) := by
      intro dict cap
      apply List.ext_getElem?
      intro i
      rw [List.getElem?_map, List.getElem?_map]
      cases he : (m.frameTable gid)[i]? with
      | none =>
        have hge : (m.frameTable gid).length ≤ i := List.getElem?_eq_none_iff.mp he
        rw [List.getElem?_eq_none (by rw [hsame.length]; exact hge)]
        rfl
      | some e =>
        obtain ⟨e', he', hle, hle', hframe⟩ := hsame.frame i e he
        rw [he', Option.map_some, Option.map_some, CodecConfig.openEntry, CodecConfig.openEntry,
          if_neg (Nat.not_lt.mpr hle), if_neg (Nat.not_lt.mpr hle'), hframe]
    rw [mapM_congr (hentries _ _)]
    rfl

/-! ### Reads under the new key -/

/-- A group that is read as a whole. -/
theorem fullGroupRead_publication (hc : cfg.codecs.Lawful) (hw : WellKeyed m)
    (hlegacy : m.subPagesPerFrame = 0 → ∀ gid, m.frameTable gid = [])
    (hr : Rotated cfg newKey m b m.rotatedSlots st)
    (hpub : b.publish (publication m st) true = .ok b') {gid p : Nat} {v : Bytes}
    (h : fullGroupRead cfg m b gid p = .ok v) :
    fullGroupRead (newCfg cfg newKey) (publication m st).manifest b' gid p = .ok v := by
  cases hkey : m.groupKey gid with
  | none => exact absurd h (fullGroupRead_unkeyed hkey p v)
  | some key =>
    have hsome : (m.groupKey gid).isSome = true := by rw [hkey]; rfl
    obtain ⟨data, hdata, hrec⟩ := hr.group hkey
    have hslot : Slot.group gid ∈ m.rotatedSlots := Manifest.mem_rotatedSlots.mpr ⟨hsome, by simp⟩
    have hnew : ((publication m st).manifest.groupKey gid).bind b'.getPageGroup =
        some (st.objects (.group gid)).1 := recoded_object hw hpub hslot
    have hold : (m.groupKey gid).bind b.getPageGroup = some data := by
      rw [hkey]
      exact hdata
    rw [← h, fullGroupRead, fullGroupRead, fullGroupInstall, fullGroupInstall, hnew, hold]
    simp only [decodeBase_publication hc hlegacy hr hsome hrec]
    rfl

/-- A frame of the base object that is read on its own. -/
theorem rangeRead_publication (hc : cfg.codecs.Lawful) (hw : WellKeyed m)
    (hr : Rotated cfg newKey m b m.rotatedSlots st)
    (hpub : b.publish (publication m st) true = .ok b') {gid idx : Nat} {key : ObjectKey}
    (hkey : m.groupKey gid = some key) {e : FrameEntry}
    (he : (m.frameTable gid)[idx / m.subPagesPerFrame]? = some e)
    (hover : (m.overrides gid).lookup (idx / m.subPagesPerFrame) = none) :
    rangeRead (newCfg cfg newKey) (publication m st).manifest b' gid idx = rangeRead cfg m b gid idx := by
  have hsome : (m.groupKey gid).isSome = true := by rw [hkey]; rfl
  obtain ⟨data, hdata, hrec⟩ := hr.group hkey
  have hslot : Slot.group gid ∈ m.rotatedSlots := Manifest.mem_rotatedSlots.mpr ⟨hsome, by simp⟩
  obtain ⟨key', hkey', hdata'⟩ := Option.bind_eq_some_iff.mp (recoded_object hw hpub hslot)
  cases group_opens hc hsome hrec with
  | inl hwhole => simp [hwhole.1] at he
  | inr hframes =>
    obtain ⟨e', he', hle, hle', hsame⟩ := hframes.2.frame _ e he
    have hfetch : fetchFrame m b gid (idx / m.subPagesPerFrame) e =
        .ok (some (aadPageGroup gid, (data.drop e.offset).take e.len)) := by
      simp only [fetchFrame, hover, Manifest.getElem?_pageGroupKeys hkey, Backend.rangeGet_eq hdata hle]
      rfl
    have hfetch' : fetchFrame (publication m st).manifest b' gid (idx / m.subPagesPerFrame) e' =
        .ok (some (aadPageGroup gid, ((st.objects (.group gid)).1.drop e'.offset).take e'.len)) := by
      have hover' : ((publication m st).manifest.overrides gid).lookup (idx / m.subPagesPerFrame) =
          none := hover
      simp only [fetchFrame, hover', Manifest.getElem?_pageGroupKeys hkey', Backend.rangeGet_eq hdata' hle']
      rfl
    have hspf : (publication m st).manifest.subPagesPerFrame = m.subPagesPerFrame := rfl
    simp only [rangeRead, hspf, he, he', hfetch, hfetch', ok_bind, CodecConfig.decodeSeekableSubchunk]
    rw [hsame]
    rfl

/-- A read that opens an override is the read of its object. -/
theorem coldRead_override {p gid idx : Nat} {ovr : SubframeOverride}
    (h : OpensOverride m p gid idx ovr) :
    coldRead cfg m b p = overridePage cfg m b gid idx ovr := by
  have hentry := List.getElem?_eq_getElem h.framed
  have hinFile : ¬ m.pageCount ≤ p := Nat.not_le_of_lt h.inFile
  have hinGroup : ¬ (m.groupPageNums gid).length < idx / m.subPagesPerFrame * m.subPagesPerFrame :=
    Nat.not_lt.mpr h.inGroup
  simp only [coldRead, if_neg hinFile, h.located, h.seekable, if_true, rangeRead, hentry, fetchFrame,
    h.override, overridePage]
  cases b.getPageGroup ovr.key with
  | none => rfl
  | some data =>
    simp only [ok_bind]
    cases cfg.decodeSeekableSubchunk (aadOverrideFrame gid (idx / m.subPagesPerFrame)) data with
    | error e => rfl
    | ok raw => simp only [ok_bind, if_neg hinGroup]

/-- The same overrides are opened after the rotation, and their objects are untouched. -/
theorem opensOverride_publication (hc : cfg.codecs.Lawful)
    (hr : Rotated cfg newKey m b m.rotatedSlots st) {p gid idx : Nat} {ovr : SubframeOverride}
    (h : OpensOverride m p gid idx ovr) : OpensOverride (publication m st).manifest p gid idx ovr where
  inFile := h.inFile
  located := h.located
  seekable := by
    rw [hasFrames_publication hc hr gid]
    exact h.seekable
  framed := by
    rw [length_frameTable_publication hc hr gid]
    exact h.framed
  inGroup := h.inGroup
  override := h.override

theorem overridePage_publication (hw : WellKeyed m)
    (hpub : b.publish (publication m st) true = .ok b') {gid idx : Nat} {ovr : SubframeOverride}
    (h : (m.overrides gid).lookup (idx / m.subPagesPerFrame) = some ovr) :
    overridePage (newCfg cfg newKey) (publication m st).manifest b' gid idx ovr =
      overridePage (newCfg cfg newKey) m b gid idx ovr := by
  have hobject : b'.getPageGroup ovr.key = b.getPageGroup ovr.key := override_object hw hpub h
  simp only [overridePage]
  rw [hobject]
  rfl

/-- An override that starts past the group's end is not served: the slice is out of range. -/
theorem rangeRead_past {gid idx : Nat} {ovr : SubframeOverride}
    (hframed : idx / m.subPagesPerFrame < (m.frameTable gid).length)
    (ho : (m.overrides gid).lookup (idx / m.subPagesPerFrame) = some ovr)
    (hpast : (m.groupPageNums gid).length < idx / m.subPagesPerFrame * m.subPagesPerFrame)
    (x : Option Bytes) : rangeRead cfg m b gid idx ≠ .ok x := by
  intro h
  simp only [rangeRead, List.getElem?_eq_getElem hframed, fetchFrame, ho, if_pos hpast] at h
  cases hobject : b.getPageGroup ovr.key with
  | none =>
    rw [hobject] at h
    cases h
  | some data =>
    rw [hobject, ok_bind] at h
    obtain ⟨raw, -, hraw⟩ := bind_eq_ok.mp h
    cases hraw

/-- The frame of a slot is not served from an override. -/
def ReadsBase (m : Manifest) (gid idx : Nat) : Prop :=
  ∀ ovr, idx / m.subPagesPerFrame < (m.frameTable gid).length →
    idx / m.subPagesPerFrame * m.subPagesPerFrame ≤ (m.groupPageNums gid).length →
    (m.overrides gid).lookup (idx / m.subPagesPerFrame) ≠ some ovr

/-- A read that returns something and reads the base found no override. -/
theorem ReadsBase.lookup {gid idx : Nat} (hbase : ReadsBase m gid idx)
    (hframed : idx / m.subPagesPerFrame < (m.frameTable gid).length) {x : Option Bytes}
    (h : rangeRead cfg m b gid idx = .ok x) :
    (m.overrides gid).lookup (idx / m.subPagesPerFrame) = none := by
  cases ho : (m.overrides gid).lookup (idx / m.subPagesPerFrame) with
  | none => rfl
  | some ovr =>
    by_cases hin : idx / m.subPagesPerFrame * m.subPagesPerFrame ≤ (m.groupPageNums gid).length
    · exact absurd ho (hbase ovr hframed hin)
    · exact absurd h (rangeRead_past hframed ho (Nat.lt_of_not_le hin) x)

/-- The range read of a group without an object finds no frame. -/
theorem rangeRead_unkeyed {gid idx : Nat} (hkey : m.groupKey gid = none)
    (hbase : ReadsBase m gid idx) {x : Option Bytes}
    (h : rangeRead cfg m b gid idx = .ok x) : x = none := by
  cases he : (m.frameTable gid)[idx / m.subPagesPerFrame]? with
  | none =>
    rw [rangeRead, he] at h
    exact (Except.ok.inj h).symm
  | some e =>
    have hlookup := hbase.lookup (List.getElem?_eq_some_iff.mp he).1 h
    simp only [rangeRead, he, fetchFrame, hlookup] at h
    cases hk : m.pageGroupKeys[gid]? with
    | none =>
      rw [hk] at h
      cases h
    | some k =>
      have hnone : k = none := by
        rw [Manifest.groupKey, List.getD_eq_getElem?_getD, hk] at hkey
        exact hkey
      rw [hk, hnone] at h
      exact (Except.ok.inj h).symm

/-- A range read that opens no override. -/
theorem rangeRead_of_base (hc : cfg.codecs.Lawful) (hw : WellKeyed m)
    (hr : Rotated cfg newKey m b m.rotatedSlots st)
    (hpub : b.publish (publication m st) true = .ok b') {gid idx : Nat} {key : ObjectKey}
    (hkey : m.groupKey gid = some key) (hbase : ReadsBase m gid idx) {x : Option Bytes}
    (h : rangeRead cfg m b gid idx = .ok x) :
    rangeRead (newCfg cfg newKey) (publication m st).manifest b' gid idx = .ok x := by
  cases he : (m.frameTable gid)[idx / m.subPagesPerFrame]? with
  | none =>
    have hge := List.getElem?_eq_none_iff.mp he
    rw [← length_frameTable_publication hc hr gid] at hge
    have he' : ((publication m st).manifest.frameTable gid)[idx / m.subPagesPerFrame]? = none :=
      List.getElem?_eq_none_iff.mpr hge
    have hspf : (publication m st).manifest.subPagesPerFrame = m.subPagesPerFrame := rfl
    rw [rangeRead, he] at h
    rw [rangeRead, hspf, he']
    exact h
  | some e =>
    have hlookup := hbase.lookup (List.getElem?_eq_some_iff.mp he).1 h
    rw [rangeRead_publication hc hw hr hpub hkey he hlookup, h]

/-- A cold read either opens an override, or ends in the base object. -/
theorem coldRead_publication (hc : cfg.codecs.Lawful) (hw : WellKeyed m)
    (hlegacy : m.subPagesPerFrame = 0 → ∀ gid, m.frameTable gid = [])
    (hr : Rotated cfg newKey m b m.rotatedSlots st)
    (hpub : b.publish (publication m st) true = .ok b') (hopen : OverridesOpen cfg newKey m b)
    {p : Nat} {v : Bytes} (h : coldRead cfg m b p = .ok v) :
    coldRead (newCfg cfg newKey) (publication m st).manifest b' p = .ok v := by
  by_cases hopens : ∃ gid idx ovr, OpensOverride m p gid idx ovr
  · obtain ⟨gid, idx, ovr, ho⟩ := hopens
    rw [coldRead_override ho] at h
    rw [coldRead_override (opensOverride_publication hc hr ho), overridePage_publication hw hpub ho.override]
    exact hopen p gid idx ovr ho v h
  · unfold coldRead at h ⊢
    have hcount : (publication m st).manifest.pageCount = m.pageCount := rfl
    have hloc : (publication m st).manifest.pageLocation p = m.pageLocation p := rfl
    rw [hcount, hloc]
    split at h
    · rename_i hpast
      rw [if_pos hpast]
      exact h
    · rename_i hpast
      rw [if_neg hpast]
      cases hl : m.pageLocation p with
      | none =>
        rw [hl] at h
        exact h
      | some loc =>
        rw [hl] at h
        simp only [hasFrames_publication hc hr] at h ⊢
        split at h
        · rename_i hseek
          rw [if_pos hseek]
          obtain ⟨x, hx, hv⟩ := bind_eq_ok.mp h
          have hbase : ReadsBase m loc.groupId loc.index := by
            intro ovr hframed hin ho
            exact hopens ⟨_, _, ovr, ⟨Nat.lt_of_not_le hpast, hl, hseek, hframed, hin, ho⟩⟩
          cases hkey : m.groupKey loc.groupId with
          | none =>
            rw [rangeRead_unkeyed hkey hbase hx] at hv
            exact absurd hv (fullGroupRead_unkeyed hkey p v)
          | some key =>
            rw [rangeRead_of_base hc hw hr hpub hkey hbase hx, ok_bind]
            cases x with
            | some data => exact hv
            | none => exact fullGroupRead_publication hc hw hlegacy hr hpub hv
        · rename_i hseek
          rw [if_neg hseek]
          exact fullGroupRead_publication hc hw hlegacy hr hpub h

theorem scanRead_publication (hc : cfg.codecs.Lawful) (hw : WellKeyed m)
    (hlegacy : m.subPagesPerFrame = 0 → ∀ gid, m.frameTable gid = [])
    (hr : Rotated cfg newKey m b m.rotatedSlots st)
    (hpub : b.publish (publication m st) true = .ok b') {p : Nat} {v : Bytes}
    (h : scanRead cfg m b p = .ok v) :
    scanRead (newCfg cfg newKey) (publication m st).manifest b' p = .ok v := by
  unfold scanRead at h ⊢
  have hcount : (publication m st).manifest.pageCount = m.pageCount := rfl
  have hloc : (publication m st).manifest.pageLocation p = m.pageLocation p := rfl
  rw [hcount, hloc]
  split at h
  · rename_i hpast
    rw [if_pos hpast]
    exact h
  · rename_i hpast
    rw [if_neg hpast]
    cases hl : m.pageLocation p with
    | none =>
      rw [hl] at h
      exact h
    | some loc =>
      rw [hl] at h
      exact fullGroupRead_publication hc hw hlegacy hr hpub h

/-- Bundles are recoded as a whole. -/
theorem readBundle_publication (hc : cfg.codecs.Lawful) (hw : WellKeyed m)
    (hr : Rotated cfg newKey m b m.rotatedSlots st)
    (hpub : b.publish (publication m st) true = .ok b') {s : Slot}
    (hbundle : ∀ gid f, s ≠ .override gid f) (hwhole : m.framesOf s = []) {ps : List (Nat × Bytes)}
    (h : readBundle cfg m b s = .ok ps) :
    readBundle (newCfg cfg newKey) (publication m st).manifest b' s = .ok ps := by
  cases hkey : m.keyAt s with
  | none =>
    rw [readBundle, hkey] at h
    cases h
  | some key =>
    have hslot : s ∈ m.rotatedSlots := by
      rw [Manifest.mem_rotatedSlots, hkey]
      exact ⟨rfl, hbundle⟩
    obtain ⟨key', data, hkey', hdata, hrec⟩ := hr.recoded s hslot
    obtain rfl : key = key' := Option.some.inj (hkey.symm.trans hkey')
    rw [recodeObject, if_neg (not_not.mpr hwhole)] at hrec
    obtain ⟨out, hout, hst⟩ := bind_eq_ok.mp hrec
    have hobject := recoded_object hw hpub hslot
    rw [← Except.ok.inj hst] at hobject
    have hold : (m.keyAt s).bind b.getPageGroup = some data := by
      rw [hkey]
      exact hdata
    simp only [readBundle, hold] at h
    simp only [readBundle, hobject]
    rw [decodeInteriorBundle, sameFrame_recode hc hout]
    exact h

/-- What is read under the new key, when every override still opens. -/
theorem preserved_of_overridesOpen (hc : cfg.codecs.Lawful) (hw : WellKeyed m)
    (hlegacy : m.subPagesPerFrame = 0 → ∀ gid, m.frameTable gid = [])
    (hr : Rotated cfg newKey m b m.rotatedSlots st)
    (hpub : b.publish (publication m st) true = .ok b') (hopen : OverridesOpen cfg newKey m b) :
    Preserved cfg newKey m b (publication m st).manifest b' where
  pages _ _ := coldRead_publication hc hw hlegacy hr hpub hopen
  scans _ _ := scanRead_publication hc hw hlegacy hr hpub
  interior _ _ := readBundle_publication hc hw hr hpub (by simp) rfl
  index _ _ := readBundle_publication hc hw hr hpub (by simp) rfl

/-- A page that is read from an override is read from the same object afterwards. -/
theorem overridesOpen_of_preserved (hc : cfg.codecs.Lawful) (hw : WellKeyed m)
    (hr : Rotated cfg newKey m b m.rotatedSlots st)
    (hpub : b.publish (publication m st) true = .ok b')
    (h : Preserved cfg newKey m b (publication m st).manifest b') :
    OverridesOpen cfg newKey m b := by
  intro p gid idx ovr ho v hv
  rw [← coldRead_override ho] at hv
  have hnew := h.pages p v hv
  rw [coldRead_override (opensOverride_publication hc hr ho),
    overridePage_publication hw hpub ho.override] at hnew
  exact hnew

/-- Until the manifest is stored the old one reads every page with the old key. A rotation that
succeeds preserves what could be read exactly when every page that is read from an override frame is
still read from its object under the new key: these objects are not recoded. -/
theorem rotation_preserves_iff (hc : cfg.codecs.Lawful) (hw : WellKeyed m)
    (hlegacy : m.subPagesPerFrame = 0 → ∀ gid, m.frameTable gid = []) (hm : b.manifest = some m) :
    (∀ b₁, Interrupted cfg newKey m b b₁ →
      b₁.manifest = some m ∧ ∀ p, coldRead cfg m b₁ p = coldRead cfg m b p) ∧
    ∀ b₁ m₁, rotateEncryptionKey cfg newKey b = .ok b₁ → b₁.manifest = some m₁ →
      (Preserved cfg newKey m b m₁ b₁ ↔ OverridesOpen cfg newKey m b) := by
  constructor
  · intro b₁ h
    obtain ⟨hmanifest, hreads⟩ := Interrupted.reads hw h
    exact ⟨hmanifest.trans hm, hreads⟩
  · intro b₁ m₁ hrot hm₁
    obtain ⟨st, hr, hpub, hstored⟩ := rotateEncryptionKey_inv hw hm hrot
    obtain rfl : m₁ = (publication m st).manifest := Option.some.inj (hm₁.symm.trans hstored)
    constructor
    · exact overridesOpen_of_preserved hc hw hr hpub
    · exact preserved_of_overridesOpen hc hw hlegacy hr hpub

/-! ### A rotation that adds encryption -/

/-- A cipher that writes the key and the identity in front of the data. -/
def keyed : Codecs where
  compress _ x := x
  decompress _ x := some x
  encrypt k aad x := k ++ aad ++ x
  decrypt k aad x := if (k ++ aad).isPrefixOf x then some (x.drop (k ++ aad).length) else none

theorem keyed_lawful : keyed.Lawful where
  decompress_compress _ _ := rfl
  decrypt_encrypt k aad x := by
    have hprefix : (k ++ aad).isPrefixOf (k ++ aad ++ x) = true :=
      List.isPrefixOf_iff_prefix.mpr (List.prefix_append _ _)
    simp only [keyed, hprefix, if_true, List.drop_left]
  decompress_agree _ _ _ _ hy hz := Option.some.inj (hy.symm.trans hz)
  decompress_nil _ _ h := (Option.some.inj h).symm
  decrypt_nil k aad x h := by
    simp only [keyed] at h
    split at h
    · rw [List.drop_nil] at h
      exact (Option.some.inj h).symm
    · cases h

/-- Plaintext so far. -/
def plaintext : CodecConfig := { codecs := keyed }

/-- The imported database before anything replaced a frame of it. -/
def imported : Manifest := { Example.manifest with version := 1, subframeOverrides := [] }

/-- The store after an import of the same pages. -/
def importedStore : Backend := { Example.backend 9 with manifest := some imported }

theorem keyAt_imported {s : Slot} {k : ObjectKey} (h : imported.keyAt s = some k) :
    s = .group 0 ∧ k = .pageGroup 0 1 := by
  cases s with
  | group g =>
    cases g with
    | zero => exact ⟨rfl, (Option.some.inj h).symm⟩
    | succ g => exact absurd (show none = some k from h) (by simp)
  | override g f => exact absurd (show none = some k from h) (by simp)
  | interior c => exact absurd (show none = some k from h) (by simp)
  | index c => exact absurd (show none = some k from h) (by simp)

theorem imported_wellKeyed : WellKeyed imported where
  injective s t k hs ht := by rw [(keyAt_imported hs).1, (keyAt_imported ht).1]
  version s k hs := by
    rw [(keyAt_imported hs).2]
    exact ⟨1, by decide, rfl⟩

theorem imported_overridesOpen : OverridesOpen plaintext (some [7]) imported importedStore := by
  intro p gid idx ovr h
  exact absurd (show none = some ovr from h.override) (by simp)

set_option maxRecDepth 4000 in
theorem imported_rotates :
    (rotateEncryptionKey plaintext (some [7]) importedStore).isOk = true := by decide +kernel

/-- Adding encryption to a database without overrides keeps every page. -/
theorem imported_preserved : ∃ b₁ m₁, rotateEncryptionKey plaintext (some [7]) importedStore = .ok b₁ ∧
    b₁.manifest = some m₁ ∧ Preserved plaintext (some [7]) imported importedStore m₁ b₁ := by
  cases hrot : rotateEncryptionKey plaintext (some [7]) importedStore with
  | error e =>
    have hok := imported_rotates
    rw [hrot] at hok
    cases hok
  | ok b₁ =>
    obtain ⟨st, -, -, hm₁⟩ := rotateEncryptionKey_inv imported_wellKeyed rfl hrot
    have hlawful : plaintext.codecs.Lawful := keyed_lawful
    have hstored : importedStore.manifest = some imported := rfl
    obtain ⟨-, hrotated⟩ := rotation_preserves_iff hlawful imported_wellKeyed
      (fun h => absurd h (by decide)) hstored
    exact ⟨b₁, _, rfl, hm₁, (hrotated b₁ _ hrot hm₁).mpr imported_overridesOpen⟩

/-- The same database after a flush replaced frame 1 of its group. -/
def flushedStore : Backend := { Example.backend 9 with manifest := some Example.manifest }

theorem flushed_opens : OpensOverride Example.manifest 1 0 1 ⟨.overrideFrame 0 1 2, ⟨0, 512⟩⟩ where
  inFile := by decide
  located := by decide
  seekable := by decide +kernel
  framed := by decide +kernel
  inGroup := by decide
  override := rfl

set_option maxRecDepth 4000 in
theorem flushed_rotates :
    (rotateEncryptionKey plaintext (some [7]) flushedStore).isOk = true := by decide +kernel

/-- The override is still plaintext when the key says it is not. -/
theorem override_not_rotated : ∃ b₁ m₁,
    rotateEncryptionKey plaintext (some [7]) flushedStore = .ok b₁ ∧ b₁.manifest = some m₁ ∧
      coldRead plaintext Example.manifest flushedStore 1 = .ok (Example.page 9) ∧
      ∀ v, coldRead (newCfg plaintext (some [7])) m₁ b₁ 1 ≠ .ok v := by
  cases hrot : rotateEncryptionKey plaintext (some [7]) flushedStore with
  | error e =>
    have hok := flushed_rotates
    rw [hrot] at hok
    cases hok
  | ok b₁ =>
    obtain ⟨st, hr, hpub, hm₁⟩ := rotateEncryptionKey_inv Example.wellKeyed rfl hrot
    refine ⟨b₁, _, rfl, hm₁, ?_, ?_⟩
    · rw [coldRead_override flushed_opens]
      decide +kernel
    · intro v h
      rw [coldRead_override (opensOverride_publication keyed_lawful hr flushed_opens),
        overridePage_publication Example.wellKeyed hpub flushed_opens.override] at h
      have hclosed : (overridePage (newCfg plaintext (some [7])) Example.manifest flushedStore 0 1
          ⟨.overrideFrame 0 1 2, ⟨0, 512⟩⟩).isOk = false := by decide +kernel
      rw [h] at hclosed
      cases hclosed

end

end Rotation

end Turbolite
