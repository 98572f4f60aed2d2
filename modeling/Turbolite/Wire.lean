import Turbolite.Manifest

/-!
# Turbolite.Wire

The manifest as bytes: the msgpack object of the backend and of the staging trailer
(`decode_manifest_bytes`) and the canonical envelope (`wire.rs`). The serializers themselves are not
part of the repository; a `Serde` stands for them. Both decoders end in `validate_field_ranges`, so a
manifest is read back exactly when it passes that check.
-/

namespace Turbolite

/-! ### The serializers -/

/-- The wire mirror of a manifest: hash maps as lists, sorted by key. -/
structure CanonicalManifestV1 where
  version : Nat
  changeCounter : Nat
  discontinuityStamp : Nat
  cursor : ReplayCursor
  writerId : String
  pageCount : Nat
  pageSize : Nat
  pagesPerGroup : Nat
  subPagesPerFrame : Nat
  strategy : GroupingStrategy
  dbHeader : Option Bytes
  pageGroupKeys : List (Option ObjectKey)
  frameTables : List (List FrameEntry)
  groupPages : List (List Nat)
  btrees : List (Nat × BTreeManifestEntry)
  interiorChunkKeys : List (Nat × ObjectKey)
  indexChunkKeys : List (Nat × ObjectKey)
  subframeOverrides : List (List (Nat × SubframeOverride))

/-- `rmp_serde` on a manifest and `ciborium` on its wire mirror. -/
structure Serde where
  toVec : Manifest → Bytes
  fromSlice : Bytes → Except String Manifest
  intoWriter : CanonicalManifestV1 → Bytes
  fromReader : Bytes → Except String CanonicalManifestV1

namespace Manifest

/-- What is serialized: everything but the reverse index. -/
def persisted (m : Manifest) : Manifest := { m with pageIndex := ∅ }

/-- `sort_by_key` on the pairs of a map. -/
def sortedPairs {β : Type} (h : HMap Nat β) : List (Nat × β) :=
  (h.entries.map fun e => (e.1, e.2)).insertionSort fun a b => a.1 ≤ b.1

/-- `From<&Manifest> for CanonicalManifestV1`. -/
def toCanonical (m : Manifest) : CanonicalManifestV1 where
  version := m.version
  changeCounter := m.changeCounter
  discontinuityStamp := m.discontinuityStamp
  cursor := m.cursor
  writerId := m.writerId
  pageCount := m.pageCount
  pageSize := m.pageSize
  pagesPerGroup := m.pagesPerGroup
  subPagesPerFrame := m.subPagesPerFrame
  strategy := m.strategy
  dbHeader := m.dbHeader
  pageGroupKeys := m.pageGroupKeys
  frameTables := m.frameTables
  groupPages := m.groupPages
  btrees := sortedPairs m.btrees
  interiorChunkKeys := sortedPairs m.interiorChunkKeys
  indexChunkKeys := sortedPairs m.indexChunkKeys
  subframeOverrides := m.subframeOverrides.map sortedPairs

/-- `From<CanonicalManifestV1> for Manifest`. -/
def ofCanonical (c : CanonicalManifestV1) : Manifest where
  version := c.version
  changeCounter := c.changeCounter
  discontinuityStamp := c.discontinuityStamp
  cursor := c.cursor
  writerId := c.writerId
  pageCount := c.pageCount
  pageSize := c.pageSize
  pagesPerGroup := c.pagesPerGroup
  subPagesPerFrame := c.subPagesPerFrame
  strategy := c.strategy
  dbHeader := c.dbHeader
  pageGroupKeys := c.pageGroupKeys
  frameTables := c.frameTables
  groupPages := c.groupPages
  btrees := collectPairs c.btrees
  interiorChunkKeys := collectPairs c.interiorChunkKeys
  indexChunkKeys := collectPairs c.indexChunkKeys
  subframeOverrides := c.subframeOverrides.map collectPairs

/-- Equal on every persisted field; hash maps are equal when they give the same lookups. -/
structure SamePersisted (a b : Manifest) : Prop where
  version : a.version = b.version
  changeCounter : a.changeCounter = b.changeCounter
  pageCount : a.pageCount = b.pageCount
  pageSize : a.pageSize = b.pageSize
  pagesPerGroup : a.pagesPerGroup = b.pagesPerGroup
  pageGroupKeys : a.pageGroupKeys = b.pageGroupKeys
  interiorChunkKeys : ∀ c, a.interiorChunkKeys.lookup c = b.interiorChunkKeys.lookup c
  indexChunkKeys : ∀ c, a.indexChunkKeys.lookup c = b.indexChunkKeys.lookup c
  frameTables : a.frameTables = b.frameTables
  subPagesPerFrame : a.subPagesPerFrame = b.subPagesPerFrame
  subframeOverrides : a.subframeOverrides.length = b.subframeOverrides.length ∧
    ∀ g f, (a.overrides g).lookup f = (b.overrides g).lookup f
  strategy : a.strategy = b.strategy
  groupPages : a.groupPages = b.groupPages
  btrees : ∀ root, a.btrees.lookup root = b.btrees.lookup root
  dbHeader : a.dbHeader = b.dbHeader
  discontinuityStamp : a.discontinuityStamp = b.discontinuityStamp
  cursor : a.cursor = b.cursor
  writerId : a.writerId = b.writerId

/-! ### Sorting and collecting -/

/-- The sorted pairs are those of the map. -/
theorem mem_sortedPairs {β : Type} {h : HMap Nat β} {p : Nat × β} :
    p ∈ sortedPairs h ↔ h.lookup p.1 = some p.2 := by
  obtain ⟨k, v⟩ := p
  rw [sortedPairs, (List.perm_insertionSort _ _).mem_iff, ← Option.mem_def, AList.mem_lookup_iff]
  simp

/-- A map comes back from its sorted pairs. -/
theorem lookup_collectPairs_sortedPairs {β : Type} (h : HMap Nat β) (k : Nat) :
    (collectPairs (sortedPairs h)).lookup k = h.lookup k := by
  have hperm := List.perm_insertionSort (fun a b : Nat × β => a.1 ≤ b.1)
    (h.entries.map fun e => (e.1, e.2))
  have hnd : ((sortedPairs h).map (·.1)).Nodup := by
    refine (hperm.map _).nodup_iff.mpr ?_
    rw [List.map_map]
    exact h.nodupKeys
  refine Option.ext fun v => ?_
  rw [lookup_collectPairs hnd, mem_sortedPairs]

/-- Maps with the same lookups have the same sorted pairs, in whatever order they hold them. -/
theorem sortedPairs_congr {β : Type} {h h' : HMap Nat β} (heq : ∀ k, h.lookup k = h'.lookup k) :
    sortedPairs h = sortedPairs h' := by
  have hperm : h.entries.Perm h'.entries :=
    List.lookup_ext h.nodupKeys h'.nodupKeys fun k v => by
      have hk := heq k
      simp only [AList.lookup] at hk
      rw [hk]
  have hsorted : (sortedPairs h).Perm (sortedPairs h') :=
    ((List.perm_insertionSort _ _).trans (hperm.map _)).trans (List.perm_insertionSort _ _).symm
  refine List.Perm.eq_of_pairwise ?_ (List.pairwise_insertionSort _ _)
    (List.pairwise_insertionSort _ _) hsorted
  intro a b ha hb hab hba
  -- pairs with one key are one pair
  have hkey : a.1 = b.1 := Nat.le_antisymm hab hba
  have hva : h.lookup a.1 = some a.2 := mem_sortedPairs.mp ha
  have hvb : h'.lookup b.1 = some b.2 := mem_sortedPairs.mp hb
  rw [heq, hkey, hvb] at hva
  exact Prod.ext hkey (Option.some.inj hva).symm

/-- Equal sorted pairs come from maps with the same lookups. -/
theorem lookup_of_sortedPairs {β : Type} {h h' : HMap Nat β} (heq : sortedPairs h = sortedPairs h')
    (k : Nat) : h.lookup k = h'.lookup k := by
  rw [← lookup_collectPairs_sortedPairs h, heq, lookup_collectPairs_sortedPairs]

/-- The wire mirror is a function of the persisted fields, and determines them. -/
theorem toCanonical_eq_iff {a b : Manifest} : a.toCanonical = b.toCanonical ↔ a.SamePersisted b := by
  constructor
  · intro h
    simp only [toCanonical, CanonicalManifestV1.mk.injEq] at h
    obtain ⟨h1, h2, h3, h4, h5, h6, h7, h8, h9, h10, h11, h12, h13, h14, h15, h16, h17, h18⟩ := h
    have hlen : a.subframeOverrides.length = b.subframeOverrides.length := by
      simpa using congrArg List.length h18
    refine ⟨h1, h2, h6, h7, h8, h12, lookup_of_sortedPairs h16, lookup_of_sortedPairs h17, h13, h9,
      ⟨hlen, ?_⟩, h10, h14, lookup_of_sortedPairs h15, h11, h3, h4, h5⟩
    intro g f
    have hg : (a.subframeOverrides[g]?).map sortedPairs = (b.subframeOverrides[g]?).map sortedPairs := by
      rw [← List.getElem?_map, ← List.getElem?_map, h18]
    simp only [overrides, List.getD_eq_getElem?_getD]
    cases ha : a.subframeOverrides[g]? with
    | none =>
      cases hb : b.subframeOverrides[g]? with
      | none => rfl
      | some ovs => simp [ha, hb] at hg
    | some ovs =>
      cases hb : b.subframeOverrides[g]? with
      | none => simp [ha, hb] at hg
      | some ovs' =>
        simp only [ha, hb, Option.map_some, Option.some.injEq] at hg
        exact lookup_of_sortedPairs hg f
  · intro h
    have hovs : a.subframeOverrides.map sortedPairs = b.subframeOverrides.map sortedPairs := by
      apply List.ext_getElem
      · simpa using h.subframeOverrides.1
      · intro g hga hgb
        rw [List.length_map] at hga hgb
        rw [List.getElem_map, List.getElem_map]
        refine sortedPairs_congr fun f => ?_
        have hg := h.subframeOverrides.2 g f
        simpa [overrides, List.getD_eq_getElem?_getD, hga, hgb] using hg
    simp only [toCanonical, h.version, h.changeCounter, h.discontinuityStamp, h.cursor, h.writerId,
      h.pageCount, h.pageSize, h.pagesPerGroup, h.subPagesPerFrame, h.strategy, h.dbHeader,
      h.pageGroupKeys, h.frameTables, h.groupPages, sortedPairs_congr h.btrees,
      sortedPairs_congr h.interiorChunkKeys, sortedPairs_congr h.indexChunkKeys, hovs]

theorem samePersisted_persisted (m : Manifest) : m.persisted.SamePersisted m := by
  constructor <;> first | exact fun _ => rfl | exact ⟨rfl, fun _ _ => rfl⟩ | rfl

theorem samePersisted_ofCanonical (m : Manifest) :
    (ofCanonical m.toCanonical).SamePersisted m where
  version := rfl
  changeCounter := rfl
  pageCount := rfl
  pageSize := rfl
  pagesPerGroup := rfl
  pageGroupKeys := rfl
  interiorChunkKeys := lookup_collectPairs_sortedPairs _
  indexChunkKeys := lookup_collectPairs_sortedPairs _
  frameTables := rfl
  subPagesPerFrame := rfl
  subframeOverrides := by
    refine ⟨by simp [ofCanonical, toCanonical], fun g f => ?_⟩
    simp only [overrides, ofCanonical, toCanonical, List.getD_eq_getElem?_getD, List.getElem?_map]
    cases m.subframeOverrides[g]? with
    | none => rfl
    | some ovs => exact lookup_collectPairs_sortedPairs ovs f
  strategy := rfl
  groupPages := rfl
  btrees := lookup_collectPairs_sortedPairs _
  dbHeader := rfl
  discontinuityStamp := rfl
  cursor := rfl
  writerId := rfl

/-! ### Field ranges -/

/-- The largest page count a decoder accepts. -/
def maxPageCount : Nat := (2 ^ 64 - 1) / 65536

/-- What `validate_field_ranges` checks. -/
structure InRange (m : Manifest) : Prop where
  pageSize : m.pageSize = 0 ∨ isValidPageSize m.pageSize = true
  pagesPerGroup : m.pagesPerGroup ≤ 16384
  pageCount : m.pageCount ≤ maxPageCount
  frameTables : m.frameTables.length ≤ m.pageGroupKeys.length
  subframeOverrides : m.subframeOverrides.length ≤ m.pageGroupKeys.length
  groupPages : m.groupPages.length ≤ m.pageGroupKeys.length

theorem validateFieldRanges_eq_ok (m : Manifest) :
    m.validateFieldRanges = .ok () ↔ m.InRange := by
  constructor
  · intro h
    unfold validateFieldRanges at h
    split_ifs at h with h1 h2 h3 h4 h5 h6
    refine ⟨?_, Nat.le_of_not_lt h2, Nat.le_of_not_lt h3, Nat.le_of_not_lt h4, Nat.le_of_not_lt h5,
      Nat.le_of_not_lt h6⟩
    rcases not_and_or.mp h1 with h1 | h1
    · exact .inl (not_not.mp h1)
    · exact .inr (not_not.mp h1)
  · intro h
    have h1 : ¬ (m.pageSize ≠ 0 ∧ ¬ isValidPageSize m.pageSize = true) := by
      rintro ⟨hne, hnv⟩
      exact h.pageSize.elim hne hnv
    have h3 : ¬ m.pageCount > (2 ^ 64 - 1) / 65536 := h.pageCount.not_gt
    rw [validateFieldRanges, if_neg h1, if_neg h.pagesPerGroup.not_gt, if_neg h3,
      if_neg h.frameTables.not_gt, if_neg h.subframeOverrides.not_gt, if_neg h.groupPages.not_gt]

/-- The check reads persisted fields only. -/
theorem SamePersisted.inRange_iff {a b : Manifest} (h : a.SamePersisted b) :
    a.InRange ↔ b.InRange := by
  have hov := h.subframeOverrides.1
  constructor
  · rintro ⟨h1, h2, h3, h4, h5, h6⟩
    rw [h.pageGroupKeys] at h4 h5 h6
    exact ⟨h.pageSize ▸ h1, h.pagesPerGroup ▸ h2, h.pageCount ▸ h3, h.frameTables ▸ h4, hov ▸ h5,
      h.groupPages ▸ h6⟩
  · rintro ⟨h1, h2, h3, h4, h5, h6⟩
    rw [← h.pageGroupKeys] at h4 h5 h6
    exact ⟨h.pageSize ▸ h1, h.pagesPerGroup ▸ h2, h.pageCount ▸ h3, h.frameTables ▸ h4, hov ▸ h5,
      h.groupPages ▸ h6⟩

end Manifest

/-! ### The decoders -/

/-- `MAX_MANIFEST_BYTES`. -/
def maxManifestBytes : Nat := 256 * 1024 * 1024

/-- `decode_manifest_bytes`. -/
def decodeManifestBytes (S : Serde) (data : Bytes) : IoResult Manifest :=
  if maxManifestBytes < data.length then
    .error (.io .invalidData s!"manifest payload too large: {data.length} bytes")
  else
    match S.fromSlice data with
    | .error e => .error (.io .invalidData s!"deserialize manifest: {e}")
    | .ok m =>
      match m.validateFieldRanges with
      | .error e => .error e
      | .ok () => .ok m

namespace Wire

/-- `MAGIC`, the letters `TLM1`. -/
def magic : Bytes := [0x54, 0x4C, 0x4D, 0x31]

/-- `VERSION_V1`, two big-endian bytes in the envelope. -/
def versionV1 : Nat := 1

/-- `PayloadVersionError`. -/
inductive PayloadVersionError where
  | hybridDeprecated
  | pureMsgpackDeprecated
  | truncated (len : Nat)
  | magicMismatch (got : Bytes)
  | unsupportedVersion (found supported : Nat)
  | bodyDecode (message : String)

/-- The text of an error, as `to_string` gives it for a failed range check. -/
def messageOf : IoError → String
  | .io _ message => message
  | .panic => "panic"

/-- `encode`. -/
def encode (S : Serde) (m : Manifest) : Bytes :=
  magic ++ ([0x00, 0x01] ++ S.intoWriter m.toCanonical)

/-- `decode`: legacy tags first, then the magic, the version and the body. -/
def decode (S : Serde) (bytes : Bytes) : Except PayloadVersionError Manifest :=
  match bytes with
  | [] => .error (.truncated 0)
  | tag :: _ =>
    if tag = 0x02 then .error .hybridDeprecated
    else if tag = 0x01 then .error .pureMsgpackDeprecated
    else if bytes.length < 6 then .error (.truncated bytes.length)
    else if bytes.take 4 ≠ magic then .error (.magicMismatch (bytes.take 4))
    else if ofBeBytes ((bytes.drop 4).take 2) ≠ versionV1 then
      .error (.unsupportedVersion (ofBeBytes ((bytes.drop 4).take 2)) versionV1)
    else
      let body := bytes.drop 6
      if maxManifestBytes < body.length then
        .error (.bodyDecode s!"manifest body too large: {body.length} bytes")
      else
        match S.fromReader body with
        | .error e => .error (.bodyDecode e)
        | .ok c =>
          let m := Manifest.ofCanonical c
          match m.validateFieldRanges with
          | .error e => .error (.bodyDecode (messageOf e))
          | .ok () => .ok m

end Wire

/-! ### Reading back -/

/-- The serializers give back what they were given. -/
structure Serde.RoundTrips (S : Serde) (m : Manifest) : Prop where
  fromSlice : S.fromSlice (S.toVec m) = .ok m.persisted
  fromReader : S.fromReader (S.intoWriter m.toCanonical) = .ok m.toCanonical

/-- Both encodings are below the decoders' ceiling. -/
structure Serde.Small (S : Serde) (m : Manifest) : Prop where
  toVec : (S.toVec m).length ≤ maxManifestBytes
  intoWriter : (S.intoWriter m.toCanonical).length ≤ maxManifestBytes

variable {S : Serde} {m : Manifest}

/-- The msgpack decoder accepts exactly the manifests in range, and gives them back. -/
theorem decodeManifestBytes_toVec (hrt : S.RoundTrips m) (hsmall : S.Small m) :
    (∃ m', decodeManifestBytes S (S.toVec m) = .ok m' ∧ m'.SamePersisted m) ↔ m.InRange := by
  have hdec : decodeManifestBytes S (S.toVec m) = match m.persisted.validateFieldRanges with
      | .error e => .error e
      | .ok () => .ok m.persisted := by
    rw [decodeManifestBytes, if_neg (Nat.not_lt.mpr hsmall.toVec), hrt.fromSlice]
  rw [hdec, ← m.samePersisted_persisted.inRange_iff, ← Manifest.validateFieldRanges_eq_ok]
  cases hv : m.persisted.validateFieldRanges with
  | error e => simp
  | ok u => exact ⟨fun _ => rfl, fun _ => ⟨_, rfl, m.samePersisted_persisted⟩⟩

/-- An envelope is opened up to the size check, the reader and the range check. -/
theorem Wire.decode_body (body : Bytes) :
    Wire.decode S (Wire.magic ++ ([0x00, 0x01] ++ body)) =
      if maxManifestBytes < body.length then
        .error (.bodyDecode s!"manifest body too large: {body.length} bytes")
      else
        match S.fromReader body with
        | .error e => .error (.bodyDecode e)
        | .ok c =>
          match (Manifest.ofCanonical c).validateFieldRanges with
          | .error e => .error (.bodyDecode (messageOf e))
          | .ok () => .ok (Manifest.ofCanonical c) := by
  let bytes : Bytes := 0x54 :: 0x4C :: 0x4D :: 0x31 :: 0x00 :: 0x01 :: body
  have hbody : bytes.drop 6 = body := rfl
  have hlen : ¬ bytes.length < 6 := by
    simp only [bytes, List.length_cons]
    omega
  have hmagic : ¬ bytes.take 4 ≠ magic := not_not.mpr rfl
  have hversion : ¬ ofBeBytes ((bytes.drop 4).take 2) ≠ versionV1 := not_not.mpr rfl
  show Wire.decode S bytes = _
  rw [Wire.decode]
  dsimp only
  rw [if_neg (by decide), if_neg (by decide), if_neg hlen, if_neg hmagic, if_neg hversion, hbody]

/-- The envelope of a manifest is opened up to the size check and the range check. -/
theorem Wire.decode_encode_eq (hread : S.fromReader (S.intoWriter m.toCanonical) = .ok m.toCanonical) :
    Wire.decode S (Wire.encode S m) =
      if maxManifestBytes < (S.intoWriter m.toCanonical).length then
        .error (.bodyDecode
          s!"manifest body too large: {(S.intoWriter m.toCanonical).length} bytes")
      else
        match (Manifest.ofCanonical m.toCanonical).validateFieldRanges with
        | .error e => .error (.bodyDecode (messageOf e))
        | .ok () => .ok (Manifest.ofCanonical m.toCanonical) := by
  rw [Wire.encode, Wire.decode_body, hread]

/-- The same for the envelope. -/
theorem Wire.decode_encode (hrt : S.RoundTrips m) (hsmall : S.Small m) :
    (∃ m', Wire.decode S (Wire.encode S m) = .ok m' ∧ m'.SamePersisted m) ↔ m.InRange := by
  rw [Wire.decode_encode_eq hrt.fromReader, if_neg (Nat.not_lt.mpr hsmall.intoWriter),
    ← m.samePersisted_ofCanonical.inRange_iff, ← Manifest.validateFieldRanges_eq_ok]
  cases hv : (Manifest.ofCanonical m.toCanonical).validateFieldRanges with
  | error e => simp
  | ok u => exact ⟨fun _ => rfl, fun _ => ⟨_, rfl, m.samePersisted_ofCanonical⟩⟩

end Turbolite
