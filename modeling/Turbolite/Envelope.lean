import Turbolite.ReplayAnchor

/-!
# Turbolite.Envelope

The envelope in both directions. Encoding is a function of the persisted fields. Decoding is not its
inverse on everything it accepts: the reader leaves what follows the body, and pairs that are out of
order or repeated are collected into a map like any others. `canonical_envelope_iff` says for which
manifests and which bytes a round trip ends where it began.
-/

namespace Turbolite

open Manifest

/-! ### Sorted mirrors -/

/-- Pairs in strictly increasing order of their keys. -/
def SortedPairs {β : Type} (ps : List (Nat × β)) : Prop := ps.Pairwise fun a b => a.1 < b.1

instance {β : Type} (ps : List (Nat × β)) : Decidable (SortedPairs ps) :=
  inferInstanceAs (Decidable (ps.Pairwise _))

/-- The maps of a mirror are as the encoder writes them. -/
structure CanonicalManifestV1.Sorted (c : CanonicalManifestV1) : Prop where
  btrees : SortedPairs c.btrees
  interiorChunkKeys : SortedPairs c.interiorChunkKeys
  indexChunkKeys : SortedPairs c.indexChunkKeys
  subframeOverrides : ∀ ps ∈ c.subframeOverrides, SortedPairs ps

/-- The keys of a map are distinct, so sorting them is strict. -/
theorem sortedPairs_sorted {β : Type} (h : HMap Nat β) : SortedPairs (sortedPairs h) := by
  have hperm := List.perm_insertionSort (fun a b : Nat × β => a.1 ≤ b.1)
    (h.entries.map fun e => (e.1, e.2))
  have hnd : ((sortedPairs h).map (·.1)).Nodup := by
    refine (hperm.map _).nodup_iff.mpr ?_
    rw [List.map_map]
    exact h.nodupKeys
  have hle : (sortedPairs h).Pairwise fun a b => a.1 ≤ b.1 := List.pairwise_insertionSort _ _
  have hne : (sortedPairs h).Pairwise fun a b => a.1 ≠ b.1 := List.pairwise_map.mp hnd
  exact (hle.and hne).imp fun {a b} hab => Nat.lt_of_le_of_ne hab.1 hab.2

/-- Pairs in order come back from the map they are collected into. -/
theorem sortedPairs_collectPairs {β : Type} {ps : List (Nat × β)} (h : SortedPairs ps) :
    sortedPairs (collectPairs ps) = ps := by
  have hnd : (ps.map (·.1)).Nodup := List.pairwise_map.mpr (h.imp fun hab => Nat.ne_of_lt hab)
  have hmem : ∀ p, p ∈ sortedPairs (collectPairs ps) ↔ p ∈ ps := by
    intro p
    rw [mem_sortedPairs, lookup_collectPairs hnd]
  have hlt := sortedPairs_sorted (collectPairs ps)
  have hperm : (sortedPairs (collectPairs ps)).Perm ps := by
    refine (List.perm_ext_iff_of_nodup ?_ ?_).mpr hmem
    · exact hlt.imp fun hab heq => by simp [heq] at hab
    · exact h.imp fun hab heq => by simp [heq] at hab
  refine List.Perm.eq_of_pairwise ?_ hlt h hperm
  intro a b _ _ hab hba
  exact absurd hab (Nat.lt_asymm hba)

theorem sortedPairs_collectPairs_iff {β : Type} {ps : List (Nat × β)} :
    sortedPairs (collectPairs ps) = ps ↔ SortedPairs ps := by
  constructor
  · intro h
    rw [← h]
    exact sortedPairs_sorted _
  · exact sortedPairs_collectPairs

/-- A mirror comes back from its manifest exactly when its maps are sorted. -/
theorem toCanonical_ofCanonical_iff {c : CanonicalManifestV1} :
    (ofCanonical c).toCanonical = c ↔ c.Sorted := by
  have hovs : (c.subframeOverrides.map collectPairs).map sortedPairs = c.subframeOverrides ↔
      ∀ ps ∈ c.subframeOverrides, SortedPairs ps := by
    rw [List.map_map]
    conv_lhs => rhs; rw [← List.map_id c.subframeOverrides]
    rw [List.map_inj_left]
    exact forall₂_congr fun ps _ => sortedPairs_collectPairs_iff
  constructor
  · intro h
    have hb := congrArg CanonicalManifestV1.btrees h
    have hi := congrArg CanonicalManifestV1.interiorChunkKeys h
    have hx := congrArg CanonicalManifestV1.indexChunkKeys h
    have ho := congrArg CanonicalManifestV1.subframeOverrides h
    exact ⟨sortedPairs_collectPairs_iff.mp hb, sortedPairs_collectPairs_iff.mp hi,
      sortedPairs_collectPairs_iff.mp hx, hovs.mp ho⟩
  · intro h
    simp only [toCanonical, ofCanonical, sortedPairs_collectPairs h.btrees,
      sortedPairs_collectPairs h.interiorChunkKeys, sortedPairs_collectPairs h.indexChunkKeys,
      hovs.mpr h.subframeOverrides]

/-! ### Accepted bytes -/

theorem ofBeBytes_two {a b : UInt8} : ofBeBytes [a, b] = Wire.versionV1 ↔ a = 0 ∧ b = 1 := by
  have ha := a.toNat_lt
  have hb := b.toNat_lt
  simp only [ofBeBytes, Wire.versionV1, List.foldl_cons, List.foldl_nil]
  rw [← UInt8.toNat_inj, ← UInt8.toNat_inj]
  simp
  omega

/-- Accepted bytes: the header, then a body that the reader takes and whose manifest is in range. -/
theorem Wire.decode_inv {S : Serde} {bytes : Bytes} {m : Manifest}
    (h : Wire.decode S bytes = .ok m) :
    bytes.take 6 = Wire.magic ++ [0, 1] ∧ (bytes.drop 6).length ≤ maxManifestBytes ∧
      ∃ c, S.fromReader (bytes.drop 6) = .ok c ∧ m = ofCanonical c ∧ m.InRange := by
  cases bytes with
  | nil => cases h
  | cons tag rest =>
    simp only [Wire.decode] at h
    split at h
    · cases h
    · split at h
      · cases h
      · split at h
        · cases h
        · rename_i hlen
          split at h
          · cases h
          · rename_i hmagic
            split at h
            · cases h
            · rename_i hversion
              split at h
              · cases h
              · rename_i hbody
                cases hc : S.fromReader ((tag :: rest).drop 6) with
                | error e =>
                  simp only [hc] at h
                  cases h
                | ok c =>
                  simp only [hc] at h
                  cases hv : (ofCanonical c).validateFieldRanges with
                  | error e =>
                    simp only [hv] at h
                    cases h
                  | ok u =>
                    simp only [hv, Except.ok.injEq] at h
                    refine ⟨?_, Nat.not_lt.mp hbody, c, rfl, h.symm, ?_⟩
                    · rw [show (6 : Nat) = 4 + 2 from rfl, List.take_add, not_not.mp hmagic]
                      obtain ⟨a, b, hab⟩ : ∃ a b, ((tag :: rest).drop 4).take 2 = [a, b] := by
                        apply List.length_eq_two.mp
                        simp only [List.length_take, List.length_drop]
                        omega
                      rw [hab] at hversion ⊢
                      obtain ⟨rfl, rfl⟩ := ofBeBytes_two.mp (not_not.mp hversion)
                      rfl
                    · rw [← h]
                      exact (validateFieldRanges_eq_ok _).mp hv

/-- A body that is read, with its manifest in range, is accepted. -/
theorem Wire.decode_of_reader {S : Serde} {body : Bytes} {c : CanonicalManifestV1}
    (hlen : body.length ≤ maxManifestBytes) (hc : S.fromReader body = .ok c)
    (hrange : (ofCanonical c).InRange) :
    Wire.decode S (Wire.magic ++ ([0, 1] ++ body)) = .ok (ofCanonical c) := by
  rw [Wire.decode_body, if_neg (Nat.not_lt.mpr hlen), hc]
  simp only [(validateFieldRanges_eq_ok _).mpr hrange]

/-- A manifest of an accepted envelope is written back as that envelope exactly when the body is what
the writer gives for the mirror in it, and the mirror is sorted. -/
theorem Wire.encode_of_decode {S : Serde} {bytes : Bytes} {m : Manifest} (hread : S.Reads m)
    (h : Wire.decode S bytes = .ok m) :
    Wire.encode S m = bytes ↔
      ∃ c, S.fromReader (bytes.drop 6) = .ok c ∧ bytes.drop 6 = S.intoWriter c ∧ c.Sorted := by
  obtain ⟨hhead, _, c, hc, hm, _⟩ := Wire.decode_inv h
  have hbytes : Wire.encode S m = bytes ↔ S.intoWriter m.toCanonical = bytes.drop 6 := by
    have hsplit : bytes = (Wire.magic ++ [0, 1]) ++ bytes.drop 6 := by
      rw [← hhead, List.take_append_drop]
    rw [Wire.encode, ← List.append_assoc]
    constructor
    · intro heq
      rw [hsplit] at heq
      exact List.append_cancel_left heq
    · intro heq
      rw [heq]
      exact hsplit.symm
  rw [hbytes]
  constructor
  · intro heq
    -- the reader finds the mirror that was written
    rw [Serde.Reads, heq, hc] at hread
    have hself : c = m.toCanonical := Except.ok.inj hread
    refine ⟨c, hc, by rw [hself, heq], toCanonical_ofCanonical_iff.mp ?_⟩
    rw [← hm, ← hself]
  · rintro ⟨c', hc', hbody, hsorted⟩
    obtain rfl : c = c' := Except.ok.inj (hc.symm.trans hc')
    rw [hm, toCanonical_ofCanonical_iff.mpr hsorted, hbody]

/-- Round trips of a manifest and of the envelopes it is read from. It comes back from its envelope
exactly when the body is below the decoder's ceiling; manifests that are equal as values have one
envelope; and an accepted envelope comes back from its manifest exactly when its body is what the
writer gives for a sorted mirror. -/
theorem canonical_envelope_iff {S : Serde} {m : Manifest} (hread : S.Reads m) :
    (m.InRange → ((∃ m', Wire.decode S (Wire.encode S m) = .ok m' ∧ m'.SamePersisted m) ↔
      (S.intoWriter m.toCanonical).length ≤ maxManifestBytes)) ∧
    (∀ m', m.SamePersisted m' → Wire.encode S m = Wire.encode S m') ∧
    ∀ bytes, Wire.decode S bytes = .ok m → (Wire.encode S m = bytes ↔
      ∃ c, S.fromReader (bytes.drop 6) = .ok c ∧ bytes.drop 6 = S.intoWriter c ∧ c.Sorted) := by
  refine ⟨fun hrange => ?_, fun m' hsame => ?_, fun bytes hdec => Wire.encode_of_decode hread hdec⟩
  · have hsame := samePersisted_ofCanonical m
    have hvalid : (ofCanonical m.toCanonical).validateFieldRanges = .ok () :=
      (validateFieldRanges_eq_ok _).mpr (hsame.inRange_iff.mpr hrange)
    rw [Wire.decode_encode_eq hread, hvalid]
    constructor
    · intro ⟨m', hm', _⟩
      by_contra hlong
      rw [if_pos (Nat.not_le.mp hlong)] at hm'
      cases hm'
    · intro hsmall
      rw [if_neg (Nat.not_lt.mpr hsmall)]
      exact ⟨_, rfl, hsame⟩
  · rw [Wire.encode, Wire.encode, toCanonical_eq_iff.mpr hsame]

/-! ### Examples -/

theorem Cbor.head_length_pos (major n : Nat) : 0 < (Cbor.head major n).length := by
  unfold Cbor.head
  dsimp only
  split_ifs <;> simp

/-- The value of a field is no longer than the record. -/
theorem Cbor.length_le_record {fields : List (String × Bytes)} (name : String) {value : Bytes}
    (h : (name, value) ∈ fields) : value.length ≤ (Cbor.record fields).length := by
  obtain ⟨l₁, l₂, rfl⟩ := List.append_of_mem h
  simp only [Cbor.record, List.flatMap_append, List.flatMap_cons, List.length_append]
  omega

/-- The serializers, with a reader that knows the bytes of some mirrors and leaves what follows
them. -/
def Serde.reading (cs : List CanonicalManifestV1) : Serde where
  toVec := Msgpack.manifest
  fromSlice _ := .error "invalid msgpack"
  intoWriter := Cbor.manifest
  fromReader bytes :=
    match cs.find? fun c => (Cbor.manifest c).isPrefixOf bytes with
    | some c => .ok c
    | none => .error "invalid cbor"

namespace Envelope.Example

/-- A database of one group with a replay cursor. -/
def manifest : Manifest where
  version := 42
  changeCounter := 100
  pageCount := 2
  pageSize := 4096
  pagesPerGroup := 4
  pageGroupKeys := [some (.pageGroup 0 42)]
  groupPages := [[0, 1]]
  interiorChunkKeys := collectPairs [(7, .interiorChunk 7 42), (2, .interiorChunk 2 42)]
  cursor := ⟨17, [0xAA], 5⟩
  writerId := "node-leader-A"

/-- Its mirror, with the pairs of a map the other way round. -/
def swapped : CanonicalManifestV1 :=
  { manifest.toCanonical with
    interiorChunkKeys := [(7, .interiorChunk 7 42), (2, .interiorChunk 2 42)] }

/-- A decoder that knows the two envelopes. -/
def serde : Serde := .reading [manifest.toCanonical, swapped]

/-- What is read from its envelope. -/
def received : Manifest := ofCanonical manifest.toCanonical

/-- The envelope, and a byte after it. -/
def trailing : Bytes := Wire.magic ++ ([0, 1] ++ (Cbor.manifest manifest.toCanonical ++ [0]))

/-- The envelope of the other order. -/
def unsorted : Bytes := Wire.magic ++ ([0, 1] ++ Cbor.manifest swapped)

/-- A manifest whose first page alone fills the largest body. -/
def large : Manifest := { manifest with dbHeader := some (List.replicate maxManifestBytes 0) }

theorem fromReader_manifest {body : Bytes} (h : Cbor.manifest manifest.toCanonical <+: body) :
    serde.fromReader body = .ok manifest.toCanonical := by
  have hfind : ([manifest.toCanonical, swapped].find? fun c =>
      (Cbor.manifest c).isPrefixOf body) = some manifest.toCanonical :=
    List.find?_cons_of_pos (List.isPrefixOf_iff_prefix.mpr h)
  simp only [serde, Serde.reading, hfind]

theorem fromReader_swapped : serde.fromReader (Cbor.manifest swapped) = .ok swapped := by
  have hother : (Cbor.manifest manifest.toCanonical).isPrefixOf (Cbor.manifest swapped) = false := by
    decide +kernel
  have hfind : ([manifest.toCanonical, swapped].find? fun c =>
      (Cbor.manifest c).isPrefixOf (Cbor.manifest swapped)) = some swapped := by
    rw [List.find?_cons_of_neg (by simp [hother])]
    exact List.find?_cons_of_pos (List.isPrefixOf_iff_prefix.mpr (List.prefix_refl _))
  simp only [serde, Serde.reading, hfind]

theorem received_toCanonical : received.toCanonical = manifest.toCanonical :=
  toCanonical_eq_iff.mpr (samePersisted_ofCanonical manifest)

/-- The other order is collected into the same map. -/
theorem swapped_toCanonical : (ofCanonical swapped).toCanonical = manifest.toCanonical := rfl

theorem reads {m : Manifest} (h : m.toCanonical = manifest.toCanonical) : serde.Reads m := by
  rw [Serde.Reads, h]
  exact fromReader_manifest (List.prefix_refl _)

theorem received_inRange : received.InRange := by
  constructor <;> decide

theorem decode_envelope : Wire.decode serde (Wire.encode serde manifest) = .ok received :=
  Wire.decode_of_reader (by decide +kernel) (fromReader_manifest (List.prefix_refl _)) received_inRange

/-- The body of the large manifest is longer than its first page. -/
theorem large_length : maxManifestBytes < ((Serde.on large).intoWriter large.toCanonical).length := by
  have hheader : ((List.replicate maxManifestBytes (0 : UInt8)).map fun x => Cbor.uint x.toNat) =
      List.replicate maxManifestBytes [0] := by
    rw [List.map_replicate]
    rfl
  have harray : maxManifestBytes <
      (Cbor.array ((List.replicate maxManifestBytes (0 : UInt8)).map fun x => Cbor.uint x.toNat)).length := by
    rw [hheader, Cbor.array, List.length_append, List.flatten_replicate_singleton]
    have hhead : 0 < (Cbor.head 4 (List.replicate maxManifestBytes [(0 : UInt8)]).length).length :=
      Cbor.head_length_pos _ _
    have hpage : (List.replicate maxManifestBytes (0 : UInt8)).length = maxManifestBytes :=
      List.length_replicate
    omega
  refine Nat.lt_of_lt_of_le harray (Cbor.length_le_record "db_header" ?_)
  simp [large, toCanonical]

end Envelope.Example

open Envelope.Example

theorem example_envelope_canonical :
    (∃ m', Wire.decode serde (Wire.encode serde received) = .ok m' ∧ m'.SamePersisted received) ∧
      Wire.encode serde received = Wire.encode serde manifest := by
  have h := canonical_envelope_iff (reads received_toCanonical)
  refine ⟨(h.1 received_inRange).mpr ?_, (h.2.2 _ decode_envelope).mpr ?_⟩
  · rw [received_toCanonical]
    decide +kernel
  · refine ⟨manifest.toCanonical, fromReader_manifest (List.prefix_refl _), rfl, ?_⟩
    exact toCanonical_ofCanonical_iff.mp received_toCanonical

/-- A byte after the body, pairs in another order: both envelopes are accepted and written back as
another one. And a manifest in range, too large for the decoder, is encoded. -/
theorem envelope_not_canonical :
    (Wire.decode serde trailing = .ok received ∧ Wire.encode serde received ≠ trailing) ∧
    (Wire.decode serde unsorted = .ok (ofCanonical swapped) ∧
      Wire.encode serde (ofCanonical swapped) ≠ unsorted) ∧
    serde.Reads received ∧ serde.Reads (ofCanonical swapped) ∧
    (Serde.on large).Reads large ∧ large.InRange ∧
      ∀ m, Wire.decode (Serde.on large) (Wire.encode (Serde.on large) large) ≠ .ok m := by
  refine ⟨⟨?_, ?_⟩, ⟨?_, ?_⟩, reads received_toCanonical, reads swapped_toCanonical,
    (Serde.roundTrips_on large).fromReader, ?_, ?_⟩
  · exact Wire.decode_of_reader (by decide +kernel)
      (fromReader_manifest (List.prefix_append _ _)) received_inRange
  · rw [Wire.encode, received_toCanonical]
    decide +kernel
  · exact Wire.decode_of_reader (by decide +kernel) fromReader_swapped (by constructor <;> decide)
  · rw [Wire.encode, swapped_toCanonical]
    decide +kernel
  · constructor <;> decide
  · intro m hm
    rw [Wire.decode_encode_eq (Serde.roundTrips_on large).fromReader, if_pos large_length] at hm
    cases hm

end Turbolite
