import Turbolite.Checkpoint
import Turbolite.ReplayCursor
import Turbolite.Serializers

/-!
# Turbolite.ReplayAnchor

The anchored publish (`manifest_bytes_with_replay_cursor_anchor`): stamp the cursor, hash the envelope
with the checksum field cleared (`base_anchor_checksum`), put the hash into the field, persist, install
and encode. The hash is a parameter, as the serializers are.

The envelope is a function of the persisted fields (`Manifest.toCanonical_eq_iff`), so what the follower
decodes hashes to the anchor it carries. The encoder does not make the decoder's checks, though: a
manifest that the decoder refuses is published like any other.
-/

namespace Turbolite

open Manifest

/-- The manifest with `cursor.base_object_checksum` cleared. -/
def Manifest.clearAnchor (m : Manifest) : Manifest :=
  { m with cursor := { m.cursor with baseObjectChecksum := [] } }

section

variable (S : Serde) (hash : Bytes → Bytes)

/-- `base_anchor_checksum`. -/
def baseAnchorChecksum (m : Manifest) : Bytes := hash (Wire.encode S m.clearAnchor)

/-- The shared manifest and the one in the cache directory. -/
structure Installed where
  shared : Manifest
  persisted : Option Manifest := none

/-- The serializer of the envelope gives a manifest back. -/
def Serde.Reads (m : Manifest) : Prop :=
  S.fromReader (S.intoWriter m.toCanonical) = .ok m.toCanonical

/-- How persisting fails: before or after the new state file has its name. -/
structure PersistFault where
  renamed : Bool
  error : IoError

/-- `manifest_bytes_with_installed_replay_cursor_anchor`. -/
def manifestBytesWithReplayCursorAnchor (s : Installed) (fault : Option PersistFault)
    (lastAppliedSeq epoch : Nat) (writerId : String) : Installed × IoResult (Bytes × Bytes) :=
  match s.shared.validateReplayCursorPublish lastAppliedSeq epoch writerId with
  | .error e => (s, .error e)
  | .ok () =>
    let m := s.shared.withReplayCursorAnchor lastAppliedSeq epoch writerId
      (baseAnchorChecksum S hash)
    match fault with
    | some f => (if f.renamed then { s with persisted := some m.persisted } else s, .error f.error)
    | none => (⟨m, some m.persisted⟩, .ok (Wire.encode S m, m.cursor.baseObjectChecksum))

end

/-! ### What the checksum covers -/

section

variable {S : Serde} {hash : Bytes → Bytes}

/-- Manifests that agree on the persisted fields agree on them without the checksum. -/
theorem Manifest.SamePersisted.clearAnchor {a b : Manifest} (h : a.SamePersisted b) :
    a.clearAnchor.SamePersisted b.clearAnchor :=
  { h with cursor := by simp only [Manifest.clearAnchor, h.cursor] }

/-- The checksum reads persisted fields only. -/
theorem baseAnchorChecksum_congr {a b : Manifest}
    (h : a.clearAnchor.SamePersisted b.clearAnchor) :
    baseAnchorChecksum S hash a = baseAnchorChecksum S hash b := by
  rw [baseAnchorChecksum, baseAnchorChecksum, Wire.encode, Wire.encode, toCanonical_eq_iff.mpr h]

/-- The checksum reads every persisted field but itself. -/
theorem samePersisted_of_baseAnchorChecksum (hinj : Function.Injective hash) {a b : Manifest}
    (ha : S.Reads a.clearAnchor) (hb : S.Reads b.clearAnchor)
    (h : baseAnchorChecksum S hash a = baseAnchorChecksum S hash b) :
    a.clearAnchor.SamePersisted b.clearAnchor := by
  have hbody : S.intoWriter a.clearAnchor.toCanonical = S.intoWriter b.clearAnchor.toCanonical := by
    have henc := hinj h
    simpa only [Wire.encode, List.append_cancel_left_eq] using henc
  rw [Serde.Reads, hbody, hb] at ha
  exact toCanonical_eq_iff.mp (Except.ok.inj ha).symm

end

/-! ### The publish -/

section

variable {S : Serde} {hash : Bytes → Bytes} {s s' : Installed} {fault : Option PersistFault}
  {seq epoch : Nat} {writerId : String} {payload anchor : Bytes}

theorem publish_inv
    (h : manifestBytesWithReplayCursorAnchor S hash s fault seq epoch writerId =
      (s', .ok (payload, anchor))) :
    s'.shared = s.shared.withReplayCursorAnchor seq epoch writerId (baseAnchorChecksum S hash) ∧
      s'.persisted = some s'.shared.persisted ∧ payload = Wire.encode S s'.shared ∧
      anchor = s'.shared.cursor.baseObjectChecksum := by
  unfold manifestBytesWithReplayCursorAnchor at h
  split at h
  · cases h
  · split at h
    · cases h
    · cases h
      exact ⟨rfl, rfl, rfl, rfl⟩

/-- The stamped manifest carries its own checksum. -/
theorem baseObjectChecksum_withReplayCursorAnchor (m : Manifest) :
    (m.withReplayCursorAnchor seq epoch writerId (baseAnchorChecksum S hash)).cursor.baseObjectChecksum =
      baseAnchorChecksum S hash
        (m.withReplayCursorAnchor seq epoch writerId (baseAnchorChecksum S hash)) :=
  rfl

/-- The stamp changes nothing the range check reads. -/
theorem inRange_withReplayCursorAnchor (m : Manifest) (f : Manifest → Bytes) :
    (m.withReplayCursorAnchor seq epoch writerId f).InRange ↔ m.InRange := by
  constructor
  · intro h
    exact ⟨h.pageSize, h.pagesPerGroup, h.pageCount, h.frameTables, h.subframeOverrides, h.groupPages⟩
  · intro h
    exact ⟨h.pageSize, h.pagesPerGroup, h.pageCount, h.frameTables, h.subframeOverrides, h.groupPages⟩

/-- The payload is the installed manifest with its own checksum in it, and no other manifest that can be
read back has that checksum. -/
structure AnchorConsistent (S : Serde) (hash : Bytes → Bytes) (s : Installed) (payload : Bytes) :
    Prop where
  decodes : ∃ m, Wire.decode S payload = .ok m ∧
    m.cursor.baseObjectChecksum = baseAnchorChecksum S hash m ∧
    m.SamePersisted s.shared ∧ ∃ l ∈ s.persisted, m.SamePersisted l
  binds : ∀ a b : Manifest, S.Reads a.clearAnchor → S.Reads b.clearAnchor →
    ¬a.clearAnchor.SamePersisted b.clearAnchor →
    baseAnchorChecksum S hash a ≠ baseAnchorChecksum S hash b

/-- The payload decodes when the installed manifest is in range and the body is below the limit, and
then to the persisted fields of the installed manifest. -/
theorem decode_payload_iff (hread : S.Reads s'.shared)
    (h : manifestBytesWithReplayCursorAnchor S hash s fault seq epoch writerId =
      (s', .ok (payload, anchor))) {m : Manifest} :
    Wire.decode S payload = .ok m ↔
      m = ofCanonical s'.shared.toCanonical ∧ s.shared.InRange ∧
        (S.intoWriter s'.shared.toCanonical).length ≤ maxManifestBytes := by
  obtain ⟨hshared, -, hpayload, -⟩ := publish_inv h
  have hrange : s.shared.InRange ↔
      (ofCanonical s'.shared.toCanonical).validateFieldRanges = .ok () := by
    rw [Manifest.validateFieldRanges_eq_ok, s'.shared.samePersisted_ofCanonical.inRange_iff, hshared,
      inRange_withReplayCursorAnchor]
  rw [hpayload, Wire.decode_encode_eq hread, hrange]
  split
  · rename_i hsize
    simp [Nat.not_le.mpr hsize]
  · rename_i hsize
    split
    · rename_i hv
      simp [hv]
    · rename_i hv
      simp [hv, Nat.le_of_not_lt hsize, eq_comm]

/-- An accepted publish is consistent exactly when the shared manifest passes the decoder's range check
and the body stays below its size limit. -/
theorem anchor_consistent_iff
    (hread : S.Reads
      (s.shared.withReplayCursorAnchor seq epoch writerId (baseAnchorChecksum S hash)))
    (hinj : Function.Injective hash)
    (h : manifestBytesWithReplayCursorAnchor S hash s fault seq epoch writerId =
      (s', .ok (payload, anchor))) :
    AnchorConsistent S hash s' payload ↔
      s.shared.InRange ∧
        (S.intoWriter (s.shared.withReplayCursorAnchor seq epoch writerId
          (baseAnchorChecksum S hash)).toCanonical).length ≤ maxManifestBytes := by
  obtain ⟨hshared, hpersisted, -, -⟩ := publish_inv h
  rw [← hshared] at hread ⊢
  have hdecode := @decode_payload_iff _ _ _ _ _ _ _ _ _ _ hread h
  constructor
  · intro hc
    obtain ⟨m, hm, -⟩ := hc.decodes
    exact (hdecode.mp hm).2
  · intro hc
    have hsame := s'.shared.samePersisted_ofCanonical
    constructor
    · refine ⟨_, hdecode.mpr ⟨rfl, hc⟩, ?_, hsame, _, hpersisted, ?_⟩
      · rw [hsame.cursor, baseAnchorChecksum_congr hsame.clearAnchor, hshared]
        exact baseObjectChecksum_withReplayCursorAnchor s.shared
      · have hp := toCanonical_eq_iff.mpr s'.shared.samePersisted_persisted
        exact toCanonical_eq_iff.mp ((toCanonical_eq_iff.mpr hsame).trans hp.symm)
    · intro a b ha hb hne heq
      exact hne (samePersisted_of_baseAnchorChecksum hinj ha hb heq)

end

namespace ReplayAnchor.Example

/-- One page in one group, with its object. -/
def base : Manifest :=
  ({ version := 1
     pageCount := 1
     pageSize := 512
     pagesPerGroup := 1
     pageGroupKeys := [some (.pageGroup 0 1)]
     groupPages := [[0]] } : Manifest).buildPageIndex

/-- After a local checkpoint of a page past the end: its group has no object yet. -/
def grown : Manifest := base.localCheckpoint [1] 1

/-- What writer `a` publishes of it at sequence 3, epoch 11. -/
def stamped (m : Manifest) : Manifest :=
  m.withReplayCursorAnchor 3 11 "writer-a" (baseAnchorChecksum (Serde.on m) id)

/-- The serializers, on what is published. -/
def serde (m : Manifest) : Serde := Serde.on (stamped m)

/-- The manifest that was current before the stamp. -/
def before (m : Manifest) : Installed := ⟨m, none⟩

/-- The stamped manifest, as it is installed and persisted. -/
def installed (m : Manifest) : Installed := ⟨stamped m, some (stamped m).persisted⟩

/-- The checksum does not look at the decoders. -/
theorem checksum_serde (m : Manifest) :
    baseAnchorChecksum (serde m) id = baseAnchorChecksum (Serde.on m) id := by
  funext m'
  unfold baseAnchorChecksum Wire.encode serde Serde.on
  rfl

theorem stamped_eq (m : Manifest) :
    (before m).shared.withReplayCursorAnchor 3 11 "writer-a" (baseAnchorChecksum (serde m) id) =
      stamped m := by
  rw [checksum_serde, stamped, before]

theorem reads (m : Manifest) : (serde m).Reads (stamped m) := (Serde.roundTrips_on _).fromReader

theorem publish (m : Manifest) (h : m.validateReplayCursorPublish 3 11 "writer-a" = .ok ()) :
    manifestBytesWithReplayCursorAnchor (serde m) id (before m) none 3 11 "writer-a" =
      (installed m, .ok (Wire.encode (serde m) (stamped m), (stamped m).cursor.baseObjectChecksum)) := by
  have hv : (before m).shared.validateReplayCursorPublish 3 11 "writer-a" = .ok () := h
  simp only [manifestBytesWithReplayCursorAnchor, hv, stamped_eq, installed]

theorem small_base :
    ((serde base).intoWriter (stamped base).toCanonical).length ≤ maxManifestBytes := by
  have hsmall : (Cbor.manifest (stamped base).toCanonical).length ≤ maxManifestBytes := by
    decide +kernel
  exact hsmall

end ReplayAnchor.Example

open ReplayAnchor in
/-- The base before the checkpoint. -/
theorem base_anchor_consistent :
    AnchorConsistent (Example.serde Example.base) id (Example.installed Example.base)
      (Wire.encode (Example.serde Example.base) (Example.stamped Example.base)) := by
  have hpub := Example.publish Example.base (by decide)
  have hread : (Example.serde Example.base).Reads
      ((Example.before Example.base).shared.withReplayCursorAnchor 3 11 "writer-a"
        (baseAnchorChecksum (Example.serde Example.base) id)) := by
    rw [Example.stamped_eq]
    exact Example.reads _
  refine (anchor_consistent_iff hread Function.injective_id hpub).mpr ⟨?_, ?_⟩
  · constructor <;> decide
  · rw [Example.stamped_eq]
    exact Example.small_base

open ReplayAnchor in
/-- After the checkpoint the publish is accepted, and its payload does not decode. -/
theorem grown_base_refused :
    manifestBytesWithReplayCursorAnchor (Example.serde Example.grown) id (Example.before Example.grown)
        none 3 11 "writer-a" =
      (Example.installed Example.grown,
        .ok (Wire.encode (Example.serde Example.grown) (Example.stamped Example.grown),
          (Example.stamped Example.grown).cursor.baseObjectChecksum)) ∧
    ¬AnchorConsistent (Example.serde Example.grown) id (Example.installed Example.grown)
      (Wire.encode (Example.serde Example.grown) (Example.stamped Example.grown)) := by
  have hpub := Example.publish Example.grown (by decide)
  refine ⟨hpub, ?_⟩
  intro hc
  obtain ⟨m, hm, -⟩ := hc.decodes
  have hread : (Example.serde Example.grown).Reads (Example.installed Example.grown).shared :=
    Example.reads _
  have hrange := ((decode_payload_iff hread hpub).mp hm).2.1
  exact absurd hrange.groupPages (by decide)

end Turbolite
