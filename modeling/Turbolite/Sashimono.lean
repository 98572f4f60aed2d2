import Turbolite.Keys
import Turbolite.Lib.Results
import Mathlib.Data.List.Chain
import Mathlib.Data.List.Permutation

/-!
# Turbolite.Sashimono

The object contracts of `sashimono.rs`: root pointers, checkpoints and deltas, their checks, and the
selection of a recovery plan. `root_pointers_advance` is about histories of root pointers;
`recovery_plan_iff` says when the plan that is selected is the plan the objects determine.

Fields have the widths of the source, and their arithmetic wraps as in a release build.
-/

namespace Turbolite.Sashimono

open Results

/-- `SASHIMONO_FORMAT_VERSION`. -/
def sashimonoFormatVersion : UInt16 := 1

/-- What an object is. -/
inductive ObjectKind where
  | rootPointer
  | checkpoint
  | delta
  deriving DecidableEq, Repr

/-- The boundaries at which a delta may end. -/
inductive CommittedBoundary where
  | afterSqliteCommit
  | afterWalFlush
  | afterCheckpoint
  | explicitBarrier
  deriving DecidableEq, Repr

/-! ### Objects -/

/-- The pointer to the newest checkpoint of a database. -/
structure RootPointerV1 where
  kind : ObjectKind
  formatVersion : UInt16
  tenantScope : String
  databaseId : String
  databaseIncarnationId : String
  objectPrefix : String
  rootGeneration : UInt64
  writerId : String
  leaseEpoch : UInt64
  checkpointId : String
  latestDeltaSequence : UInt64
  latestDatabaseVersion : UInt64
  stateChecksum : UInt64
  deriving DecidableEq

/-- A run of pages in a checkpoint, and the object that has them. -/
structure PageObjectRefV1 where
  firstPage : UInt64
  pageCount : UInt64
  key : String
  checksum : UInt64
  deriving DecidableEq

/-- A checkpoint: the whole database at one version. -/
structure CheckpointV1 where
  kind : ObjectKind
  formatVersion : UInt16
  tenantScope : String
  databaseId : String
  databaseIncarnationId : String
  objectPrefix : String
  writerId : String
  leaseEpoch : UInt64
  checkpointId : String
  checkpointDeltaSequence : UInt64
  databaseVersion : UInt64
  pageSize : UInt32
  databasePageCount : UInt64
  pageObjects : List PageObjectRefV1
  deriving DecidableEq

/-- A page of a delta. -/
structure DeltaPageV1 where
  pageNumber : UInt64
  bytes : Bytes
  deriving DecidableEq

/-- A delta: the pages changed between two versions. -/
structure DeltaV1 where
  kind : ObjectKind
  formatVersion : UInt16
  tenantScope : String
  databaseId : String
  databaseIncarnationId : String
  objectPrefix : String
  writerId : String
  leaseEpoch : UInt64
  baseDatabaseVersion : UInt64
  endDatabaseVersion : UInt64
  sequence : UInt64
  pageSize : UInt32
  baseDatabasePageCount : UInt64
  endDatabasePageCount : UInt64
  committedBoundary : CommittedBoundary
  changedPages : List DeltaPageV1
  checksum : UInt64
  replayIdempotencyKey : String
  deriving DecidableEq

/-- Why an object breaks the contract. -/
inductive ContractError where
  | wrongKind (expected actual : ObjectKind)
  | unsupportedFormatVersion (version : UInt16)
  | emptyField (field : String)
  | zeroField (field : String)
  | rootRollback
  | staleLeaseEpoch
  | rootIdentityMismatch
  | wrongObjectPrefix
  | nonContiguousDelta (expected actual : UInt64)
  | versionMismatch (expected actual : UInt64)
  | pageSizeMismatch (expected actual : UInt32)
  | databaseSizeMismatch (expected actual : UInt64)
  | missingCheckpoint (id : String)
  | missingDelta (sequence : UInt64)
  | duplicateDelta (sequence : UInt64)
  | replayChainTooLong (max actual : UInt64)
  | deltaPageOutOfRange (pageNumber endPageCount : UInt64)
  | pageObjectOutOfRange (firstPage pageCount databasePageCount : UInt64)
  | deltaPageWrongSize (pageNumber : UInt64) (expected actual : Nat)
  | deltaChecksumMismatch (expected actual : UInt64)
  deriving DecidableEq, Repr

/-- A check of the contract. -/
abbrev ContractResult := Except ContractError

/-- A checkpoint and the deltas to replay on it. -/
structure RecoveryPlanV1 where
  checkpoint : CheckpointV1
  deltas : List DeltaV1
  deriving DecidableEq

/-! ### Field checks -/

/-- `if !condition { return Err(error) }`. -/
def require (condition : Prop) [Decidable condition] (error : ContractError) : ContractResult Unit :=
  if condition then .ok () else .error error

@[simp] theorem require_eq_ok {condition : Prop} [Decidable condition] {error : ContractError}
    {u : Unit} : require condition error = .ok u ↔ condition := by
  unfold require
  split
  · simp [*]
  · simp [*]

@[simp] theorem require_eq_error {condition : Prop} [Decidable condition] {error e : ContractError} :
    require condition error = .error e ↔ ¬ condition ∧ e = error := by
  unfold require
  split
  · simp [*]
  · simp [*, eq_comm]

/-- `require_kind`. -/
def requireKind (actual expected : ObjectKind) : ContractResult Unit :=
  require (actual = expected) (.wrongKind expected actual)

/-- `require_nonempty`. -/
def requireNonempty (field value : String) : ContractResult Unit :=
  require (value ≠ "") (.emptyField field)

/-- `require_nonzero`. -/
def requireNonzero (field : String) (value : UInt64) : ContractResult Unit :=
  require (value ≠ 0) (.zeroField field)

/-- `validate_common`. -/
def validateCommon (formatVersion : UInt16) (tenantScope databaseId databaseIncarnationId objectPrefix
    writerId : String) (leaseEpoch : UInt64) : ContractResult Unit := do
  require (formatVersion = sashimonoFormatVersion) (.unsupportedFormatVersion formatVersion)
  requireNonempty "tenant_scope" tenantScope
  requireNonempty "database_id" databaseId
  requireNonempty "database_incarnation_id" databaseIncarnationId
  requireNonempty "object_prefix" objectPrefix
  requireNonempty "writer_id" writerId
  requireNonzero "lease_epoch" leaseEpoch

/-! ### Checks of one object -/

/-- `RootPointerV1::validate`. -/
def RootPointerV1.validate (r : RootPointerV1) : ContractResult Unit := do
  requireKind r.kind .rootPointer
  validateCommon r.formatVersion r.tenantScope r.databaseId r.databaseIncarnationId r.objectPrefix
    r.writerId r.leaseEpoch
  requireNonempty "checkpoint_id" r.checkpointId
  requireNonzero "root_generation" r.rootGeneration
  requireNonzero "state_checksum" r.stateChecksum

/-- The two roots are of one database. -/
def RootPointerV1.SameDatabase (r s : RootPointerV1) : Prop :=
  r.tenantScope = s.tenantScope ∧ r.databaseId = s.databaseId ∧
    r.databaseIncarnationId = s.databaseIncarnationId ∧ r.objectPrefix = s.objectPrefix

instance (r s : RootPointerV1) : Decidable (r.SameDatabase s) :=
  inferInstanceAs (Decidable (_ ∧ _ ∧ _ ∧ _))

/-- `RootPointerV1::validate_update_from`. -/
def RootPointerV1.validateUpdateFrom (r previous : RootPointerV1) : ContractResult Unit := do
  r.validate
  previous.validate
  require (r.SameDatabase previous ∧ r.checkpointId ≠ "") .rootIdentityMismatch
  require (previous.rootGeneration < r.rootGeneration) .rootRollback
  require (previous.latestDeltaSequence ≤ r.latestDeltaSequence ∧
    previous.latestDatabaseVersion ≤ r.latestDatabaseVersion) .rootRollback
  require (previous.leaseEpoch ≤ r.leaseEpoch) .staleLeaseEpoch

/-- `key_has_object_prefix`: what is left of the key begins with a slash. -/
def keyHasObjectPrefix (key objectPrefix : String) : Bool :=
  (objectPrefix.toList ++ ['/']).isPrefixOf key.toList

/-- `PageObjectRefV1::validate`. -/
def PageObjectRefV1.validate (o : PageObjectRefV1) (databasePageCount : UInt64)
    (objectPrefix : String) : ContractResult Unit := do
  requireNonempty "page_object.key" o.key
  requireNonzero "page_object.page_count" o.pageCount
  requireNonzero "page_object.checksum" o.checksum
  require (keyHasObjectPrefix o.key objectPrefix = true) .wrongObjectPrefix
  -- an end past `u64` is an end past the database
  require (o.firstPage.toNat + o.pageCount.toNat ≤ databasePageCount.toNat)
    (.pageObjectOutOfRange o.firstPage o.pageCount databasePageCount)

/-- `CheckpointV1::validate`. -/
def CheckpointV1.validate (c : CheckpointV1) : ContractResult Unit := do
  requireKind c.kind .checkpoint
  validateCommon c.formatVersion c.tenantScope c.databaseId c.databaseIncarnationId c.objectPrefix
    c.writerId c.leaseEpoch
  requireNonempty "checkpoint_id" c.checkpointId
  requireNonzero "database_version" c.databaseVersion
  requireNonzero "page_size" c.pageSize.toUInt64
  requireNonzero "database_page_count" c.databasePageCount
  require (c.pageObjects ≠ []) (.emptyField "page_objects")
  c.pageObjects.forM fun o => o.validate c.databasePageCount c.objectPrefix

/-- `DeltaPageV1::validate`. -/
def DeltaPageV1.validate (p : DeltaPageV1) (pageSize : UInt32) (endPageCount : UInt64) :
    ContractResult Unit := do
  require (p.pageNumber < endPageCount) (.deltaPageOutOfRange p.pageNumber endPageCount)
  require (p.bytes.length = pageSize.toNat)
    (.deltaPageWrongSize p.pageNumber pageSize.toNat p.bytes.length)

/-- `committed_boundary_discriminant`. -/
def CommittedBoundary.discriminant : CommittedBoundary → UInt64
  | .afterSqliteCommit => 1
  | .afterWalFlush => 2
  | .afterCheckpoint => 3
  | .explicitBarrier => 4

/-- The bytes are added to the sum, which wraps around. -/
def addBytes (sum : UInt64) (bytes : Bytes) : UInt64 := bytes.foldl (fun s b => s + b.toUInt64) sum

/-- `add_str`. -/
def addStr (sum : UInt64) (value : String) : UInt64 := addBytes sum value.toUTF8.data.toList

/-- `fixture_checksum`. -/
def DeltaV1.fixtureChecksum (d : DeltaV1) : UInt64 :=
  let ids := [d.tenantScope, d.databaseId, d.databaseIncarnationId, d.objectPrefix,
    d.writerId].foldl addStr 0
  let fields := ids + d.leaseEpoch + d.baseDatabaseVersion + d.endDatabaseVersion + d.sequence +
    d.pageSize.toUInt64 + d.baseDatabasePageCount + d.endDatabasePageCount +
    d.committedBoundary.discriminant
  d.changedPages.foldl (fun s p => addBytes (s + p.pageNumber) p.bytes)
    (addStr fields d.replayIdempotencyKey)

/-- `DeltaV1::validate`. -/
def DeltaV1.validate (d : DeltaV1) : ContractResult Unit := do
  requireKind d.kind .delta
  validateCommon d.formatVersion d.tenantScope d.databaseId d.databaseIncarnationId d.objectPrefix
    d.writerId d.leaseEpoch
  requireNonzero "base_database_version" d.baseDatabaseVersion
  requireNonzero "end_database_version" d.endDatabaseVersion
  requireNonzero "sequence" d.sequence
  requireNonzero "page_size" d.pageSize.toUInt64
  requireNonempty "replay_idempotency_key" d.replayIdempotencyKey
  require (d.baseDatabaseVersion < d.endDatabaseVersion)
    (.versionMismatch (d.baseDatabaseVersion + 1) d.endDatabaseVersion)
  d.changedPages.forM fun p => p.validate d.pageSize d.endDatabasePageCount
  require (d.checksum = d.fixtureChecksum) (.deltaChecksumMismatch d.fixtureChecksum d.checksum)

/-! ### Recovery plans -/

/-- `delta_has_root_identity`. -/
def DeltaV1.HasRootIdentity (d : DeltaV1) (root : RootPointerV1) : Prop :=
  d.tenantScope = root.tenantScope ∧ d.databaseId = root.databaseId ∧
    d.databaseIncarnationId = root.databaseIncarnationId ∧ d.objectPrefix = root.objectPrefix ∧
    d.writerId = root.writerId ∧ d.leaseEpoch = root.leaseEpoch

/-- The same fields of a checkpoint. -/
def CheckpointV1.HasRootIdentity (c : CheckpointV1) (root : RootPointerV1) : Prop :=
  c.tenantScope = root.tenantScope ∧ c.databaseId = root.databaseId ∧
    c.databaseIncarnationId = root.databaseIncarnationId ∧ c.objectPrefix = root.objectPrefix ∧
    c.writerId = root.writerId ∧ c.leaseEpoch = root.leaseEpoch

instance (d : DeltaV1) (root : RootPointerV1) : Decidable (d.HasRootIdentity root) :=
  inferInstanceAs (Decidable (_ ∧ _ ∧ _ ∧ _ ∧ _ ∧ _))

instance (c : CheckpointV1) (root : RootPointerV1) : Decidable (c.HasRootIdentity root) :=
  inferInstanceAs (Decidable (_ ∧ _ ∧ _ ∧ _ ∧ _ ∧ _))

/-- `validate_checkpoint_for_root`. -/
def validateCheckpointForRoot (c : CheckpointV1) (root : RootPointerV1) : ContractResult Unit := do
  c.validate
  require (c.HasRootIdentity root ∧ c.checkpointId = root.checkpointId) .rootIdentityMismatch
  require (c.databaseVersion ≤ root.latestDatabaseVersion)
    (.versionMismatch root.latestDatabaseVersion c.databaseVersion)

/-- `validate_delta_after_state`. -/
def validateDeltaAfterState (d : DeltaV1) (root : RootPointerV1)
    (expectedSequence expectedVersion expectedPageCount : UInt64) (expectedPageSize : UInt32) :
    ContractResult Unit := do
  d.validate
  require (d.HasRootIdentity root) .rootIdentityMismatch
  require (d.sequence = expectedSequence) (.nonContiguousDelta expectedSequence d.sequence)
  require (d.baseDatabaseVersion = expectedVersion)
    (.versionMismatch expectedVersion d.baseDatabaseVersion)
  require (d.baseDatabasePageCount = expectedPageCount)
    (.databaseSizeMismatch expectedPageCount d.baseDatabasePageCount)
  require (d.pageSize = expectedPageSize) (.pageSizeMismatch expectedPageSize d.pageSize)

/-- The deltas of the root's identity with a sequence number. -/
def candidates (root : RootPointerV1) (deltas : List DeltaV1) (sequence : UInt64) : List DeltaV1 :=
  deltas.filter fun d => d.sequence = sequence ∧ d.HasRootIdentity root

/-- The only candidate. -/
def soleCandidate (root : RootPointerV1) (deltas : List DeltaV1) (sequence : UInt64) :
    ContractResult DeltaV1 :=
  match candidates root deltas sequence with
  | [] => .error (.missingDelta sequence)
  | [d] => .ok d
  | _ => .error (.duplicateDelta sequence)

/-- The loop of `select_recovery_plan` over `n` sequence numbers from `seq` on: the deltas it plans and
the version they lead to. -/
def planDeltas (root : RootPointerV1) (deltas : List DeltaV1) (pageSize : UInt32) :
    (n seq : Nat) → (version pageCount : UInt64) → ContractResult (List DeltaV1 × UInt64)
  | 0, _, version, _ => .ok ([], version)
  | n + 1, seq, version, pageCount => do
    let d ← soleCandidate root deltas (.ofNat seq)
    validateDeltaAfterState d root (.ofNat seq) version pageCount pageSize
    let (planned, final) ← planDeltas root deltas pageSize n (seq + 1) d.endDatabaseVersion
      d.endDatabasePageCount
    .ok (d :: planned, final)

/-- How a selection ends without a plan: it returns an error, or `Vec::with_capacity` panics. -/
inductive Failure where
  | returned (e : ContractError)
  | capacityOverflow
  deriving DecidableEq, Repr

/-- The `?` of the selection. -/
def returning {α : Type} (r : ContractResult α) : Except Failure α := r.mapError .returned

/-- `size_of::<DeltaV1>()`: six strings and a `Vec` of three words each, seven `u64`, and eight bytes for
the page size, the format version and the two enumerations. -/
def deltaSize : Nat := 7 * 24 + 7 * 8 + 8

/-- `isize::MAX`, the most bytes that a `Vec` can reserve. -/
def maxReserved : Nat := 2 ^ 63 - 1

/-- `Vec::with_capacity` of deltas. -/
def reserveDeltas (n : Nat) : Except Failure Unit :=
  if n * deltaSize ≤ maxReserved then .ok () else .error .capacityOverflow

/-- What `select_recovery_plan` does once it has found a checkpoint. -/
def planFromCheckpoint (root : RootPointerV1) (c : CheckpointV1) (deltas : List DeltaV1)
    (maxDeltaReplay : UInt64) : Except Failure RecoveryPlanV1 := do
  returning (validateCheckpointForRoot c root)
  returning (require (c.checkpointDeltaSequence ≤ root.latestDeltaSequence)
    (.nonContiguousDelta c.checkpointDeltaSequence root.latestDeltaSequence))
  let replayLen := root.latestDeltaSequence - c.checkpointDeltaSequence
  returning (require (replayLen ≤ maxDeltaReplay) (.replayChainTooLong maxDeltaReplay replayLen))
  reserveDeltas replayLen.toNat
  -- the first sequence number wraps at the end of `u64`
  let start := (c.checkpointDeltaSequence + 1).toNat
  let (planned, version) ← returning (planDeltas root deltas c.pageSize
    (root.latestDeltaSequence.toNat + 1 - start) start c.databaseVersion c.databasePageCount)
  returning (require (version = root.latestDatabaseVersion)
    (.versionMismatch root.latestDatabaseVersion version))
  .ok ⟨c, planned⟩

/-- `select_recovery_plan`. -/
def selectRecoveryPlan (root : RootPointerV1) (checkpoints : List CheckpointV1)
    (deltas : List DeltaV1) (maxDeltaReplay : UInt64) : Except Failure RecoveryPlanV1 := do
  returning root.validate
  match checkpoints.find? (·.checkpointId = root.checkpointId) with
  | none => .error (.returned (.missingCheckpoint root.checkpointId))
  | some c => planFromCheckpoint root c deltas maxDeltaReplay

@[simp] theorem returning_eq_ok {α : Type} {r : ContractResult α} {a : α} :
    returning r = .ok a ↔ r = .ok a := by
  cases r with
  | error e => simp [returning, Except.mapError]
  | ok b => simp [returning, Except.mapError]

@[simp] theorem returning_eq_error {α : Type} {r : ContractResult α} {f : Failure} :
    returning r = .error f ↔ ∃ e, r = .error e ∧ f = .returned e := by
  cases r with
  | error e => simp [returning, Except.mapError, eq_comm]
  | ok b => simp [returning, Except.mapError]

@[simp] theorem reserveDeltas_eq_ok {n : Nat} {u : Unit} :
    reserveDeltas n = .ok u ↔ n * deltaSize ≤ maxReserved := by
  unfold reserveDeltas
  split
  · simp [*]
  · simp [*]

@[simp] theorem reserveDeltas_eq_error {n : Nat} {f : Failure} :
    reserveDeltas n = .error f ↔ maxReserved < n * deltaSize ∧ f = .capacityOverflow := by
  unfold reserveDeltas
  split
  · rename_i h
    simp [Nat.not_lt.mpr h]
  · rename_i h
    simp [Nat.not_le.mp h, eq_comm]

/-! ### Histories of root pointers -/

/-- One root can be followed by the other: nothing of the database goes back. -/
structure RootPointerV1.Advances (previous next : RootPointerV1) : Prop where
  same : next.SameDatabase previous
  generation : previous.rootGeneration < next.rootGeneration
  sequence : previous.latestDeltaSequence ≤ next.latestDeltaSequence
  version : previous.latestDatabaseVersion ≤ next.latestDatabaseVersion
  lease : previous.leaseEpoch ≤ next.leaseEpoch

theorem RootPointerV1.SameDatabase.trans {r s t : RootPointerV1} (hrs : r.SameDatabase s)
    (hst : s.SameDatabase t) : r.SameDatabase t :=
  ⟨hrs.1.trans hst.1, hrs.2.1.trans hst.2.1, hrs.2.2.1.trans hst.2.2.1, hrs.2.2.2.trans hst.2.2.2⟩

theorem RootPointerV1.Advances.trans {r s t : RootPointerV1} (hrs : r.Advances s)
    (hst : s.Advances t) : r.Advances t where
  same := hst.same.trans hrs.same
  generation := UInt64.lt_trans hrs.generation hst.generation
  sequence := UInt64.le_trans hrs.sequence hst.sequence
  version := UInt64.le_trans hrs.version hst.version
  lease := UInt64.le_trans hrs.lease hst.lease

/-- An accepted update advances its predecessor. -/
theorem RootPointerV1.validateUpdateFrom_inv {previous next : RootPointerV1}
    (h : next.validateUpdateFrom previous = .ok ()) : previous.Advances next := by
  simp only [validateUpdateFrom, bind_eq_ok, require_eq_ok] at h
  obtain ⟨_, -, _, -, _, hsame, _, hgen, _, hseq, hlease⟩ := h
  exact ⟨hsame.1, hgen, hseq.1, hseq.2, hlease⟩

/-- The update of one root by the next is accepted. -/
def RootPointerV1.UpdatesTo (previous next : RootPointerV1) : Prop :=
  next.validateUpdateFrom previous = .ok ()

/-- Any number of accepted updates advance the root they begin at. -/
theorem RootPointerV1.advances_of_updates {r s : RootPointerV1}
    (h : Relation.TransGen UpdatesTo r s) : r.Advances s := by
  induction h with
  | single hupdate => exact validateUpdateFrom_inv hupdate
  | tail _ hupdate ih => exact ih.trans (validateUpdateFrom_inv hupdate)

/-- The roots of a chain of accepted updates advance: of any two of them the later is of the same
database and of a later generation, nothing it counts is less, and no updates lead from it back to
the earlier. -/
theorem root_pointers_advance {roots : List RootPointerV1}
    (h : roots.IsChain RootPointerV1.UpdatesTo) :
    roots.Pairwise fun earlier later => earlier.Advances later ∧ earlier ≠ later ∧
      ¬ Relation.TransGen RootPointerV1.UpdatesTo later earlier := by
  have hchain : roots.IsChain RootPointerV1.Advances :=
    h.imp fun _ _ hupdate => RootPointerV1.validateUpdateFrom_inv hupdate
  have htrans : IsTrans RootPointerV1 RootPointerV1.Advances :=
    ⟨fun _ _ _ => RootPointerV1.Advances.trans⟩
  refine hchain.pairwise.imp fun {earlier later} hadv => ⟨hadv, ?_, ?_⟩
  · intro heq
    rw [heq] at hadv
    exact UInt64.lt_irrefl _ hadv.generation
  · intro hback
    have hcycle := hadv.trans (RootPointerV1.advances_of_updates hback)
    exact UInt64.lt_irrefl _ hcycle.generation

namespace Example

/-- `sashimono_root_v1.json`. -/
def root : RootPointerV1 where
  kind := .rootPointer
  formatVersion := 1
  tenantScope := "tenant-a/scope-a"
  databaseId := "db-alpha"
  databaseIncarnationId := "incarnation-0001"
  objectPrefix := "tenant-a/scope-a/db-alpha"
  rootGeneration := 1
  writerId := "writer-a"
  leaseEpoch := 7
  checkpointId := "chk-0001"
  latestDeltaSequence := 0
  latestDatabaseVersion := 1
  stateChecksum := 9001

/-- The root after one delta. -/
def root₁ : RootPointerV1 :=
  { root with rootGeneration := 2, latestDeltaSequence := 1, latestDatabaseVersion := 2 }

/-- The root that another writer with a later lease publishes. -/
def root₂ : RootPointerV1 :=
  { root₁ with rootGeneration := 5, writerId := "writer-b", leaseEpoch := 8 }

end Example

open Example in
theorem example_roots_advance :
    [root, root₁, root₂].Pairwise fun earlier later => earlier.Advances later ∧ earlier ≠ later ∧
      ¬ Relation.TransGen RootPointerV1.UpdatesTo later earlier := by
  apply root_pointers_advance
  simp only [List.isChain_cons_cons, List.isChain_singleton, and_true]
  constructor
  · show root₁.validateUpdateFrom root = .ok ()
    decide
  · show root₂.validateUpdateFrom root₁ = .ok ()
    decide

/-! ### Plans the objects determine -/

/-- The deltas lead, from the state before sequence number `seq`, to a version: each is valid and is
built on the state that the one before it leaves. -/
def Linked (pageSize : UInt32) : (seq : Nat) → (version pageCount : UInt64) → List DeltaV1 →
    (final : UInt64) → Prop
  | _, version, _, [], final => version = final
  | seq, version, pageCount, d :: ds, final =>
    (d.validate = .ok () ∧ d.sequence.toNat = seq ∧ d.baseDatabaseVersion = version ∧
      d.baseDatabasePageCount = pageCount ∧ d.pageSize = pageSize) ∧
    Linked pageSize (seq + 1) d.endDatabaseVersion d.endDatabasePageCount ds final

/-- The plan that a root, the objects that are listed and the replay limit determine. -/
structure IsPlan (root : RootPointerV1) (checkpoints : List CheckpointV1) (deltas : List DeltaV1)
    (maxDeltaReplay : UInt64) (plan : RecoveryPlanV1) : Prop where
  mem : plan.checkpoint ∈ checkpoints
  valid : plan.checkpoint.validate = .ok ()
  identity : plan.checkpoint.HasRootIdentity root
  named : plan.checkpoint.checkpointId = root.checkpointId
  -- one delta for every sequence number after the checkpoint's, up to the root's
  length : plan.checkpoint.checkpointDeltaSequence.toNat + plan.deltas.length =
    root.latestDeltaSequence.toNat
  limit : plan.deltas.length ≤ maxDeltaReplay.toNat
  sole : ∀ d ∈ plan.deltas, candidates root deltas d.sequence = [d]
  linked : Linked plan.checkpoint.pageSize (plan.checkpoint.checkpointDeltaSequence.toNat + 1)
    plan.checkpoint.databaseVersion plan.checkpoint.databasePageCount plan.deltas
    root.latestDatabaseVersion

theorem DeltaV1.validate_inv {d : DeltaV1} (h : d.validate = .ok ()) :
    d.sequence ≠ 0 ∧ d.baseDatabaseVersion < d.endDatabaseVersion := by
  simp only [DeltaV1.validate, bind_eq_ok, requireNonzero, require_eq_ok] at h
  obtain ⟨_, -, _, -, _, -, _, -, _, hseq, _, -, _, -, _, hlt, -⟩ := h
  exact ⟨hseq, hlt⟩

/-- Deltas do not lower the version. -/
theorem Linked.version_le {pageSize : UInt32} {seq : Nat} {version pageCount final : UInt64}
    {ds : List DeltaV1} (h : Linked pageSize seq version pageCount ds final) : version ≤ final := by
  induction ds generalizing seq version pageCount with
  | nil => exact UInt64.le_of_eq h
  | cons d ds ih =>
    obtain ⟨⟨hvalid, _, hbase, _, _⟩, hrest⟩ := h
    rw [← hbase]
    exact UInt64.le_trans (UInt64.le_of_lt (DeltaV1.validate_inv hvalid).2) (ih hrest)

theorem soleCandidate_eq_ok {root : RootPointerV1} {deltas : List DeltaV1} {sequence : UInt64}
    {d : DeltaV1} :
    soleCandidate root deltas sequence = .ok d ↔ candidates root deltas sequence = [d] := by
  unfold soleCandidate
  split
  · simp [*]
  · simp [*]
  · rename_i hnil hone
    constructor
    · intro h
      cases h
    · intro h
      exact absurd h (hone d)

/-- A candidate has the sequence number it was looked up by, and the root's identity. -/
theorem of_candidates_eq {root : RootPointerV1} {deltas : List DeltaV1} {sequence : UInt64}
    {d : DeltaV1} (h : candidates root deltas sequence = [d]) :
    d.sequence = sequence ∧ d.HasRootIdentity root := by
  have hmem : d ∈ candidates root deltas sequence := by simp [h]
  simpa using (List.mem_filter.mp hmem).2

theorem validateDeltaAfterState_eq_ok {d : DeltaV1} {root : RootPointerV1}
    {sequence version pageCount : UInt64} {pageSize : UInt32} (hid : d.HasRootIdentity root)
    (hseq : d.sequence = sequence) :
    validateDeltaAfterState d root sequence version pageCount pageSize = .ok () ↔
      d.validate = .ok () ∧ d.baseDatabaseVersion = version ∧
        d.baseDatabasePageCount = pageCount ∧ d.pageSize = pageSize := by
  simp [validateDeltaAfterState, bind_eq_ok, Unique.exists_iff, hid, hseq]

/-- The loop plans the deltas of `n` sequence numbers exactly when each of them has one candidate and
the candidates are linked. -/
theorem planDeltas_eq_ok {root : RootPointerV1} {deltas planned : List DeltaV1} {pageSize : UInt32}
    {n seq : Nat} {version pageCount final : UInt64} (hn : seq + n ≤ 2 ^ 64) :
    planDeltas root deltas pageSize n seq version pageCount = .ok (planned, final) ↔
      planned.length = n ∧ (∀ d ∈ planned, candidates root deltas d.sequence = [d]) ∧
        Linked pageSize seq version pageCount planned final := by
  induction n generalizing seq version pageCount planned with
  | zero =>
    cases planned with
    | nil => simp [planDeltas, Linked]
    | cons d ds => simp [planDeltas]
  | succ n ih =>
    have hseq : (UInt64.ofNat seq).toNat = seq := UInt64.toNat_ofNat_of_lt' (by
      show seq < 2 ^ 64
      omega)
    rw [planDeltas]
    cases planned with
    | nil => simp [bind_eq_ok]
    | cons d ds =>
      simp only [bind_eq_ok, soleCandidate_eq_ok, Except.ok.injEq, Prod.exists, Prod.mk.injEq,
        List.cons.injEq, List.length_cons, Nat.add_right_cancel_iff, List.mem_cons, forall_eq_or_imp,
        Linked]
      constructor
      · rintro ⟨d', hcand, _, hvalid, planned, final', hrest, ⟨rfl, rfl⟩, rfl⟩
        obtain ⟨hdseq, hid⟩ := of_candidates_eq hcand
        obtain ⟨hlen, hsole, hlinked⟩ := (ih (by omega)).mp hrest
        obtain ⟨hv, hbase, hcount, hsize⟩ := (validateDeltaAfterState_eq_ok hid hdseq).mp hvalid
        exact ⟨hlen, ⟨hdseq ▸ hcand, hsole⟩,
          ⟨hv, by rw [hdseq, hseq], hbase, hcount, hsize⟩, hlinked⟩
      · rintro ⟨hlen, ⟨hcand, hsole⟩, ⟨hv, hdseq, hbase, hcount, hsize⟩, hlinked⟩
        have hdseq' : d.sequence = UInt64.ofNat seq := UInt64.toNat_inj.mp (hdseq.trans hseq.symm)
        have hid := (of_candidates_eq hcand).2
        exact ⟨d, hdseq' ▸ hcand, (), (validateDeltaAfterState_eq_ok hid hdseq').mpr
          ⟨hv, hbase, hcount, hsize⟩, ds, final, (ih (by omega)).mpr ⟨hlen, hsole, hlinked⟩,
          ⟨rfl, rfl⟩, rfl⟩

theorem validateCheckpointForRoot_eq_ok {c : CheckpointV1} {root : RootPointerV1} :
    validateCheckpointForRoot c root = .ok () ↔
      c.validate = .ok () ∧ (c.HasRootIdentity root ∧ c.checkpointId = root.checkpointId) ∧
        c.databaseVersion ≤ root.latestDatabaseVersion := by
  simp [validateCheckpointForRoot, bind_eq_ok, Unique.exists_iff]

/-- A checkpoint at the last sequence number has no next one: the loop begins at zero, and no valid
delta has that number. -/
theorem planDeltas_zero {root : RootPointerV1} {deltas : List DeltaV1} {pageSize : UInt32} {n : Nat}
    {version pageCount : UInt64} {r : List DeltaV1 × UInt64} (hn : n < 2 ^ 64) :
    planDeltas root deltas pageSize (n + 1) 0 version pageCount ≠ .ok r := by
  intro h
  obtain ⟨planned, final⟩ := r
  obtain ⟨hlen, _, hlinked⟩ := (planDeltas_eq_ok (by omega)).mp h
  cases planned with
  | nil => simp at hlen
  | cons d ds =>
    obtain ⟨⟨hvalid, hzero, _⟩, _⟩ := hlinked
    exact (DeltaV1.validate_inv hvalid).1 (UInt64.toNat_inj.mp hzero)

theorem planFromCheckpoint_eq_ok {root : RootPointerV1} {c : CheckpointV1}
    {checkpoints : List CheckpointV1} {deltas : List DeltaV1} {maxDeltaReplay : UInt64}
    {plan : RecoveryPlanV1} (hc : c ∈ checkpoints) :
    planFromCheckpoint root c deltas maxDeltaReplay = .ok plan ↔
      plan.checkpoint = c ∧ c.checkpointDeltaSequence.toNat + 1 < 2 ^ 64 ∧
        plan.deltas.length * deltaSize ≤ maxReserved ∧
        IsPlan root checkpoints deltas maxDeltaReplay plan := by
  have hroot : root.latestDeltaSequence.toNat < 2 ^ 64 := root.latestDeltaSequence.toNat_lt
  have hcheckpoint : c.checkpointDeltaSequence.toNat < 2 ^ 64 := c.checkpointDeltaSequence.toNat_lt
  have hstart : (c.checkpointDeltaSequence + 1).toNat =
      (c.checkpointDeltaSequence.toNat + 1) % 2 ^ 64 := by simp [UInt64.toNat_add]
  simp only [planFromCheckpoint, bind_eq_ok, returning_eq_ok, require_eq_ok, reserveDeltas_eq_ok,
    Except.ok.injEq, Prod.exists, Unique.exists_iff]
  constructor
  · rintro ⟨hvalid, hle, hlimit, hfits, planned, version, hplan, rfl, rfl⟩
    obtain ⟨hvalid, ⟨hid, hnamed⟩, _⟩ := validateCheckpointForRoot_eq_ok.mp hvalid
    have hle' := UInt64.le_iff_toNat_le.mp hle
    have hlimit' := UInt64.le_iff_toNat_le.mp hlimit
    rw [UInt64.toNat_sub_of_le _ _ hle] at hlimit' hfits
    have hnext : c.checkpointDeltaSequence.toNat + 1 < 2 ^ 64 := by
      by_contra hlast
      have hwrap : (c.checkpointDeltaSequence + 1).toNat = 0 := by
        rw [hstart, show c.checkpointDeltaSequence.toNat + 1 = 2 ^ 64 by omega, Nat.mod_self]
      rw [hwrap, Nat.sub_zero] at hplan
      exact planDeltas_zero hroot hplan
    rw [hstart, Nat.mod_eq_of_lt hnext] at hplan
    obtain ⟨hlen, hsole, hlinked⟩ := (planDeltas_eq_ok (by omega)).mp hplan
    have hcount : root.latestDeltaSequence.toNat + 1 - (c.checkpointDeltaSequence.toNat + 1) =
        root.latestDeltaSequence.toNat - c.checkpointDeltaSequence.toNat := by omega
    rw [hcount] at hlen
    exact ⟨rfl, hnext, by rwa [hlen], hc, hvalid, hid, hnamed, by simp only [hlen]; omega,
      by rwa [hlen], hsole, hlinked⟩
  · rintro ⟨rfl, hnext, hfits, hplan⟩
    have hlength := hplan.length
    have hle : plan.checkpoint.checkpointDeltaSequence ≤ root.latestDeltaSequence :=
      UInt64.le_iff_toNat_le.mpr (by omega)
    have hcount : (root.latestDeltaSequence - plan.checkpoint.checkpointDeltaSequence).toNat =
        plan.deltas.length := by
      rw [UInt64.toNat_sub_of_le _ _ hle]
      omega
    refine ⟨validateCheckpointForRoot_eq_ok.mpr
      ⟨hplan.valid, ⟨hplan.identity, hplan.named⟩, hplan.linked.version_le⟩, hle, ?_, ?_, plan.deltas,
      root.latestDatabaseVersion, ?_, rfl, rfl⟩
    · rw [UInt64.le_iff_toNat_le, hcount]
      exact hplan.limit
    · rwa [hcount]
    · rw [hstart, Nat.mod_eq_of_lt hnext]
      exact (planDeltas_eq_ok (by omega)).mpr ⟨by omega, hplan.sole, hplan.linked⟩

/-- What is selected: the plan of the first checkpoint that has the root's id. -/
theorem selectRecoveryPlan_eq_ok {root : RootPointerV1} {checkpoints : List CheckpointV1}
    {deltas : List DeltaV1} {maxDeltaReplay : UInt64} {plan : RecoveryPlanV1}
    (hroot : root.validate = .ok ()) :
    selectRecoveryPlan root checkpoints deltas maxDeltaReplay = .ok plan ↔
      checkpoints.find? (·.checkpointId = root.checkpointId) = some plan.checkpoint ∧
        plan.checkpoint.checkpointDeltaSequence.toNat + 1 < 2 ^ 64 ∧
        plan.deltas.length * deltaSize ≤ maxReserved ∧
        IsPlan root checkpoints deltas maxDeltaReplay plan := by
  rw [selectRecoveryPlan, hroot]
  show (match checkpoints.find? (·.checkpointId = root.checkpointId) with
    | none => Except.error (Failure.returned (.missingCheckpoint root.checkpointId))
    | some c => planFromCheckpoint root c deltas maxDeltaReplay) = .ok plan ↔ _
  cases hfind : checkpoints.find? (·.checkpointId = root.checkpointId) with
  | none => simp
  | some c =>
    simp only [planFromCheckpoint_eq_ok (List.mem_of_find?_eq_some hfind), Option.some.injEq]
    constructor
    · rintro ⟨rfl, hnext, hfits, hplan⟩
      exact ⟨rfl, hnext, hfits, hplan⟩
    · rintro ⟨rfl, hnext, hfits, hplan⟩
      exact ⟨rfl, hnext, hfits, hplan⟩

/-! ### Checkpoints no plan begins at -/

/-- From the state before sequence number `seq` the deltas do not lead to the root, and what is first
wrong with them: no delta of the number or more than one, a delta that does not fit the state, or the
version after the last. -/
inductive BreaksOff (root : RootPointerV1) (deltas : List DeltaV1) (pageSize : UInt32) :
    (seq : Nat) → (version pageCount : UInt64) → ContractError → Prop where
  | missing {seq : Nat} {version pageCount : UInt64} :
    seq ≤ root.latestDeltaSequence.toNat → candidates root deltas (.ofNat seq) = [] →
    BreaksOff root deltas pageSize seq version pageCount (.missingDelta (.ofNat seq))
  | duplicate {seq : Nat} {version pageCount : UInt64} :
    seq ≤ root.latestDeltaSequence.toNat → 1 < (candidates root deltas (.ofNat seq)).length →
    BreaksOff root deltas pageSize seq version pageCount (.duplicateDelta (.ofNat seq))
  | unfit {seq : Nat} {version pageCount : UInt64} {d : DeltaV1} {e : ContractError} :
    seq ≤ root.latestDeltaSequence.toNat → candidates root deltas (.ofNat seq) = [d] →
    validateDeltaAfterState d root (.ofNat seq) version pageCount pageSize = .error e →
    BreaksOff root deltas pageSize seq version pageCount e
  | later {seq : Nat} {version pageCount : UInt64} {d : DeltaV1} {e : ContractError} :
    seq ≤ root.latestDeltaSequence.toNat → candidates root deltas (.ofNat seq) = [d] →
    validateDeltaAfterState d root (.ofNat seq) version pageCount pageSize = .ok () →
    BreaksOff root deltas pageSize (seq + 1) d.endDatabaseVersion d.endDatabasePageCount e →
    BreaksOff root deltas pageSize seq version pageCount e
  | short {seq : Nat} {version pageCount : UInt64} :
    root.latestDeltaSequence.toNat < seq → version ≠ root.latestDatabaseVersion →
    BreaksOff root deltas pageSize seq version pageCount
      (.versionMismatch root.latestDatabaseVersion version)

/-- The checkpoint fits the root, and the deltas after it are within the limit. -/
structure Reaches (root : RootPointerV1) (c : CheckpointV1) (maxDeltaReplay : UInt64) : Prop where
  fit : validateCheckpointForRoot c root = .ok ()
  behind : c.checkpointDeltaSequence ≤ root.latestDeltaSequence
  limit : root.latestDeltaSequence - c.checkpointDeltaSequence ≤ maxDeltaReplay

/-- The bytes of the deltas after a checkpoint, as many as the sequence numbers promise. -/
def promisedBytes (root : RootPointerV1) (c : CheckpointV1) : Nat :=
  (root.latestDeltaSequence - c.checkpointDeltaSequence).toNat * deltaSize

/-- No plan begins at the checkpoint, and what is first wrong with it. -/
inductive Refused (root : RootPointerV1) (deltas : List DeltaV1) (maxDeltaReplay : UInt64)
    (c : CheckpointV1) : ContractError → Prop where
  | unfit {e : ContractError} : validateCheckpointForRoot c root = .error e →
    Refused root deltas maxDeltaReplay c e
  | ahead : validateCheckpointForRoot c root = .ok () →
    root.latestDeltaSequence < c.checkpointDeltaSequence →
    Refused root deltas maxDeltaReplay c
      (.nonContiguousDelta c.checkpointDeltaSequence root.latestDeltaSequence)
  | tooLong : validateCheckpointForRoot c root = .ok () →
    c.checkpointDeltaSequence ≤ root.latestDeltaSequence →
    maxDeltaReplay < root.latestDeltaSequence - c.checkpointDeltaSequence →
    Refused root deltas maxDeltaReplay c
      (.replayChainTooLong maxDeltaReplay (root.latestDeltaSequence - c.checkpointDeltaSequence))
  | broken {e : ContractError} : Reaches root c maxDeltaReplay → promisedBytes root c ≤ maxReserved →
    -- the chain begins at zero where the checkpoint is at the last sequence number
    BreaksOff root deltas c.pageSize (c.checkpointDeltaSequence + 1).toNat c.databaseVersion
      c.databasePageCount e →
    Refused root deltas maxDeltaReplay c e

theorem soleCandidate_eq_error {root : RootPointerV1} {deltas : List DeltaV1} {sequence : UInt64}
    {e : ContractError} :
    soleCandidate root deltas sequence = .error e ↔
      (candidates root deltas sequence = [] ∧ e = .missingDelta sequence) ∨
        (1 < (candidates root deltas sequence).length ∧ e = .duplicateDelta sequence) := by
  unfold soleCandidate
  split
  · rename_i hnil
    simp only [hnil, Except.error.injEq, List.length_nil, Nat.not_lt_zero, true_and, false_and, or_false]
    exact eq_comm
  · simp [*]
  · rename_i hnil hone
    have hlen : 1 < (candidates root deltas sequence).length := by
      rcases hcand : candidates root deltas sequence with _ | ⟨d, _ | ⟨d', ds⟩⟩
      · exact absurd hcand hnil
      · exact absurd hcand (hone d)
      · simp
    have hne : candidates root deltas sequence ≠ [] := hnil
    simp only [hne, hlen, Except.error.injEq, true_and, false_and, false_or]
    exact eq_comm

/-- The loop and the check after it fail with what is first wrong with the deltas. -/
theorem breaksOff_iff {root : RootPointerV1} {deltas : List DeltaV1} {pageSize : UInt32} {n seq : Nat}
    {version pageCount : UInt64} {e : ContractError}
    (hn : seq + n = root.latestDeltaSequence.toNat + 1) :
    BreaksOff root deltas pageSize seq version pageCount e ↔
      planDeltas root deltas pageSize n seq version pageCount = .error e ∨
        ∃ planned final, planDeltas root deltas pageSize n seq version pageCount =
            .ok (planned, final) ∧
          final ≠ root.latestDatabaseVersion ∧
          e = .versionMismatch root.latestDatabaseVersion final := by
  induction n generalizing seq version pageCount with
  | zero =>
    simp only [planDeltas, reduceCtorEq, Except.ok.injEq, Prod.mk.injEq, false_or]
    constructor
    · intro h
      cases h with
      | missing hle _ => omega
      | duplicate hle _ => omega
      | unfit hle _ _ => omega
      | later hle _ _ _ => omega
      | short _ hversion => exact ⟨[], version, ⟨rfl, rfl⟩, hversion, rfl⟩
    · rintro ⟨_, _, ⟨rfl, rfl⟩, hversion, rfl⟩
      exact .short (by omega) hversion
  | succ n ih =>
    have hle : seq ≤ root.latestDeltaSequence.toNat := by omega
    simp only [planDeltas, bind_eq_error, bind_eq_ok, soleCandidate_eq_error, soleCandidate_eq_ok,
      Except.ok.injEq, Prod.exists, Prod.mk.injEq, reduceCtorEq, and_false, exists_false, or_false]
    constructor
    · intro h
      cases h with
      | missing _ hnil => exact .inl (.inl (.inl ⟨hnil, rfl⟩))
      | duplicate _ hlen => exact .inl (.inl (.inr ⟨hlen, rfl⟩))
      | @unfit _ _ _ d _ _ hsole hunfit => exact .inl (.inr ⟨d, hsole, .inl hunfit⟩)
      | @later _ _ _ d _ _ hsole hfit hrest =>
        rcases (ih (by omega)).mp hrest with herror | ⟨planned, final, hok, hversion, rfl⟩
        · exact .inl (.inr ⟨d, hsole, .inr ⟨(), hfit, herror⟩⟩)
        · exact .inr ⟨d :: planned, final, ⟨d, hsole, (), hfit, planned, final, hok, ⟨rfl, rfl⟩⟩,
            hversion, rfl⟩
      | short hlast _ => omega
    · rintro (((⟨hnil, rfl⟩ | ⟨hlen, rfl⟩) | ⟨d, hsole, hunfit | ⟨_, hfit, herror⟩⟩) |
        ⟨_, _, ⟨d, hsole, _, hfit, planned, final, hok, ⟨rfl, rfl⟩⟩, hversion, rfl⟩)
      · exact .missing hle hnil
      · exact .duplicate hle hlen
      · exact .unfit hle hsole hunfit
      · exact .later hle hsole hfit ((ih (by omega)).mpr (.inl herror))
      · exact .later hle hsole hfit ((ih (by omega)).mpr (.inr ⟨planned, final, hok, hversion, rfl⟩))

/-- Where the loop begins, and how many sequence numbers it goes through. -/
theorem start_add {root : RootPointerV1} {c : CheckpointV1}
    (hle : c.checkpointDeltaSequence ≤ root.latestDeltaSequence) :
    (c.checkpointDeltaSequence + 1).toNat +
      (root.latestDeltaSequence.toNat + 1 - (c.checkpointDeltaSequence + 1).toNat) =
        root.latestDeltaSequence.toNat + 1 := by
  have hle' := UInt64.le_iff_toNat_le.mp hle
  have hstart : (c.checkpointDeltaSequence + 1).toNat =
      (c.checkpointDeltaSequence.toNat + 1) % 2 ^ 64 := by simp [UInt64.toNat_add]
  have hmod := Nat.mod_le (c.checkpointDeltaSequence.toNat + 1) (2 ^ 64)
  omega

/-- The error from a checkpoint is what is first wrong with it. -/
theorem planFromCheckpoint_eq_returned {root : RootPointerV1} {c : CheckpointV1}
    {deltas : List DeltaV1} {maxDeltaReplay : UInt64} {e : ContractError} :
    planFromCheckpoint root c deltas maxDeltaReplay = .error (.returned e) ↔
      Refused root deltas maxDeltaReplay c e := by
  simp only [planFromCheckpoint, bind_eq_error, returning_eq_ok, returning_eq_error, require_eq_ok,
    require_eq_error, reserveDeltas_eq_ok, reserveDeltas_eq_error, Failure.returned.injEq, reduceCtorEq,
    exists_eq_right', and_false, false_or, or_false, Prod.exists, Unique.exists_iff]
  constructor
  · rintro (hunfit | ⟨hfit, ⟨hahead, rfl⟩ | ⟨hle, ⟨hlong, rfl⟩ | ⟨hlimit, hfits, hchain⟩⟩⟩)
    · exact .unfit hunfit
    · exact .ahead hfit (UInt64.not_le.mp hahead)
    · exact .tooLong hfit hle (UInt64.not_le.mp hlong)
    · exact .broken ⟨hfit, hle, hlimit⟩ hfits ((breaksOff_iff (start_add hle)).mpr hchain)
  · intro h
    cases h with
    | unfit hunfit => exact .inl hunfit
    | ahead hfit hahead => exact .inr ⟨hfit, .inl ⟨UInt64.not_le.mpr hahead, rfl⟩⟩
    | tooLong hfit hle hlong => exact .inr ⟨hfit, .inr ⟨hle, .inl ⟨UInt64.not_le.mpr hlong, rfl⟩⟩⟩
    | broken hreach hfits hchain =>
      exact .inr ⟨hreach.fit, .inr ⟨hreach.behind, .inr ⟨hreach.limit, hfits,
        (breaksOff_iff (start_add hreach.behind)).mp hchain⟩⟩⟩

/-- The panic, before the first delta is looked for. -/
theorem planFromCheckpoint_eq_capacityOverflow {root : RootPointerV1} {c : CheckpointV1}
    {deltas : List DeltaV1} {maxDeltaReplay : UInt64} :
    planFromCheckpoint root c deltas maxDeltaReplay = .error .capacityOverflow ↔
      Reaches root c maxDeltaReplay ∧ maxReserved < promisedBytes root c := by
  simp only [planFromCheckpoint, bind_eq_error, returning_eq_ok, returning_eq_error, require_eq_ok,
    reserveDeltas_eq_error, reduceCtorEq, and_false, and_true, false_or, or_false, Unique.exists_iff,
    exists_false]
  constructor
  · rintro ⟨hfit, hle, hlimit, hbytes⟩
    exact ⟨⟨hfit, hle, hlimit⟩, hbytes⟩
  · rintro ⟨⟨hfit, hle, hlimit⟩, hbytes⟩
    exact ⟨hfit, hle, hlimit, hbytes⟩

/-- The deltas of a plan are those its checkpoint promises. -/
theorem IsPlan.promised {root : RootPointerV1} {checkpoints : List CheckpointV1}
    {deltas : List DeltaV1} {maxDeltaReplay : UInt64} {plan : RecoveryPlanV1}
    (h : IsPlan root checkpoints deltas maxDeltaReplay plan) :
    plan.checkpoint.checkpointDeltaSequence ≤ root.latestDeltaSequence ∧
      (root.latestDeltaSequence - plan.checkpoint.checkpointDeltaSequence).toNat =
        plan.deltas.length := by
  have hlength := h.length
  have hle : plan.checkpoint.checkpointDeltaSequence ≤ root.latestDeltaSequence :=
    UInt64.le_iff_toNat_le.mpr (by omega)
  refine ⟨hle, ?_⟩
  rw [UInt64.toNat_sub_of_le _ _ hle]
  omega

theorem IsPlan.reaches {root : RootPointerV1} {checkpoints : List CheckpointV1}
    {deltas : List DeltaV1} {maxDeltaReplay : UInt64} {plan : RecoveryPlanV1}
    (h : IsPlan root checkpoints deltas maxDeltaReplay plan) :
    Reaches root plan.checkpoint maxDeltaReplay where
  fit := validateCheckpointForRoot_eq_ok.mpr
    ⟨h.valid, ⟨h.identity, h.named⟩, h.linked.version_le⟩
  behind := h.promised.1
  limit := by
    rw [UInt64.le_iff_toNat_le, h.promised.2]
    exact h.limit

theorem IsPlan.fits {root : RootPointerV1} {checkpoints : List CheckpointV1}
    {deltas : List DeltaV1} {maxDeltaReplay : UInt64} {plan : RecoveryPlanV1}
    (h : IsPlan root checkpoints deltas maxDeltaReplay plan)
    (hbytes : promisedBytes root plan.checkpoint ≤ maxReserved) :
    plan.deltas.length * deltaSize ≤ maxReserved := by
  rwa [promisedBytes, h.promised.2] at hbytes

/-! ### The contract of the selection -/

/-- The selection keeps its contract on an input: it returns the plan that the objects determine if
there is one and no other, it does not panic, and what it returns, a plan or an error, does not change
with the order of the lists or when entries of other identities are removed. -/
structure Contract (root : RootPointerV1) (checkpoints : List CheckpointV1) (deltas : List DeltaV1)
    (maxDeltaReplay : UInt64) : Prop where
  determined : ∀ plan, selectRecoveryPlan root checkpoints deltas maxDeltaReplay = .ok plan ↔
    IsPlan root checkpoints deltas maxDeltaReplay plan
  returns : selectRecoveryPlan root checkpoints deltas maxDeltaReplay ≠ .error .capacityOverflow
  ordered : ∀ cs ds, cs.Perm checkpoints → ds.Perm deltas →
    selectRecoveryPlan root cs ds maxDeltaReplay =
      selectRecoveryPlan root checkpoints deltas maxDeltaReplay
  foreign : ∀ cs ds, cs.Sublist checkpoints → ds.Sublist deltas →
    cs.filter (·.HasRootIdentity root) = checkpoints.filter (·.HasRootIdentity root) →
    ds.filter (·.HasRootIdentity root) = deltas.filter (·.HasRootIdentity root) →
    selectRecoveryPlan root cs ds maxDeltaReplay =
      selectRecoveryPlan root checkpoints deltas maxDeltaReplay

/-- A listed checkpoint that has the id the root names, of whatever identity. -/
def Named (root : RootPointerV1) (checkpoints : List CheckpointV1) (c : CheckpointV1) : Prop :=
  c ∈ checkpoints ∧ c.checkpointId = root.checkpointId

theorem soleCandidate_perm {root : RootPointerV1} {ds deltas : List DeltaV1} (h : ds.Perm deltas)
    (sequence : UInt64) : soleCandidate root ds sequence = soleCandidate root deltas sequence := by
  have hperm : (candidates root ds sequence).Perm (candidates root deltas sequence) := h.filter _
  cases hsole : soleCandidate root deltas sequence with
  | ok d =>
    rw [soleCandidate_eq_ok.mp hsole] at hperm
    exact soleCandidate_eq_ok.mpr (List.perm_singleton.mp hperm)
  | error e =>
    rw [soleCandidate_eq_error] at hsole ⊢
    rcases hsole with ⟨hnil, rfl⟩ | ⟨hlen, rfl⟩
    · rw [hnil] at hperm
      exact .inl ⟨hperm.eq_nil, rfl⟩
    · exact .inr ⟨hperm.length_eq ▸ hlen, rfl⟩

theorem candidates_filter (root : RootPointerV1) (deltas : List DeltaV1) (sequence : UInt64) :
    candidates root (deltas.filter (·.HasRootIdentity root)) sequence =
      candidates root deltas sequence := by
  simp [candidates, List.filter_filter]

/-- The deltas are only looked at through the candidates. -/
theorem planFromCheckpoint_congr {root : RootPointerV1} {ds deltas : List DeltaV1}
    (h : ∀ sequence, soleCandidate root ds sequence = soleCandidate root deltas sequence)
    (c : CheckpointV1) (maxDeltaReplay : UInt64) :
    planFromCheckpoint root c ds maxDeltaReplay = planFromCheckpoint root c deltas maxDeltaReplay := by
  have hloop : ∀ pageSize n seq version pageCount,
      planDeltas root ds pageSize n seq version pageCount =
        planDeltas root deltas pageSize n seq version pageCount := by
    intro pageSize n
    induction n with
    | zero => exact fun _ _ _ => rfl
    | succ n ih =>
      intro seq version pageCount
      simp only [planDeltas, h, ih]
  simp only [planFromCheckpoint, hloop]

theorem planFromCheckpoint_perm {root : RootPointerV1} {ds deltas : List DeltaV1}
    (h : ds.Perm deltas) (c : CheckpointV1) (maxDeltaReplay : UInt64) :
    planFromCheckpoint root c ds maxDeltaReplay = planFromCheckpoint root c deltas maxDeltaReplay :=
  planFromCheckpoint_congr (soleCandidate_perm h) c maxDeltaReplay

theorem planFromCheckpoint_filter {root : RootPointerV1} {ds deltas : List DeltaV1}
    (h : ds.filter (·.HasRootIdentity root) = deltas.filter (·.HasRootIdentity root))
    (c : CheckpointV1) (maxDeltaReplay : UInt64) :
    planFromCheckpoint root c ds maxDeltaReplay = planFromCheckpoint root c deltas maxDeltaReplay := by
  refine planFromCheckpoint_congr (fun sequence => ?_) c maxDeltaReplay
  rw [soleCandidate, soleCandidate, ← candidates_filter root ds, h, candidates_filter]

section Selection

variable {root : RootPointerV1} {checkpoints : List CheckpointV1} {deltas : List DeltaV1}
  {maxDeltaReplay : UInt64} (hroot : root.validate = .ok ())

include hroot

variable (deltas maxDeltaReplay) in
theorem selectRecoveryPlan_missing (hnone : ∀ c, ¬ Named root checkpoints c) :
    selectRecoveryPlan root checkpoints deltas maxDeltaReplay =
      .error (.returned (.missingCheckpoint root.checkpointId)) := by
  have hfind : checkpoints.find? (·.checkpointId = root.checkpointId) = none :=
    List.find?_eq_none.mpr fun c hc hid => hnone c ⟨hc, by simpa using hid⟩
  rw [selectRecoveryPlan, hroot, hfind]
  rfl

/-- The selection takes one of the named checkpoints. -/
theorem selectRecoveryPlan_named {c : CheckpointV1} (hc : Named root checkpoints c) :
    ∃ first, Named root checkpoints first ∧
      selectRecoveryPlan root checkpoints deltas maxDeltaReplay =
        planFromCheckpoint root first deltas maxDeltaReplay := by
  cases hfind : checkpoints.find? (·.checkpointId = root.checkpointId) with
  | none =>
    have hnone := List.find?_eq_none.mp hfind c hc.1
    simp [hc.2] at hnone
  | some first =>
    have hid := List.find?_some hfind
    refine ⟨first, ⟨List.mem_of_find?_eq_some hfind, by simpa using hid⟩, ?_⟩
    rw [selectRecoveryPlan, hroot, hfind]
    rfl

/-- Whichever named checkpoint the selection takes, if they all lead to one result it is the result. -/
theorem selectRecoveryPlan_of_all {c : CheckpointV1} {r : Except Failure RecoveryPlanV1}
    (hc : Named root checkpoints c)
    (hall : ∀ c, Named root checkpoints c → planFromCheckpoint root c deltas maxDeltaReplay = r) :
    selectRecoveryPlan root checkpoints deltas maxDeltaReplay = r := by
  obtain ⟨first, hfirst, hselect⟩ := selectRecoveryPlan_named hroot hc
  rw [hselect, hall first hfirst]

/-- With another order of the list the selection takes any of the named checkpoints. -/
theorem Contract.result_eq (h : Contract root checkpoints deltas maxDeltaReplay) {c : CheckpointV1}
    (hc : Named root checkpoints c) :
    planFromCheckpoint root c deltas maxDeltaReplay =
      selectRecoveryPlan root checkpoints deltas maxDeltaReplay := by
  obtain ⟨l₁, l₂, hsplit⟩ := List.append_of_mem hc.1
  have hperm : (c :: (l₁ ++ l₂)).Perm checkpoints := hsplit ▸ List.perm_middle.symm
  rw [← h.ordered _ deltas hperm (.refl _), selectRecoveryPlan, hroot]
  simp only [List.find?_cons, hc.2, decide_true]
  rfl

end Selection

theorem CheckpointV1.validate_ne_missing (c : CheckpointV1) (id : String) :
    c.validate ≠ .error (.missingCheckpoint id) := by
  have hrequire : ∀ {condition : Prop} [Decidable condition] {error : ContractError},
      error ≠ .missingCheckpoint id → require condition error ≠ .error (.missingCheckpoint id) :=
    fun herror h => herror (require_eq_error.mp h).2.symm
  refine bind_ne_error (hrequire nofun) fun _ _ => ?_
  refine bind_ne_error ?_ fun _ _ => ?_
  · refine bind_ne_error (hrequire nofun) fun _ _ => ?_
    refine bind_ne_error (hrequire nofun) fun _ _ => ?_
    refine bind_ne_error (hrequire nofun) fun _ _ => ?_
    refine bind_ne_error (hrequire nofun) fun _ _ => ?_
    refine bind_ne_error (hrequire nofun) fun _ _ => ?_
    exact bind_ne_error (hrequire nofun) fun _ _ => hrequire nofun
  refine bind_ne_error (hrequire nofun) fun _ _ => ?_
  refine bind_ne_error (hrequire nofun) fun _ _ => ?_
  refine bind_ne_error (hrequire nofun) fun _ _ => ?_
  refine bind_ne_error (hrequire nofun) fun _ _ => ?_
  refine bind_ne_error (hrequire nofun) fun _ _ => ?_
  refine forM_ne_error fun o _ => ?_
  refine bind_ne_error (hrequire nofun) fun _ _ => ?_
  refine bind_ne_error (hrequire nofun) fun _ _ => ?_
  refine bind_ne_error (hrequire nofun) fun _ _ => ?_
  exact bind_ne_error (hrequire nofun) fun _ _ => hrequire nofun

/-- What is wrong with a checkpoint of another identity is not that it is missing. -/
theorem Refused.ne_missing {root : RootPointerV1} {deltas : List DeltaV1} {maxDeltaReplay : UInt64}
    {c : CheckpointV1} (hforeign : ¬ c.HasRootIdentity root) (id : String) :
    ¬ Refused root deltas maxDeltaReplay c (.missingCheckpoint id) := by
  intro h
  cases h with
  | unfit herror =>
    refine bind_ne_error (c.validate_ne_missing id) (fun _ _ => ?_) herror
    refine bind_ne_error (fun h => ?_) fun _ _ h => ?_
    · exact absurd (require_eq_error.mp h).2 nofun
    · exact absurd (require_eq_error.mp h).2 nofun
  | broken hreach _ _ => exact hforeign (validateCheckpointForRoot_eq_ok.mp hreach.fit).2.1.1

/-- The selection keeps its contract exactly when the checkpoints with the root's id, if any is listed,
are all the same one or all refused for the same reason, one of them has the root's identity, none
promises more deltas than a `Vec` can reserve, and a plan that the objects determine does not begin at
the last sequence number. -/
theorem recovery_plan_iff {root : RootPointerV1} {checkpoints : List CheckpointV1}
    {deltas : List DeltaV1} {maxDeltaReplay : UInt64} (hroot : root.validate = .ok ()) :
    Contract root checkpoints deltas maxDeltaReplay ↔
      ((∀ c c', Named root checkpoints c → Named root checkpoints c' → c = c') ∨
          ∃ e, ∀ c, Named root checkpoints c → Refused root deltas maxDeltaReplay c e) ∧
        (∀ c, Named root checkpoints c → ∃ own, Named root checkpoints own ∧
          own.HasRootIdentity root) ∧
        (∀ c, Named root checkpoints c → Reaches root c maxDeltaReplay →
          promisedBytes root c ≤ maxReserved) ∧
        ∀ plan, IsPlan root checkpoints deltas maxDeltaReplay plan →
          plan.checkpoint.checkpointDeltaSequence.toNat + 1 < 2 ^ 64 := by
  constructor
  · intro h
    have hall := fun c hc => h.result_eq hroot (c := c) hc
    refine ⟨?_, fun c hc => ?_, fun c hc hreach => ?_, fun plan hplan => ?_⟩
    · cases hresult : selectRecoveryPlan root checkpoints deltas maxDeltaReplay with
      | ok plan =>
        refine .inl fun c c' hc hc' => ?_
        rw [← ((planFromCheckpoint_eq_ok hc.1).mp ((hall c hc).trans hresult)).1,
          ← ((planFromCheckpoint_eq_ok hc'.1).mp ((hall c' hc').trans hresult)).1]
      | error failure =>
        cases failure with
        | returned e =>
          exact .inr ⟨e, fun c hc => planFromCheckpoint_eq_returned.mp ((hall c hc).trans hresult)⟩
        | capacityOverflow => exact absurd hresult h.returns
    · -- without the foreign entries no checkpoint is found
      by_contra hnone
      have hmissing := selectRecoveryPlan_missing deltas maxDeltaReplay hroot
        (show ∀ own, ¬ Named root (checkpoints.filter (·.HasRootIdentity root)) own from fun own hown => hnone
          ⟨own, ⟨List.mem_of_mem_filter hown.1, hown.2⟩, by simpa using (List.mem_filter.mp hown.1).2⟩)
      rw [h.foreign _ deltas List.filter_sublist (.refl _) (by simp [List.filter_filter]) rfl] at hmissing
      refine Refused.ne_missing (fun hid => hnone ⟨c, hc, hid⟩) root.checkpointId
        (planFromCheckpoint_eq_returned.mp ((hall c hc).trans hmissing))
    · by_contra hbytes
      exact h.returns ((hall c hc).symm.trans
        (planFromCheckpoint_eq_capacityOverflow.mpr ⟨hreach, Nat.not_le.mp hbytes⟩))
    · exact ((selectRecoveryPlan_eq_ok hroot).mp ((h.determined plan).mpr hplan)).2.1
  · rintro ⟨hagree, hown, hbytes, hlast⟩
    by_cases hnamed : ∃ c, Named root checkpoints c
    · obtain ⟨c₀, hc₀⟩ := hnamed
      -- the one result that every named checkpoint leads to
      obtain ⟨r, hr⟩ : ∃ r, ∀ c, Named root checkpoints c →
          planFromCheckpoint root c deltas maxDeltaReplay = r := by
        rcases hagree with hsame | ⟨e, hrefused⟩
        · exact ⟨_, fun c hc => by rw [hsame c c₀ hc hc₀]⟩
        · exact ⟨_, fun c hc => planFromCheckpoint_eq_returned.mpr (hrefused c hc)⟩
      have hselect := selectRecoveryPlan_of_all hroot hc₀ hr
      refine ⟨fun plan => ⟨fun hplan => ?_, fun hplan => ?_⟩, ?_, fun cs ds hcs hds => ?_,
        fun cs ds hcs hds hownc hownd => ?_⟩
      · exact ((selectRecoveryPlan_eq_ok hroot).mp hplan).2.2.2
      · have hchecked : Named root checkpoints plan.checkpoint := ⟨hplan.mem, hplan.named⟩
        rw [hselect, ← hr _ hchecked, planFromCheckpoint_eq_ok hplan.mem]
        exact ⟨rfl, hlast plan hplan, hplan.fits (hbytes _ hchecked hplan.reaches), hplan⟩
      · rw [hselect, ← hr c₀ hc₀, Ne, planFromCheckpoint_eq_capacityOverflow]
        exact fun ⟨hreach, hover⟩ => Nat.not_lt.mpr (hbytes c₀ hc₀ hreach) hover
      · rw [hselect]
        refine selectRecoveryPlan_of_all hroot ⟨hcs.mem_iff.mpr hc₀.1, hc₀.2⟩ fun c hc => ?_
        rw [planFromCheckpoint_perm hds]
        exact hr c ⟨hcs.mem_iff.mp hc.1, hc.2⟩
      · obtain ⟨own, hmem, hid⟩ := hown c₀ hc₀
        have hkept : own ∈ cs := by
          have hfiltered : own ∈ cs.filter (·.HasRootIdentity root) := by
            rw [hownc]
            exact List.mem_filter.mpr ⟨hmem.1, by simpa using hid⟩
          exact List.mem_of_mem_filter hfiltered
        rw [hselect]
        refine selectRecoveryPlan_of_all hroot ⟨hkept, hmem.2⟩ fun c hc => ?_
        rw [planFromCheckpoint_filter hownd]
        exact hr c ⟨hcs.subset hc.1, hc.2⟩
    · have hnone : ∀ c, ¬ Named root checkpoints c := fun c hc => hnamed ⟨c, hc⟩
      have hselect := selectRecoveryPlan_missing deltas maxDeltaReplay hroot hnone
      refine ⟨fun plan => ⟨fun hplan => ?_, fun hplan => ?_⟩, ?_, fun cs ds hcs _ => ?_,
        fun cs ds hcs _ _ _ => ?_⟩
      · exact ((selectRecoveryPlan_eq_ok hroot).mp hplan).2.2.2
      · exact absurd ⟨hplan.mem, hplan.named⟩ (hnone plan.checkpoint)
      · rw [hselect]
        nofun
      · rw [hselect]
        exact selectRecoveryPlan_missing _ _ hroot fun c hc => hnone c ⟨hcs.mem_iff.mp hc.1, hc.2⟩
      · rw [hselect]
        exact selectRecoveryPlan_missing _ _ hroot fun c hc => hnone c ⟨hcs.subset hc.1, hc.2⟩

namespace Example

/-- `sashimono_checkpoint_v1.json`. -/
def checkpoint : CheckpointV1 where
  kind := .checkpoint
  formatVersion := 1
  tenantScope := "tenant-a/scope-a"
  databaseId := "db-alpha"
  databaseIncarnationId := "incarnation-0001"
  objectPrefix := "tenant-a/scope-a/db-alpha"
  writerId := "writer-a"
  leaseEpoch := 7
  checkpointId := "chk-0001"
  checkpointDeltaSequence := 0
  databaseVersion := 1
  pageSize := 4
  databasePageCount := 2
  pageObjects :=
    [⟨0, 2, "tenant-a/scope-a/db-alpha/checkpoints/chk-0001/pages-0000-0001", 1234⟩]

/-- `sashimono_delta_v1.json`. -/
def delta : DeltaV1 where
  kind := .delta
  formatVersion := 1
  tenantScope := "tenant-a/scope-a"
  databaseId := "db-alpha"
  databaseIncarnationId := "incarnation-0001"
  objectPrefix := "tenant-a/scope-a/db-alpha"
  writerId := "writer-a"
  leaseEpoch := 7
  baseDatabaseVersion := 1
  endDatabaseVersion := 2
  sequence := 1
  pageSize := 4
  baseDatabasePageCount := 2
  endDatabasePageCount := 3
  committedBoundary := .afterWalFlush
  changedPages := [⟨0, [1, 2, 3, 4]⟩, ⟨2, [9, 9, 9, 9]⟩]
  checksum := 7881
  replayIdempotencyKey := "db-alpha:7:1"

/-- The checkpoint of another tenant, under the same id. -/
def foreignCheckpoint : CheckpointV1 :=
  { checkpoint with
    tenantScope := "tenant-b/scope-a"
    objectPrefix := "tenant-b/scope-a/db-alpha"
    pageObjects :=
      [⟨0, 2, "tenant-b/scope-a/db-alpha/checkpoints/chk-0001/pages-0000-0001", 1234⟩] }

/-- A root and its checkpoint at the last sequence number. -/
def lastRoot : RootPointerV1 := { root with latestDeltaSequence := 18446744073709551615 }

/-- A checkpoint with the last sequence number there is. -/
def lastCheckpoint : CheckpointV1 :=
  { checkpoint with checkpointDeltaSequence := 18446744073709551615 }

end Example

open Example

theorem example_recovery_plan : Contract root₁ [checkpoint] [delta] 128 := by
  refine (recovery_plan_iff (by decide +kernel)).mpr ⟨.inl ?_, ?_, ?_, ?_⟩
  · intro c c' hc hc'
    rw [List.mem_singleton.mp hc.1, List.mem_singleton.mp hc'.1]
  · intro c hc
    exact ⟨c, hc, by rw [List.mem_singleton.mp hc.1]; decide⟩
  · intro c hc _
    rw [List.mem_singleton.mp hc.1]
    decide
  · intro plan hplan
    rw [List.mem_singleton.mp hplan.mem]
    decide

theorem not_contract {root : RootPointerV1} {checkpoints : List CheckpointV1}
    {deltas : List DeltaV1} {maxDeltaReplay : UInt64} {plan : RecoveryPlanV1} {f : Failure}
    (hplan : IsPlan root checkpoints deltas maxDeltaReplay plan)
    (herror : selectRecoveryPlan root checkpoints deltas maxDeltaReplay = .error f) :
    ¬ Contract root checkpoints deltas maxDeltaReplay := by
  intro hcontract
  have hok := (hcontract.determined plan).mpr hplan
  rw [herror] at hok
  cases hok

/-- The checkpoint of another database with the same id, listed first, hides the plan; and so does a
checkpoint at the last sequence number, whose successor wraps. A root far ahead of its checkpoint makes
the selection panic. -/
theorem recovery_plan_hidden :
    (root.validate = .ok () ∧
      selectRecoveryPlan root [foreignCheckpoint, checkpoint] [] 128 =
        .error (.returned .rootIdentityMismatch) ∧
      ¬ Contract root [foreignCheckpoint, checkpoint] [] 128) ∧
    (lastRoot.validate = .ok () ∧
      selectRecoveryPlan lastRoot [lastCheckpoint] [] 128 =
        .error (.returned (.missingDelta 0)) ∧
      ¬ Contract lastRoot [lastCheckpoint] [] 128) ∧
    lastRoot.validate = .ok () ∧
      selectRecoveryPlan lastRoot [checkpoint] [] 18446744073709551615 =
        .error .capacityOverflow ∧
      ¬ Contract lastRoot [checkpoint] [] 18446744073709551615 := by
  have hforeign : selectRecoveryPlan root [foreignCheckpoint, checkpoint] [] 128 =
      .error (.returned .rootIdentityMismatch) := eq_error (by decide +kernel)
  have hlast : selectRecoveryPlan lastRoot [lastCheckpoint] [] 128 =
      .error (.returned (.missingDelta 0)) := eq_error (by decide +kernel)
  have hpanic : selectRecoveryPlan lastRoot [checkpoint] [] 18446744073709551615 =
      .error .capacityOverflow := eq_error (by decide +kernel)
  have hplan : IsPlan root [foreignCheckpoint, checkpoint] [] 128 ⟨checkpoint, []⟩ :=
    ⟨by decide +kernel, by decide +kernel, by decide, rfl, rfl, by decide, by simp, rfl⟩
  have hplanLast : IsPlan lastRoot [lastCheckpoint] [] 128 ⟨lastCheckpoint, []⟩ :=
    ⟨by decide, by decide +kernel, by decide, rfl, rfl, by decide, by simp, rfl⟩
  exact ⟨⟨by decide +kernel, hforeign, not_contract hplan hforeign⟩,
    ⟨by decide +kernel, hlast, not_contract hplanLast hlast⟩, by decide +kernel, hpanic,
    fun hcontract => hcontract.returns hpanic⟩

end Turbolite.Sashimono
