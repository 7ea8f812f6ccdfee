import ProtomoltSearch.Foundations.Refusals
import ProtomoltSearch.Status

/-!
# The header of a document catalog

A catalog's header names its format, its history and how far the history goes, and carries what
closes or binds it, such as a terminal seal or the managed owner. Every transaction validates the whole header
before it reads anything else (`validateCurrentHeader`), and a writing one also compares it with the
handle it was opened by (`headerFrom`).
-/

namespace ProtomoltSearch

open Status

abbrev Bytes := List UInt8

namespace Catalog

section Model

/-! ## Records -/

/-- Two unsigned 64-bit numbers added, if the sum is one. -/
def checkedAdd (a b : ℕ) : Option ℕ := if a + b < 2 ^ 64 then some (a + b) else none

lemma checkedAdd_eq_some {a b c : ℕ} : checkedAdd a b = some c ↔ a + b < 2 ^ 64 ∧ a + b = c := by
  unfold checkedAdd
  split
  · simp_all
  · exact iff_of_false (fun h => nomatch h) (fun h => by omega)

structure SourceHistorySeal where
  formatVersion : ℕ
  historyId : Bytes
  acceptedSequence : ℕ
  operationId : Bytes
  deriving DecidableEq

structure SourceRetirementIntent where
  formatVersion : ℕ
  historyId : Bytes
  acceptedSequence : ℕ
  operationId : Bytes
  deriving DecidableEq

structure SourceResourceBinding where
  formatVersion : ℕ
  workspace : String
  collection : String
  deriving DecidableEq

/-- How many retry records of no actor there were, and how many have been given one. -/
structure SourceActorNamespace where
  formatVersion : ℕ
  legacyOperations : ℕ
  assignedOperations : ℕ
  deriving DecidableEq

structure SourceAuthorityIdentity where
  formatVersion : ℕ
  groupId : Bytes
  authorityIncarnation : Bytes
  deriving DecidableEq

structure LogicalSourceOwner where
  workspace : String
  collection : String
  ownerId : Bytes
  deriving DecidableEq

inductive SourceResidency where
  | unspecified
  | server
  | deviceLocal
  deriving DecidableEq

structure SourceStorageTarget where
  nodeId : String
  storageIncarnation : Bytes
  historyId : Bytes
  residency : SourceResidency
  residentDeviceId : String
  deriving DecidableEq

inductive PreparedSourceOwnerPhase where
  | unspecified
  | prepared
  | cancelled
  | ready
  | active
  deriving DecidableEq

structure SourceAuthorityOperationKey where
  formatVersion : ℕ
  key : Option LogicalSourceOwner
  principal : String
  commandId : Bytes
  deriving DecidableEq

structure SourceOwnerCompletion where
  formatVersion : ℕ
  bindingSha256 : Bytes
  boundAtSequence : ℕ
  historyId : Bytes
  nodeId : String
  storageIncarnation : Bytes
  deriving DecidableEq

structure SourceOwnerReadiness where
  formatVersion : ℕ
  completion : Option SourceOwnerCompletion
  deriving DecidableEq

structure SourceOwnerActivation where
  formatVersion : ℕ
  writeEpoch : ℕ
  activatedControlRevision : ℕ
  deriving DecidableEq

structure PreparedSourceOwner where
  formatVersion : ℕ
  key : Option LogicalSourceOwner
  target : Option SourceStorageTarget
  workflowId : Bytes
  ownershipGeneration : ℕ
  phase : PreparedSourceOwnerPhase
  controlRevision : ℕ
  lastCommand : Option SourceAuthorityOperationKey
  readiness : Option SourceOwnerReadiness
  activation : Option SourceOwnerActivation
  deriving DecidableEq

structure SourceManagedBinding where
  formatVersion : ℕ
  authority : Option SourceAuthorityIdentity
  preparation : Option PreparedSourceOwner
  boundAtSequence : ℕ
  deriving DecidableEq

structure SourceManagedActivation where
  formatVersion : ℕ
  authority : Option SourceAuthorityIdentity
  ownershipGeneration : ℕ
  writeEpoch : ℕ
  activatedControlRevision : ℕ
  activatedAtSequence : ℕ
  deriving DecidableEq

structure DocumentCatalogHeader where
  formatVersion : ℕ
  collection : String
  acceptedSequence : ℕ
  historyId : Bytes
  legacyReceiptsThroughSequence : ℕ
  historySeal : Option SourceHistorySeal
  retirementIntent : Option SourceRetirementIntent
  resourceBinding : Option SourceResourceBinding
  actorNamespace : Option SourceActorNamespace
  managedBinding : Option SourceManagedBinding
  managedActivation : Option SourceManagedActivation
  deriving DecidableEq

structure DocumentCatalog where
  durable : Bool
  resourceBinding : Option SourceResourceBinding
  managedBinding : Option SourceManagedBinding
  managedActivation : Option SourceManagedActivation
  deriving DecidableEq

variable (catalog : DocumentCatalog) (header : DocumentCatalogHeader)

namespace Format

def version : ℕ := 3
def sealed : ℕ := 4
def retiring : ℕ := 5
def retired : ℕ := 6
def legacyAccessControlled : ℕ := 7
def accessControlled : ℕ := 8
def managed : ℕ := 9
def activeManagedBeforeOutcomes : ℕ := 10
def activeManaged : ℕ := 11

/-- The formats a catalog is served in. -/
def current : List ℕ :=
  [version, sealed, retiring, retired, legacyAccessControlled, accessControlled, managed,
    activeManaged]

/-- The formats of a catalog bound to a resource. -/
def controlled : List ℕ := [legacyAccessControlled, accessControlled, managed, activeManaged]

/-- The formats whose retry records belong to actors. -/
def actorScoped : List ℕ := [accessControlled, managed, activeManaged]

end Format

/-! ## Names and owners -/

def nameChar (c : Char) : Bool :=
  (33 ≤ c.toNat && c.toNat ≤ 126) && !([47, 92, 58, 34, 39].contains c.toNat)

/-- `collections::validate_name`. -/
def validateName (name : String) : Except String Unit := do
  refuseIf name.isEmpty "collection name is empty"
  refuseIf (decide (128 < name.utf8ByteSize))
    ("collection name " ++ debug name ++ " is longer than 128 bytes")
  match name.toList.find? fun c => !nameChar c with
  | some bad => .error ("collection name " ++ debug name ++ " contains " ++ debug bad.toString ++
      "; names are printable ASCII without whitespace, quotes, colons, or slashes")
  | none => .ok ()

/-- `source_owner::bounded`. -/
def bounded (length max : ℕ) (name : String) : Except Status Unit :=
  refuseIf (decide (length = 0 ∨ max < length))
    (.invalidArgument ("source authority " ++ name ++ " must contain 1.." ++ toString max ++ " bytes"))

def validHistoryId (id : Bytes) : Bool := id.length == 16 && id.any (· != 0)

/-- `source_owner::uuid`. -/
def uuid (value : Bytes) (name : String) : Except Status Unit :=
  refuseIf (!validHistoryId value)
    (.invalidArgument ("source authority " ++ name ++ " must be a nonzero 16-byte identity"))

/-- `source_owner::identity`. -/
def identity (value : SourceAuthorityIdentity) : Except Status Unit := do
  refuseIf (value.formatVersion != 1)
    (.invalidArgument "source authority identity requires format 1")
  uuid value.groupId "group_id"
  uuid value.authorityIncarnation "authority_incarnation"

/-- `source_owner::resource`. -/
def resource (workspace collection : String) : Except Status Unit := do
  refuseIf workspace.isEmpty (.invalidArgument "source authority workspace is required")
  (validateName workspace).mapError .invalidArgument
  if collection.isEmpty then .ok () else (validateName collection).mapError .invalidArgument

/-- `source_owner::key`, with the owner required. -/
def ownerKey (value : LogicalSourceOwner) : Except Status Unit := do
  resource value.workspace value.collection
  bounded value.ownerId.length 1024 "logical owner_id"

/-- `source_owner::target`. -/
def target (value : SourceStorageTarget) : Except Status Unit := do
  bounded value.nodeId.utf8ByteSize 1024 "node_id"
  uuid value.storageIncarnation "storage_incarnation"
  uuid value.historyId "history_id"
  match value.residency with
  | .server => refuseIf (!value.residentDeviceId.isEmpty) residencyError
  | .deviceLocal => refuseIf (value.residentDeviceId != value.nodeId) residencyError
  | .unspecified => .error residencyError
where
  residencyError : Status := .invalidArgument
    "source authority residency requires SERVER without a device or DEVICE_LOCAL bound to this node_id"

/-- `source_owner::completion_matches`. -/
def completionMatches (value : SourceOwnerCompletion) (target : SourceStorageTarget) :
    Except Status Unit := do
  refuseIf (value.formatVersion != 1 || value.bindingSha256.length != 32) (.invalidArgument
    "source owner completion requires format 1 and a 32-byte binding digest")
  refuseIf (value.historyId != target.historyId || value.nodeId != target.nodeId ||
      value.storageIncarnation != target.storageIncarnation) (.failedPrecondition
    "source owner completion names another history, host or storage incarnation than the prepared target")

variable (value : PreparedSourceOwner) (activation : SourceManagedActivation)
  (binding : SourceManagedBinding)

/-- The readiness and activation of an owner of a phase: `source_owner::owner`'s last check. -/
def ownerPhase (target : SourceStorageTarget) : Except Status Unit :=
  match value.phase with
  | .prepared | .cancelled => refuseIf (value.readiness.isSome || value.activation.isSome)
      (.dataLoss "source authority owner carries readiness or activation before READY")
  | .unspecified => .error (.dataLoss "source authority owner phase is unsupported")
  | phase => do
    let readiness ← okOr value.readiness
      (dataLoss "source authority READY owner has no readiness")
    refuseIf (readiness.formatVersion != 1)
      (.dataLoss "source authority readiness format is unsupported")
    let completion ← okOr readiness.completion
      (dataLoss "source authority readiness has no completion")
    (completionMatches completion target).mapError fun e => dataLoss e.message
    match phase, value.activation with
    | .ready, none => .ok ()
    | .active, some activation =>
      refuseIf (activation.formatVersion != 1 || activation.writeEpoch != value.ownershipGeneration ||
          activation.activatedControlRevision != value.controlRevision)
        (.dataLoss "source authority activation fence differs from its owner")
    | _, _ => .error (.dataLoss "source authority owner activation and phase disagree")

/-- `source_owner::owner`. -/
def owner : Except Status Unit := do
  refuseIf (value.formatVersion != 1 || value.ownershipGeneration == 0 || value.controlRevision == 0)
    (.dataLoss "source authority owner format or counters are invalid")
  let key ← okOr value.key (dataLoss "source authority owner key missing")
  ownerKey key
  let held ← okOr value.target (dataLoss "source authority owner target missing")
  target held
  bounded value.workflowId.length 1024 "workflow_id"
  let command ← okOr value.lastCommand
    (dataLoss "source authority owner last command missing")
  refuseIf (command.formatVersion != 1 || command.key != value.key)
    (.dataLoss "source authority owner command binding differs")
  bounded command.principal.utf8ByteSize 16384 "principal"
  bounded command.commandId.length 1024 "command_id"
  ownerPhase value held

/-- `access::validate_binding`. -/
def validateResource (binding : SourceResourceBinding) : Except Status Unit := do
  refuseIf (binding.formatVersion != 1 || binding.workspace.isEmpty)
    (.invalidArgument "source resource binding requires format 1 and a workspace")
  (validateName binding.workspace).mapError .invalidArgument
  if binding.collection.isEmpty then .ok ()
  else (validateName binding.collection).mapError .invalidArgument

/-- `managed::validate_binding`. -/
def validateBinding : Except Status Unit := do
  refuseIf (binding.formatVersion != 1) (.invalidArgument "managed source binding requires format 1")
  let authority ← okOr binding.authority
    (invalidArgument "managed source authority identity missing")
  identity authority
  let preparation ← okOr binding.preparation
    (invalidArgument "managed source preparation missing")
  (owner preparation).mapError fun e => invalidArgument e.message
  refuseIf (preparation.phase != .prepared)
    (.invalidArgument "managed source binding requires a prepared owner")

/-- `managed::validate_activation`, of a binding with a preparation. -/
def validateActivation : Except Status Unit :=
  refuseIf (activation.formatVersion != 1 || activation.authority != binding.authority ||
      some activation.ownershipGeneration != binding.preparation.map (·.ownershipGeneration) ||
      activation.writeEpoch == 0 || activation.activatedControlRevision == 0)
    (.invalidArgument "managed activation requires format 1, the binding's authority and generation, and a nonzero fence")

/-! ## The whole header -/

def sealValid : Bool :=
  header.historySeal.any fun s =>
    s.formatVersion == 1 && s.historyId == header.historyId &&
      s.acceptedSequence == header.acceptedSequence && !s.operationId.isEmpty &&
      decide (s.operationId.length ≤ 1024)

/-- The retirement intent is one of this header. -/
def retirementValid : Bool :=
  header.retirementIntent.any fun i =>
    i.formatVersion == 1 && i.historyId == header.historyId &&
      i.acceptedSequence == header.acceptedSequence && !i.operationId.isEmpty &&
      decide (i.operationId.length ≤ 1024)

/-- The plain format with the markers of this header. -/
def lifecycle : ℕ :=
  match header.retirementIntent.isSome, header.historySeal.isSome with
  | false, false => Format.version
  | false, true => Format.sealed
  | true, false => Format.retiring
  | true, true => Format.retired

/-- The plain format the lifecycle of a header is judged by. -/
def lifecycleFormat : Except Status ℕ :=
  if Format.controlled.contains header.formatVersion then do
    let binding ← okOr header.resourceBinding
      (dataLoss "access-controlled catalog resource binding missing")
    (validateResource binding).mapError fun e => dataLoss e.message
    refuseIf (binding.collection != header.collection)
      (.dataLoss "source resource binding and catalog collection disagree")
    return lifecycle header
  else do
    refuseIf header.resourceBinding.isSome
      (.dataLoss "source resource binding requires catalog format 7, 8, 9 or 10")
    return header.formatVersion

/-- The markers a lifecycle format comes with. -/
def lifecycleValid (format : ℕ) : Bool :=
  if format = Format.version then header.historySeal.isNone && header.retirementIntent.isNone
  else if format = Format.sealed then sealValid header && header.retirementIntent.isNone
  else if format = Format.retiring then retirementValid header && header.historySeal.isNone
  else if format = Format.retired then sealValid header && retirementValid header &&
    header.historySeal.map (·.operationId) == header.retirementIntent.map (·.operationId)
  else false

/-- `seal::validate_header_seal`. -/
def validateHeaderSeal : Except Status Unit := do
  let format ← lifecycleFormat header
  refuseIf (!lifecycleValid header format)
    (.dataLoss "document catalog format, retirement intent and terminal history seal disagree")

/-- The migration watermark fits the history. -/
def namespaceValid : Bool :=
  match header.actorNamespace with
  | some n => Format.actorScoped.contains header.formatVersion && n.formatVersion == 1 &&
      decide (n.assignedOperations ≤ n.legacyOperations) &&
      decide (n.legacyOperations ≤ header.acceptedSequence) &&
      (n.assignedOperations == n.legacyOperations || header.acceptedSequence == n.legacyOperations)
  | none => !Format.actorScoped.contains header.formatVersion

/-- `actors::validate_namespace`. -/
def validateNamespace : Except Status Unit :=
  refuseIf (!namespaceValid header)
    (.dataLoss "catalog format and actor namespace migration metadata disagree")

/-- The managed owner is the one of this resource and history. -/
def ownerMatches (held : SourceResourceBinding) : Bool :=
  (binding.preparation.bind (·.key)).any (fun k =>
      k.workspace == held.workspace && k.collection == held.collection) &&
    (binding.preparation.bind (·.target)).any (fun t => t.historyId == header.historyId) &&
    decide (binding.boundAtSequence ≤ header.acceptedSequence)

/-- The format of a managed header and its activation agree. -/
def validateManagedFormat : Except Status Unit :=
  match header.managedActivation with
  | none => refuseIf (header.formatVersion != Format.managed) formatError
  | some activation => do
    refuseIf (header.formatVersion != Format.activeManaged) formatError
    (validateBinding binding).mapError fun e => dataLoss e.message
    (validateActivation activation binding).mapError fun e => dataLoss e.message
    refuseIf (decide (header.acceptedSequence < activation.activatedAtSequence))
      (.dataLoss "managed activation sequence is ahead of the accepted sequence")
where
  formatError : Status := .dataLoss
    "managed source binding requires catalog format 9 without activation or format 11 with it"

/-- `managed::validate_header`. -/
def validateManagedHeader : Except Status Unit :=
  match header.managedBinding with
  | none => refuseIf (header.formatVersion == Format.managed ||
        header.formatVersion == Format.activeManaged || header.managedActivation.isSome)
      (.dataLoss "managed catalog owner binding is missing")
  | some binding => do
    validateManagedFormat header binding
    (validateBinding binding).mapError fun e => dataLoss e.message
    let held ← okOr header.resourceBinding
      (dataLoss "managed catalog resource binding missing")
    refuseIf (!ownerMatches header binding held)
      (.dataLoss "managed source owner, resource, history or accepted sequence differs")

def validateCurrentHeader : Except Status Unit := do
  refuseIf (header.formatVersion == Format.activeManagedBeforeOutcomes) (.failedPrecondition
    "document catalog format 10 (an activated managed source from before write outcomes) is not served; format 11 records an outcome on every write, and the source is rebuilt from its authority rather than migrated")
  refuseIf (!Format.current.contains header.formatVersion || !validHistoryId header.historyId ||
      decide (header.acceptedSequence < header.legacyReceiptsThroughSequence))
    (.dataLoss "invalid document catalog history identity or migration boundary")
  validateHeaderSeal header
  validateNamespace header
  validateManagedHeader header

/-- The handle is the one this file was opened by. -/
def DocumentCatalog.validateResourceBinding : Except Status Unit := do
  refuseIf (header.managedBinding != catalog.managedBinding) (.failedPrecondition
    "managed source binding differs; managed storage requires its exact owner and closed recovery adapter")
  refuseIf (header.managedActivation != catalog.managedActivation) (.failedPrecondition
    "managed source activation differs; writes require the handle activated under the committed fence")
  refuseIf (header.resourceBinding != catalog.resourceBinding) (.failedPrecondition
    "document catalog resource binding differs; access-controlled catalogs require their bound workspace and collection")

/-- `seal::header_from`: the header a writing transaction starts from. -/
def headerFrom : Except Status DocumentCatalogHeader := do
  validateCurrentHeader header
  catalog.validateResourceBinding header
  refuseIf (header.managedBinding.isSome && header.managedActivation.isNone) (.failedPrecondition
    "managed source admission is closed; preparation and persisted binding do not authorize mutations")
  return header

/-- `seal::require_admission`: the gate of new work. -/
def requireAdmission (recovery : Bool) : Except Status Unit := do
  refuseIf header.historySeal.isSome
    (.failedPrecondition "source history is sealed; acceptance and index mutations are retired")
  refuseIf (header.retirementIntent.isSome && !recovery) (.failedPrecondition
    "source history is retiring; new acceptance and index preparations are closed")

end Model

/-! ## Accepting moves the header on -/

/-- The header with its history one write longer. -/
def DocumentCatalogHeader.accepting (header : DocumentCatalogHeader) : DocumentCatalogHeader :=
  { header with acceptedSequence := header.acceptedSequence + 1 }

variable {header : DocumentCatalogHeader} {catalog : DocumentCatalog}

lemma headerFrom_ok {held : DocumentCatalogHeader} : headerFrom catalog header = .ok held ↔
    held = header ∧ validateCurrentHeader header = .ok () ∧
      catalog.validateResourceBinding header = .ok () ∧
      (header.managedBinding.isSome && header.managedActivation.isNone) = false := by
  unfold headerFrom
  constructor
  · intro h
    obtain ⟨⟨⟩, hvalid, ⟨⟩, hbind, ⟨⟩, hopen, h⟩ := bind₃_ok.1 h
    exact ⟨(pure_ok.1 h).symm, hvalid, hbind, refuseIf_ok.1 hopen⟩
  · rintro ⟨rfl, hvalid, hbind, hopen⟩
    rw [hvalid, hbind, hopen]
    rfl

lemma requireAdmission_ok {recovery : Bool} : requireAdmission header recovery = .ok () ↔
    header.historySeal = none ∧ (header.retirementIntent = none ∨ recovery = true) := by
  unfold requireAdmission
  cases header.historySeal <;> cases header.retirementIntent <;> cases recovery <;> simp [refuseIf]

lemma validateCurrentHeader_ok : validateCurrentHeader header = .ok () ↔
    (header.formatVersion ≠ Format.activeManagedBeforeOutcomes ∧
      Format.current.contains header.formatVersion = true ∧ validHistoryId header.historyId = true ∧
      header.legacyReceiptsThroughSequence ≤ header.acceptedSequence) ∧
    validateHeaderSeal header = .ok () ∧ validateNamespace header = .ok () ∧
      validateManagedHeader header = .ok () := by
  unfold validateCurrentHeader
  simp [check_bind_ok, refuseIf_ok, and_assoc]

/-- A catalog bound to no resource has no actors. -/
lemma actorNamespace_eq_none (h : validateCurrentHeader header = .ok ())
    (hbind : header.resourceBinding = none) : header.actorNamespace = none := by
  obtain ⟨-, hlife, hns, -⟩ := validateCurrentHeader_ok.1 h
  obtain ⟨format, hfmt, -⟩ := bind_ok.1 hlife
  have hplain : Format.controlled.contains header.formatVersion = false := by
    by_contra hne
    rw [Bool.not_eq_false] at hne
    rw [lifecycleFormat, if_pos hne, hbind] at hfmt
    cases hfmt
  have hunscoped : Format.actorScoped.contains header.formatVersion = false := by
    simp only [Format.controlled, Format.actorScoped, List.contains_eq_mem, List.mem_cons,
      decide_eq_false_iff_not] at hplain ⊢
    tauto
  cases hn : header.actorNamespace with
  | none => rfl
  | some n =>
    simp only [validateNamespace, namespaceValid, hn, hunscoped, Bool.false_and, Bool.not_false,
      refuseIf_true] at hns
    cases hns

lemma validateHeaderSeal_accepting (hseal : header.historySeal = none)
    (hint : header.retirementIntent = none) (h : validateHeaderSeal header = .ok ()) :
    validateHeaderSeal header.accepting = .ok () := by
  -- with no marker set, the checks do not read the sequence
  have hfmt : lifecycleFormat header.accepting = lifecycleFormat header := rfl
  obtain ⟨format, hf, h⟩ := bind_ok.1 h
  unfold validateHeaderSeal
  rw [hfmt, hf, ok_bind]
  have hvalid : lifecycleValid header.accepting format = lifecycleValid header format := by
    simp [lifecycleValid, sealValid, retirementValid, DocumentCatalogHeader.accepting, hseal, hint]
  rw [hvalid]
  exact h

lemma validateNamespace_accepting
    (hassigned : ∀ n, header.actorNamespace = some n → n.assignedOperations = n.legacyOperations)
    (h : validateNamespace header = .ok ()) : validateNamespace header.accepting = .ok () := by
  unfold validateNamespace namespaceValid at h ⊢
  have hsame : header.accepting.actorNamespace = header.actorNamespace := rfl
  rw [hsame]
  cases hn : header.actorNamespace with
  | none =>
    simp only [hn] at h
    exact h
  | some n =>
    have hle := hassigned n hn
    simp only [hn, refuseIf_ok, Bool.not_eq_false', Bool.and_eq_true, decide_eq_true_eq] at h ⊢
    obtain ⟨⟨⟨⟨hscoped, hver⟩, hbound⟩, hlegacy⟩, -⟩ := h
    exact ⟨⟨⟨⟨hscoped, hver⟩, hbound⟩, Nat.le_succ_of_le hlegacy⟩, by simp [hle]⟩

lemma validateManagedFormat_accepting {binding : SourceManagedBinding}
    (h : validateManagedFormat header binding = .ok ()) :
    validateManagedFormat header.accepting binding = .ok () := by
  unfold validateManagedFormat at h ⊢
  have hsame : header.accepting.managedActivation = header.managedActivation := rfl
  rw [hsame]
  cases ha : header.managedActivation with
  | none =>
    simp only [ha] at h
    exact h
  | some activation =>
    simp only [ha] at h ⊢
    obtain ⟨⟨⟩, hactive, ⟨⟩, hbind, ⟨⟩, hactivation, h⟩ := bind₃_ok.1 h
    have hver : header.accepting.formatVersion = header.formatVersion := rfl
    have hseq : header.accepting.acceptedSequence = header.acceptedSequence + 1 := rfl
    rw [hver, hactive, hbind, hactivation, ok_bind, ok_bind, ok_bind, refuseIf_ok, hseq]
    have := of_decide_eq_false (refuseIf_ok.1 h)
    exact decide_eq_false (by omega)

lemma validateManagedHeader_accepting (h : validateManagedHeader header = .ok ()) :
    validateManagedHeader header.accepting = .ok () := by
  unfold validateManagedHeader at h ⊢
  have hsame : header.accepting.managedBinding = header.managedBinding := rfl
  rw [hsame]
  cases hb : header.managedBinding with
  | none =>
    simp only [hb] at h
    exact h
  | some binding =>
    simp only [hb] at h ⊢
    obtain ⟨⟨⟩, hfmt, ⟨⟩, hbind, _, hheld, h⟩ := bind₃_ok.1 h
    have hresource : header.accepting.resourceBinding = header.resourceBinding := rfl
    rw [validateManagedFormat_accepting hfmt, hbind, hresource, hheld, ok_bind, ok_bind,
      ok_bind, refuseIf_ok]
    have h := refuseIf_ok.1 h
    simp only [ownerMatches, DocumentCatalogHeader.accepting, Bool.not_eq_false', Bool.and_eq_true,
      decide_eq_true_eq] at h ⊢
    exact ⟨h.1, decide_eq_true (Nat.le_succ_of_le h.2)⟩

/-- **A write leaves the header valid**: of a catalog that is neither sealed nor retiring and has
given all its retry records an actor. -/
theorem validateCurrentHeader_accepting (hseal : header.historySeal = none)
    (hint : header.retirementIntent = none)
    (hassigned : ∀ n, header.actorNamespace = some n → n.assignedOperations = n.legacyOperations)
    (h : validateCurrentHeader header = .ok ()) : validateCurrentHeader header.accepting = .ok () := by
  obtain ⟨⟨hten, hcur, hid, hlegacy⟩, hlife, hns, hmanaged⟩ :=
    validateCurrentHeader_ok.1 h
  exact validateCurrentHeader_ok.2 ⟨⟨hten, hcur, hid, Nat.le_succ_of_le hlegacy⟩,
    validateHeaderSeal_accepting hseal hint hlife, validateNamespace_accepting hassigned hns,
    validateManagedHeader_accepting hmanaged⟩

end Catalog

end ProtomoltSearch
