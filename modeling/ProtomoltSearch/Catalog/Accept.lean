import ProtomoltSearch.Catalog.Records

/-!
# Accepting a document

A write is looked up among the recorded operations in a read of its own, and again in the transaction
that would write it; only an operation that is in neither is new work. New work takes the next
version of its key and the next sequence of the history. What an accepted write later turns out to be
is kept as an outcome on the operation and on its version, and moved by transactions of their own.
-/

namespace ProtomoltSearch.Catalog

variable {D S : Type} [DecidableEq D]

section Model

/-! ## Retry records -/

/-- The key of a retry record: of an actor, or of the catalog. -/
structure OperationKey where
  principal : Option String
  operationId : Bytes
  deriving DecidableEq

/-- `actors::valid_principal`. -/
def validPrincipal (principal : String) : Bool :=
  !principal.isEmpty && decide (principal.utf8ByteSize ≤ 16384)

variable (catalog : DocumentCatalog) (sha : Sha256 D S) (db : Database D)
  (header : DocumentCatalogHeader) (request : AcceptDocumentRequest) (key : OperationKey)
  (fence : Except Status Unit) (writeEpoch : ℕ) (mutation : Option Mutation)
  (receipt : DocumentWriteReceipt) (principal : Option String) (operationId : Bytes)

/-- `OperationKey::new`. -/
def OperationKey.new : Except Status OperationKey := do
  refuseIf (operationId.isEmpty || decide (1024 < operationId.length))
    (.invalidArgument "operation_id must contain 1 to 1024 bytes")
  refuseIf (principal.any fun p => !validPrincipal p)
    (.invalidArgument "retry principal must contain 1 to 16384 UTF-8 bytes")
  return ⟨principal, operationId⟩

/-- Not every retry record of no actor has been given one. -/
def attributionIncomplete : Bool :=
  match header.actorNamespace with
  | none => true
  | some n => n.assignedOperations != n.legacyOperations

/-- `OperationKey::check_header`. -/
def OperationKey.checkHeader (header : DocumentCatalogHeader) : Except Status Unit := do
  refuseIf (key.principal.isSome != header.resourceBinding.isSome) (.failedPrecondition
    "controlled acceptance requires an authenticated actor; unbound acceptance has no actor namespace")
  refuseIf (key.principal.isSome && attributionIncomplete header) (.failedPrecondition
    "legacy actor attribution is incomplete; assign all legacy operations before controlled acceptance or retry")

def Database.operation : Option (DocumentOperation D) :=
  match key.principal with
  | none => db.operations.lookup key.operationId
  | some principal => db.actorOperations.bind fun t => t.lookup ⟨principal, key.operationId⟩

def Database.setOperation (operation : DocumentOperation D) : Database D :=
  match key.principal with
  | none => { db with operations := db.operations.insert key.operationId operation }
  | some principal => { db with
      actorOperations :=
        some ((db.actorOperations.getD ∅).insert ⟨principal, key.operationId⟩ operation) }

/-- The row counts of the operation tables fit the history. -/
def countsValid (raw : ℕ) (actor : Option ℕ) : Bool :=
  match header.actorNamespace with
  | some n => actor.any (fun actor => raw + actor == header.acceptedSequence) &&
      raw == n.legacyOperations - n.assignedOperations
  | none => actor.isNone && raw == header.acceptedSequence

/-- `actors::validate_read_counts` and `actors::validate_write_counts`. -/
def validateCounts : Except Status Unit := do
  validateNamespace header
  refuseIf (!countsValid header db.operations.len (db.actorOperations.map (·.len))) (.dataLoss
    "operation table counts differ from accepted history or actor attribution watermark")

structure Written where
  receipt : DocumentWriteReceipt
  outcome : WriteOutcome
  deriving DecidableEq

/-- `retry::check_history`. -/
def checkHistory : Except Status Unit :=
  refuseIf (request.contractVersion == 2 && request.historyId != header.historyId)
    (.failedPrecondition "document write belongs to another catalog history")

/-- `outcome::fenced`: the rejection a fenced write replays. -/
def fenced (atRevision : ℕ) : Status :=
  .failedPrecondition ("write of version " ++ toString receipt.version ++ " at sequence " ++
    toString receipt.acceptedSequence ++
    " became durable after its admission lapsed and its right was gone at control revision " ++
    toString atRevision ++ ": the version is fenced under write epoch " ++
    toString receipt.writeEpoch ++ " and was never admitted; a retry replays this decision")

/-- A receipt from before the catalog had an identity. -/
def legacyReceipt : Bool :=
  receipt.historyId.isEmpty && decide (0 < receipt.acceptedSequence) &&
    decide (receipt.acceptedSequence ≤ header.legacyReceiptsThroughSequence)

/-- `retry::receipt`: the answer a recorded operation gives a retry. -/
def retryReceipt (previous : DocumentOperation D) (requestSha : D) : Except Status Written := do
  refuseIf (previous.requestSha256 != requestSha)
    (.alreadyExists "operation_id was used for a different document write")
  let receipt ← okOr previous.receipt (Status.dataLoss "operation receipt missing")
  refuseIf (previous.outcome == .fenced) (fenced receipt previous.fencedAtRevision)
  if legacyReceipt header receipt then
    return ⟨{ receipt with historyId := header.historyId, replayed := true }, previous.outcome⟩
  refuseIf (receipt.historyId != header.historyId)
    (.dataLoss "operation receipt belongs to another catalog history")
  return ⟨{ receipt with replayed := true }, previous.outcome⟩

/-- `DocumentCatalog::accepted_retry`. -/
def acceptedRetry (requestSha : D) (key : OperationKey) : Except Status (Option Written) := do
  validateCurrentHeader db.header
  catalog.validateResourceBinding db.header
  checkHistory db.header request
  key.checkHeader db.header
  validateCounts db db.header
  match db.operation key with
  | none => return none
  | some previous => some <$> retryReceipt db.header previous requestSha

/-! ## New work -/

def validateRequest : Except Status Unit := do
  refuseIf (!((request.contractVersion == 1 && request.historyId.isEmpty) ||
      (request.contractVersion == 2 && validHistoryId request.historyId))) (.invalidArgument
    "document write requires version 1 with no history_id or version 2 with a nonzero 16-byte history_id")
  refuseIf (request.documentKey.isEmpty || decide (16 * 1024 < request.documentKey.length))
    (.invalidArgument "document_key must contain 1 to 16384 bytes")
  refuseIf (request.operationId.isEmpty || decide (1024 < request.operationId.length))
    (.invalidArgument "operation_id must contain 1 to 1024 bytes")
  refuseIf (!mutationValid) (.invalidArgument
    "write requires original descriptor/type bytes or delete=true")
where
  mutationValid : Bool :=
    match request.mutation with
    | some (.source source) => !source.descriptorSet.isEmpty && !source.messageType.isEmpty
    | some (.delete flag) => flag
    | none => false

/-- Store a blob under its digest, unless it is there. -/
def intern {V : Type} [DecidableEq V] (table : Table D V) (sha : D) (blob : V) :
    Except Status (Table D V) :=
  match table.lookup sha with
  | some existing =>
    if existing = blob then .ok table else .error (.dataLoss "source content-address collision")
  | none => .ok (table.insert sha blob)

def sourceRecord (source : ProtobufSource) : SourceRecord D :=
  ⟨sha.descriptor source.descriptorSet, source.messageType, source.payload⟩

/-- The digest of what a write brings. -/
def sourceSha : Option D :=
  match mutation with
  | some (.source source) => some (sha.source (sourceRecord sha source))
  | _ => none

/-- Store what a write brings: its descriptor and its source, each under its digest. -/
def storeSource : Except Status (Database D) :=
  match mutation with
  | some (.source source) => do
    let descriptors ← intern db.descriptors (sha.descriptor source.descriptorSet)
      source.descriptorSet
    let sources ← intern db.sources (sha.source (sourceRecord sha source)) (sourceRecord sha source)
    return { db with descriptors, sources }
  | _ => .ok db

def currentVersion : ℕ :=
  (db.heads.lookup request.documentKey).elim 0 (·.version)

def newVersion : ℕ :=
  currentVersion db request + 1

def deletes : Bool :=
  match mutation with
  | some (.delete _) => true
  | _ => false

def newDocument : DocumentVersion D where
  documentKey := receipt.documentKey
  version := receipt.version
  acceptedSequence := receipt.acceptedSequence
  sourceSha256 := sourceSha sha request.mutation
  deleted := deletes request.mutation
  writeEpoch := receipt.writeEpoch
  outcome := .accepted
  fencedAtRevision := 0

def newOperation : DocumentOperation D where
  requestSha256 := sha.request request
  receipt := some receipt
  writeEpoch := receipt.writeEpoch
  outcome := .accepted
  fencedAtRevision := 0

def newReceipt : DocumentWriteReceipt where
  documentKey := request.documentKey
  version := newVersion db request
  acceptedSequence := db.header.acceptedSequence + 1
  accepted := true
  searchable := false
  durable := catalog.durable
  replayed := false
  historyId := db.header.historyId
  writeEpoch

/-- The tables a new write leaves: its version is the head of its key, and its sequence names it. -/
def record (document : DocumentVersion D) : Database D :=
  { db with
    header := db.header.accepting
    heads := db.heads.insert document.documentKey document
    versions := db.versions.insert document.key document
    changes := db.changes.insert document.acceptedSequence document.key }

/-- What new work has to pass before it is written. -/
def checkNew : Except Status Unit := do
  requireAdmission db.header false
  refuseIf (request.expectedVersion.any (· != currentVersion db request))
    (.aborted "document version precondition failed")
  refuseIf (decide (2 ^ 64 ≤ newVersion db request)) (.outOfRange "document version exhausted")
  refuseIf (decide (2 ^ 64 ≤ db.header.acceptedSequence + 1))
    (.outOfRange "catalog sequence exhausted")

/-- The transaction of new work. The fence is the final admission check right before its commit. -/
def writeNew : Except Status (Written × Database D) := do
  checkNew db request
  let stored ← storeSource sha db request.mutation
  let receipt := newReceipt catalog db request writeEpoch
  refuseIf (db.changes.lookup receipt.acceptedSequence).isSome
    (.dataLoss "accepted sequence already exists")
  fence
  return (⟨receipt, .accepted⟩, (record stored (newDocument sha request receipt)).setOperation key
    (newOperation sha request receipt))

/-- What `accept_as` does before it takes the writer: the request is checked and looked up. -/
def acceptLookup : Except Status (OperationKey × Option Written) := do
  let key ← OperationKey.new principal request.operationId
  validateRequest request
  let found ← acceptedRetry catalog db request (sha.request request) key
  return (key, found)

/-- What `accept_as` does with the writer: it looks the operation up again, and writes a new one. -/
def acceptWrite : Except Status (Written × Database D) := do
  let header ← headerFrom catalog db.header
  checkHistory header request
  key.checkHeader header
  validateCounts db header
  match db.operation key with
  | some previous => do
    let written ← retryReceipt header previous (sha.request request)
    return (written, db)
  | none => writeNew catalog sha db request key fence writeEpoch

/-! ## Outcomes -/

inductive Settled where
  | accepted
  | fenced (atRevision : ℕ)
  deriving DecidableEq

/-- What `mark_unconfirmed` moves an outcome to. -/
def markNext : WriteOutcome → Option (WriteOutcome × ℕ)
  | .accepted => some (.unconfirmed, 0)
  | .unconfirmed => none
  | .fenced => none

/-- What `settle_outcome` moves an outcome to. -/
def settleNext (settled : Settled) : WriteOutcome → Option (WriteOutcome × ℕ)
  | .unconfirmed =>
    match settled with
    | .accepted => some (.accepted, 0)
    | .fenced atRevision => some (.fenced, atRevision)
  | _ => none

/-- Set the outcome of a version, and of the head if the version is it. -/
def Database.setVersion (version : DocumentVersion D) (key : DocumentVersionKey) : Database D :=
  { db with
    versions := db.versions.insert key version
    heads :=
      if (db.heads.lookup key.documentKey).any fun head => head.version == key.version then
        db.heads.insert key.documentKey version
      else db.heads }

/-- `DocumentCatalog::move_outcome`. -/
def moveOutcome (next : WriteOutcome → Option (WriteOutcome × ℕ)) :
    Except Status (WriteOutcome × Database D) := do
  let key ← OperationKey.new principal operationId
  let header ← headerFrom catalog db.header
  key.checkHeader header
  let operation ← okOr (db.operation key)
    (Status.notFound "the actor has no operation with this id to settle")
  match next operation.outcome with
  | none => return (operation.outcome, db)
  | some (outcome, fencedAtRevision) => do
    let receipt ← okOr operation.receipt (Status.dataLoss "operation receipt missing")
    let versionKey : DocumentVersionKey := ⟨receipt.documentKey, receipt.version⟩
    let version ← okOr (db.versions.lookup versionKey)
      (Status.dataLoss "operation names a version the catalog does not hold")
    refuseIf (version.acceptedSequence != receipt.acceptedSequence ||
        version.outcome != operation.outcome)
      (.dataLoss "operation record and its version disagree on sequence or outcome")
    let moved := db.setVersion { version with outcome, fencedAtRevision } versionKey
    return (outcome, moved.setOperation key { operation with outcome, fencedAtRevision })

/-- `DocumentCatalog::mark_unconfirmed`. -/
def markUnconfirmed : Except Status (WriteOutcome × Database D) :=
  moveOutcome catalog db principal operationId markNext

/-- `DocumentCatalog::settle_outcome`. -/
def settleOutcome (settled : Settled) : Except Status (WriteOutcome × Database D) :=
  moveOutcome catalog db principal operationId (settleNext settled)

/-- `DocumentCatalog::recorded_operation`. -/
def recordedOperation : Except Status (Option (DocumentOperation D)) := do
  let key ← OperationKey.new principal operationId
  return db.operation key

/-! ## What the operations do -/

/-- One accepted write: who asked for it, what they asked for, and what they were answered. -/
structure Accepted where
  key : OperationKey
  request : AcceptDocumentRequest
  receipt : DocumentWriteReceipt
  deriving DecidableEq

variable (a : Accepted)

def Accepted.versionKey : DocumentVersionKey :=
  ⟨a.receipt.documentKey, a.receipt.version⟩

def Accepted.document : DocumentVersion D :=
  newDocument sha a.request a.receipt

def Accepted.operation : DocumentOperation D :=
  newOperation sha a.request a.receipt

end Model

section Specs

variable {db db' : Database D} {key key' : OperationKey} {operation : DocumentOperation D}
  {catalog : DocumentCatalog} {sha : Sha256 D S} {request : AcceptDocumentRequest}

omit [DecidableEq D] in
@[simp] lemma operation_setOperation_self :
    (db.setOperation key operation).operation key = some operation := by
  obtain ⟨_ | principal, operationId⟩ := key <;> simp [Database.setOperation, Database.operation]

omit [DecidableEq D] in
lemma operation_setOperation_of_ne (h : key' ≠ key) :
    (db.setOperation key operation).operation key' = db.operation key' := by
  obtain ⟨_ | principal, operationId⟩ := key <;> obtain ⟨_ | principal', operationId'⟩ := key'
  · have hne : operationId' ≠ operationId := fun heq => h (heq ▸ rfl)
    exact AList.lookup_insert_ne hne
  · rfl
  · rfl
  · have hne : (⟨principal', operationId'⟩ : ActorOperationKey) ≠ ⟨principal, operationId⟩ := by
      intro heq
      obtain ⟨rfl, rfl⟩ := ActorOperationKey.mk.inj heq
      exact h rfl
    simp only [Database.setOperation, Database.operation, Option.bind_some,
      AList.lookup_insert_ne hne]
    cases db.actorOperations <;> rfl

/-- The databases differ in the operation tables only. -/
structure OperationsOnly (db db' : Database D) : Prop where
  header : db'.header = db.header
  heads : db'.heads = db.heads
  versions : db'.versions = db.versions
  descriptors : db'.descriptors = db.descriptors
  sources : db'.sources = db.sources
  changes : db'.changes = db.changes
  journal : db'.journal = db.journal
  states : db'.states = db.states
  decisions : db'.decisions = db.decisions
  maintenance : db'.maintenance = db.maintenance

omit [DecidableEq D] in
lemma operationsOnly_setOperation : OperationsOnly db (db.setOperation key operation) := by
  obtain ⟨_ | principal, operationId⟩ := key <;> constructor <;> rfl

lemma OperationKey.new_ok {principal : Option String} {operationId : Bytes}
    (h : OperationKey.new principal operationId = .ok key) : key = ⟨principal, operationId⟩ := by
  obtain ⟨_, _, h⟩ := rest₂_ok h
  exact (pure_ok.1 h).symm

/-- A stored blob is found under its digest, and no other is lost. -/
lemma intern_ok {V : Type} [DecidableEq V] {table table' : Table D V} {digest : D} {blob : V}
    (h : intern table digest blob = .ok table') : table'.lookup digest = some blob ∧
      ∀ d b, table.lookup d = some b → table'.lookup d = some b := by
  unfold intern at h
  cases hlook : table.lookup digest with
  | some existing =>
    simp only [hlook] at h
    split at h
    · cases h
      rename_i heq
      exact ⟨heq ▸ hlook, fun _ _ hb => hb⟩
    · cases h
  | none =>
    simp only [hlook] at h
    cases h
    refine ⟨AList.lookup_insert _, fun d b hb => ?_⟩
    rw [AList.lookup_insert_ne fun heq => ?_]
    · exact hb
    · rw [heq, hlook] at hb
      cases hb

def Stored (sha : Sha256 D S) (db : Database D) (mutation : Option Mutation) : Prop :=
  ∀ source, mutation = some (.source source) →
    db.sources.lookup (sha.source (sourceRecord sha source)) = some (sourceRecord sha source) ∧
      db.descriptors.lookup (sha.descriptor source.descriptorSet) = some source.descriptorSet

structure KeepsBlobs (db db' : Database D) : Prop where
  sources : ∀ d b, db.sources.lookup d = some b → db'.sources.lookup d = some b
  descriptors : ∀ d b, db.descriptors.lookup d = some b → db'.descriptors.lookup d = some b

lemma Stored.mono {mutation : Option Mutation} (h : Stored sha db mutation)
    (hkeeps : KeepsBlobs db db') : Stored sha db' mutation := fun source hsrc =>
  ⟨hkeeps.sources _ _ (h source hsrc).1, hkeeps.descriptors _ _ (h source hsrc).2⟩

lemma storeSource_ok {stored : Database D} {mutation : Option Mutation}
    (h : storeSource sha db mutation = .ok stored) :
    Stored sha stored mutation ∧ KeepsBlobs db stored ∧
      stored = { db with descriptors := stored.descriptors, sources := stored.sources } := by
  unfold storeSource at h
  split at h
  · obtain ⟨descriptors, hdescriptors, sources, hsources, h⟩ := bind₂_ok.1 h
    obtain rfl := pure_ok.1 h
    obtain ⟨hd, hdkeeps⟩ := intern_ok hdescriptors
    obtain ⟨hs, hskeeps⟩ := intern_ok hsources
    refine ⟨?_, ⟨hskeeps, hdkeeps⟩, rfl⟩
    rintro _ ⟨⟩
    exact ⟨hs, hd⟩
  · rename_i hsrc
    cases h
    exact ⟨fun source hm => absurd hm (hsrc source), ⟨fun _ _ hb => hb, fun _ _ hb => hb⟩, rfl⟩

/-- One accepted write is added to the tables. -/
structure Appends (sha : Sha256 D S) (db db' : Database D) (a : Accepted) : Prop where
  header : db'.header = db.header.accepting
  heads : db'.heads = db.heads.insert a.receipt.documentKey (a.document sha)
  versions : db'.versions = db.versions.insert a.versionKey (a.document sha)
  changes : db'.changes = db.changes.insert a.receipt.acceptedSequence a.versionKey
  operations : db'.operations = (db.setOperation a.key (a.operation sha)).operations
  actorOperations : db'.actorOperations = (db.setOperation a.key (a.operation sha)).actorOperations
  blobs : KeepsBlobs db db'
  stored : Stored sha db' a.request.mutation
  journal : db'.journal = db.journal
  states : db'.states = db.states
  decisions : db'.decisions = db.decisions
  maintenance : db'.maintenance = db.maintenance

omit [DecidableEq D] in
lemma operation_congr (hraw : db'.operations = db.operations)
    (hactor : db'.actorOperations = db.actorOperations) : db'.operation key = db.operation key := by
  unfold Database.operation
  rw [hraw, hactor]

lemma Appends.operation_self {a : Accepted} (h : Appends sha db db' a) :
    db'.operation a.key = some (a.operation sha) :=
  (operation_congr h.operations h.actorOperations).trans operation_setOperation_self

lemma Appends.operation_of_ne {a : Accepted} (h : Appends sha db db' a) (hk : key ≠ a.key) :
    db'.operation key = db.operation key :=
  (operation_congr h.operations h.actorOperations).trans (operation_setOperation_of_ne hk)

lemma appends_record {stored : Database D} {mutation : Option Mutation} {a : Accepted}
    (hmut : a.request.mutation = mutation) (h : storeSource sha db mutation = .ok stored) :
    Appends sha db ((record stored (a.document sha)).setOperation a.key (a.operation sha)) a := by
  obtain ⟨hblobs, hkeeps, hstored⟩ := storeSource_ok h
  obtain ⟨⟨_ | principal, operationId⟩, request, receipt⟩ := a <;> subst hmut <;> rw [hstored] <;>
    exact ⟨rfl, rfl, rfl, rfl, rfl, rfl, ⟨hkeeps.sources, hkeeps.descriptors⟩, hblobs, rfl, rfl, rfl,
      rfl⟩

section

variable {fence : Except Status Unit} {writeEpoch : ℕ} {written : Written}

lemma writeNew_ok
    (h : writeNew catalog sha db request key fence writeEpoch = .ok (written, db')) :
    checkNew db request = .ok () ∧ fence = .ok () ∧
      written = ⟨newReceipt catalog db request writeEpoch, .accepted⟩ ∧
      Appends sha db db' ⟨key, request, written.receipt⟩ := by
  obtain ⟨⟨⟩, hchk, stored, hstore, h⟩ := bind₂_ok.1 h
  obtain ⟨_, -, ⟨⟩, hfence, h⟩ := bind₂_ok.1 h
  obtain ⟨rfl, rfl⟩ := Prod.mk.inj (pure_ok.1 h)
  exact ⟨hchk, hfence, rfl, appends_record (a := ⟨key, request, _⟩) rfl hstore⟩

/-- What the writing transaction of an acceptance goes through. -/
lemma acceptWrite_ok
    (h : acceptWrite catalog sha db request key fence writeEpoch = .ok (written, db')) :
    headerFrom catalog db.header = .ok db.header ∧ key.checkHeader db.header = .ok () ∧
      ((∃ previous, db.operation key = some previous ∧
          retryReceipt db.header previous (sha.request request) = .ok written ∧ db' = db) ∨
        (db.operation key = none ∧
          writeNew catalog sha db request key fence writeEpoch = .ok (written, db'))) := by
  obtain ⟨header, hhdr, h⟩ := bind_ok.1 h
  obtain rfl := (headerFrom_ok.1 hhdr).1
  obtain ⟨_, -, ⟨⟩, hkey, _, -, h⟩ := bind₃_ok.1 h
  refine ⟨hhdr, hkey, ?_⟩
  cases hop : db.operation key with
  | none =>
    simp only [hop] at h
    exact .inr ⟨rfl, h⟩
  | some previous =>
    simp only [hop] at h
    obtain ⟨w, hw, h⟩ := bind_ok.1 h
    obtain ⟨rfl, rfl⟩ := Prod.mk.inj (pure_ok.1 h)
    exact .inl ⟨previous, rfl, hw, rfl⟩

end

/-- The database with the outcome of an operation and of its version moved. -/
def Database.withOutcome (db : Database D) (key : OperationKey) (operation : DocumentOperation D)
    (version : DocumentVersion D) (versionKey : DocumentVersionKey) (outcome : WriteOutcome)
    (fencedAtRevision : ℕ) : Database D :=
  (db.setVersion { version with outcome, fencedAtRevision } versionKey).setOperation key
    { operation with outcome, fencedAtRevision }

section

variable {version : DocumentVersion D} {versionKey : DocumentVersionKey} {outcome : WriteOutcome}
  {revision : ℕ}

omit [DecidableEq D] in
lemma withOutcome_header :
    (db.withOutcome key operation version versionKey outcome revision).header = db.header :=
  operationsOnly_setOperation.header

omit [DecidableEq D] in
lemma withOutcome_operation :
    (db.withOutcome key operation version versionKey outcome revision).operation key =
      some { operation with outcome, fencedAtRevision := revision } :=
  operation_setOperation_self

end

omit [DecidableEq D] in
/-- **What a move of an outcome does**: nothing, or the operation and its version move together. -/
theorem moveOutcome_ok {principal : Option String} {operationId : Bytes}
    {next : WriteOutcome → Option (WriteOutcome × ℕ)} {outcome : WriteOutcome}
    (h : moveOutcome catalog db principal operationId next = .ok (outcome, db')) :
    ∃ operation, db.operation ⟨principal, operationId⟩ = some operation ∧
      ((next operation.outcome = none ∧ outcome = operation.outcome ∧ db' = db) ∨
        ∃ revision receipt version, next operation.outcome = some (outcome, revision) ∧
          operation.receipt = some receipt ∧
          db.versions.lookup ⟨receipt.documentKey, receipt.version⟩ = some version ∧
          version.acceptedSequence = receipt.acceptedSequence ∧ version.outcome = operation.outcome ∧
          db' = db.withOutcome ⟨principal, operationId⟩ operation version
            ⟨receipt.documentKey, receipt.version⟩ outcome revision) := by
  obtain ⟨key, hkey, h⟩ := bind_ok.1 h
  obtain rfl := OperationKey.new_ok hkey
  obtain ⟨_, -, _, -, operation, hoperation, h⟩ := bind₃_ok.1 h
  refine ⟨operation, okOr_ok.1 hoperation, ?_⟩
  cases hnext : next operation.outcome with
  | none =>
    simp only [hnext] at h
    obtain ⟨rfl, rfl⟩ := Prod.mk.inj (pure_ok.1 h)
    exact .inl ⟨rfl, rfl, rfl⟩
  | some moved =>
    obtain ⟨moved, revision⟩ := moved
    simp only [hnext] at h
    obtain ⟨receipt, hrcpt, version, hver, ⟨⟩, hagree, h⟩ := bind₃_ok.1 h
    obtain ⟨rfl, rfl⟩ := Prod.mk.inj (pure_ok.1 h)
    have hagree := refuseIf_ok.1 hagree
    simp only [Bool.or_eq_false_iff, bne_eq_false_iff_eq] at hagree
    exact .inr ⟨revision, receipt, version, rfl, okOr_ok.1 hrcpt, okOr_ok.1 hver,
      hagree.1, hagree.2, rfl⟩

end Specs

end ProtomoltSearch.Catalog
