import ProtomoltSearch.Catalog.Reading

/-!
# The index journal

A document index is a catalog of segments whose manifest is replaced as a whole. The source catalog
keeps, for each index, the sequence its committed decisions reach, the manifest they end at, and at
most one intent that is prepared and not resolved: of the next accepted document, or of a rewrite.
Recovery commits a decision when it finds the manifest the intent leads to on disk. The comparison of
segments row by row is a parameter (`Artifacts`).
-/

namespace ProtomoltSearch.Catalog

open Status

variable {D S : Type}

/-! ## Segments -/

/-- A set of segments that is open: where it is, and its manifest. -/
structure OpenedSegmentSet (S : Type) where
  root : String
  manifest : SegmentSetManifest S
  deriving DecidableEq

namespace OpenedSegmentSet

def epoch (set : OpenedSegmentSet S) : ℕ := set.manifest.epoch

def len (set : OpenedSegmentSet S) : ℕ := set.manifest.segments.length

def isEmpty (set : OpenedSegmentSet S) : Bool := set.manifest.segments.isEmpty

def binding (set : OpenedSegmentSet S) : Option Bytes := set.manifest.binding

def generationDeclaration (set : OpenedSegmentSet S) : Option Bytes :=
  set.manifest.generationDeclaration

end OpenedSegmentSet

/-- What a staged document says it is. -/
structure CandidateInfo where
  documentKey : Bytes
  version : ℕ
  acceptedSequence : ℕ
  deleted : Bool
  historyId : Bytes
  rows : ℕ
  deriving DecidableEq

structure StagedDocumentCandidate (S : Type) where
  info : CandidateInfo
  source : Option ProtobufSource
  segments : Option (OpenedSegmentSet S)
  deriving DecidableEq

/-- What is compared by reading artifacts. -/
structure Artifacts (D S : Type) where
  /-- The last part of `validate_transition`: the declared generation, and every segment's rows. -/
  replacement : StagedDocumentCandidate S → OpenedSegmentSet S → OpenedSegmentSet S →
    Except Status Unit
  /-- The pruning summaries of a set are those of its rows. -/
  summaries : OpenedSegmentSet S → Except Status Unit
  /-- `OpenedSegmentSet::verify_source_rewrite`. -/
  sourceRewrite : OpenedSegmentSet S → OpenedSegmentSet S →
    Except String (SourceRewriteCertificate D)

/-- `validate_transition`. -/
def validateTransition (artifacts : Artifacts D S) (candidate : StagedDocumentCandidate S)
    (before after : OpenedSegmentSet S) : Except Status Unit := do
  refuseIf (before.root != after.root || checkedAdd before.epoch 1 != some after.epoch ||
      before.manifest.partitionKey != after.manifest.partitionKey ||
      after.len != before.len + candidate.segments.elim 0 (·.len) ||
      after.binding != ((candidate.segments.bind (·.binding)).or before.binding) ||
      (before.binding.isSome && after.binding != before.binding)) (.failedPrecondition
    "projection manifest is not the exact staged document replacement")
  artifacts.replacement candidate before after

/-! ## Records -/

section

variable [DecidableEq D] (artifacts : Artifacts D S) (catalog : DocumentCatalog) (sha : Sha256 D S)
  (decisions : Table ProjectionDecisionKey (ProjectionIntent D))
  (maintenance : Option (Table MaintenanceDecisionKey (MaintenanceIntent D))) (db : Database D)
  (state : ProjectionJournalState D)

variable (key : Bytes)

/-- `index_key`. -/
def indexKey : Except Status Unit :=
  refuseIf (key.isEmpty || decide (1024 < key.length))
    (.invalidArgument "projection index_key must contain 1 to 1024 bytes")

/-- `intent_hash`. -/
def intentHash (intent : ProjectionIntent D) : D :=
  sha.intent { intent with intentId := none }

/-- `maintenance_hash`. -/
def maintenanceHash (intent : MaintenanceIntent D) : D :=
  sha.maintenance { intent with intentId := none }

def ProjectionIntent.sequence (intent : ProjectionIntent D) : Option ℕ :=
  intent.source.map (·.acceptedSequence)

/-- `journal_header`: is there a journal, and is it the one of this history? -/
def journalHeader (history : Bytes) : Except Status Bool :=
  match db.journal with
  | none => do
    refuseIf (db.states.isSome || db.decisions.isSome || db.maintenance.isSome)
      (.dataLoss "projection tables exist without their journal header")
    return false
  | some header => do
    refuseIf ((header.formatVersion != 1 && header.formatVersion != 2) ||
        ((header.formatVersion == 2) != db.maintenance.isSome) || header.historyId != history ||
        !db.states.isSome || !db.decisions.isSome)
      (.dataLoss "projection journal format, history or tables differ")
    return true

/-- `validate_intent`. -/
def validateIntent (intent : ProjectionIntent D) (key history : Bytes) : Except Status Unit := do
  let source ← okOr intent.source (dataLoss "projection intent source missing")
  refuseIf (intent.indexKey != key || intent.historyId != history || source.documentKey.isEmpty ||
      source.version == 0 || source.acceptedSequence == 0 ||
      (source.deleted && (source.sourceSha256.isSome || intent.rows != 0)) ||
      (!source.deleted && source.sourceSha256.isNone) ||
      checkedAdd intent.beforeEpoch 1 != some intent.afterEpoch ||
      intent.beforeManifestSha256 == intent.afterManifestSha256 ||
      intent.intentId != some (intentHash sha intent))
    (.dataLoss "invalid projection intent identity or manifest transition")

/-- The pending intent is the next of the committed ones. -/
def validatePending (key history : Bytes) : Except Status Unit :=
  match state.pending with
  | none => .ok ()
  | some pending => do
    validateIntent sha pending key history
    refuseIf (pending.beforeManifestSha256 != state.committedManifestSha256 ||
        checkedAdd state.committedSequence 1 != pending.sequence)
      (.dataLoss "projection intent is not the next committed transition")

/-- `validate_state`. -/
def validateState (key history : Bytes) : Except Status Unit := do
  refuseIf (state.indexKey != key || state.historyId != history ||
      (state.pending.isSome && state.pendingMaintenance.isSome))
    (.dataLoss "invalid projection journal state")
  validatePending sha state key history

def cursor (intent : MaintenanceIntent D) : MaintenanceCursor D :=
  ⟨intent.afterEpoch, intent.intentId⟩

/-- `validate_maintenance`. -/
def validateMaintenance (intent : MaintenanceIntent D) (key history : Bytes)
    (collection : String) : Except Status Unit := do
  let owner ← okOr intent.owner fail
  let proof ← okOr intent.preservation fail
  refuseIf (intent.formatVersion != 1 || owner.formatVersion != 1 || owner.indexKey != key ||
      owner.historyId != history || owner.collection != collection ||
      intent.acceptedSequence == 0 || intent.sourceIntentId.isNone ||
      intent.beforeManifestSha256 == intent.afterManifestSha256 ||
      checkedAdd intent.beforeEpoch 1 != some intent.afterEpoch ||
      intent.previous.any (fun p => p.afterEpoch == 0 || decide (intent.beforeEpoch < p.afterEpoch) ||
        p.intentId.isNone) ||
      (proof.formatVersion != 1 && proof.formatVersion != 2) || proof.owner != some owner ||
      proof.schemaSha256.isNone || proof.identityContentSha256.isNone ||
      intent.intentId != some (maintenanceHash sha intent)) fail
where
  fail : Status := .dataLoss
    "invalid maintenance identity, preservation proof or manifest transition"

/-! ## The committed tip -/

variable (table : Table MaintenanceDecisionKey (MaintenanceIntent D))

/-- `maintenance_record`: the decision a cursor refers to. -/
def maintenanceRecord (state : ProjectionJournalState D) (reference : MaintenanceCursor D)
    (collection : String) : Except Status (MaintenanceIntent D) := do
  let intent ← okOr (table.lookup ⟨state.indexKey, reference.afterEpoch⟩)
    (dataLoss "maintenance committed decision missing")
  validateMaintenance sha intent state.indexKey state.historyId collection
  refuseIf (cursor intent != reference)
    (.dataLoss "maintenance cursor differs from its canonical immutable decision")
  return intent

/-- The manifest and epoch a maintenance decision has to start from: those its predecessor left, or
those of its source decision when that came after it. -/
def maintenanceBefore (latest : MaintenanceIntent D) (anchor : ProjectionIntent D)
    (previous : Option (MaintenanceIntent D)) : Except Status (D × ℕ) :=
  match previous with
  | none => .ok (anchor.afterManifestSha256, anchor.afterEpoch)
  | some p =>
    if p.acceptedSequence = latest.acceptedSequence then .ok (p.afterManifestSha256, p.afterEpoch)
    else do
      refuseIf (decide (anchor.beforeEpoch < p.afterEpoch))
        (.dataLoss "source anchor precedes previous maintenance")
      return (anchor.afterManifestSha256, anchor.afterEpoch)

/-- The decision before a maintenance decision, if it names one. -/
def previousRecord (state : ProjectionJournalState D) (latest : MaintenanceIntent D)
    (collection : String) : Except Status (Option (MaintenanceIntent D)) :=
  match latest.previous with
  | none => .ok none
  | some p => (maintenanceRecord sha table state p collection).map some

variable (source : ProjectionIntent D)

/-- The latest maintenance decision, compared with its source decision and its predecessor. -/
def latestMaintenance (reference : MaintenanceCursor D) (collection : String) :
    Except Status (MaintenanceIntent D) := do
  let table ← okOr maintenance (dataLoss "maintenance cursor has no decision table")
  let latest ← maintenanceRecord sha table state reference collection
  let anchor ← okOr (decisions.lookup ⟨state.indexKey, latest.acceptedSequence⟩)
    (dataLoss "maintenance source anchor is missing")
  validateIntent sha anchor state.indexKey state.historyId
  refuseIf (anchor.sequence != some latest.acceptedSequence ||
      latest.sourceIntentId != anchor.intentId ||
      decide (state.committedSequence < latest.acceptedSequence))
    (.dataLoss "maintenance differs from its accepted source anchor")
  let previous ← previousRecord sha table state latest collection
  refuseIf (previous.any fun p => decide (latest.acceptedSequence < p.acceptedSequence))
    (.dataLoss "maintenance source order regressed")
  let before ← maintenanceBefore latest anchor previous
  refuseIf (latest.beforeManifestSha256 != before.1 || latest.beforeEpoch != before.2)
    (.dataLoss "maintenance does not compose with its preceding physical decision")
  refuseIf (decide (latest.acceptedSequence < state.committedSequence) &&
      decide (source.beforeEpoch < latest.afterEpoch))
    (.dataLoss "current source decision precedes maintenance")
  return latest

/-- The latest maintenance decision of a state, if it has one. -/
def tipMaintenance (collection : String) : Except Status (Option (MaintenanceIntent D)) :=
  match state.maintenanceTip with
  | none => .ok none
  | some reference =>
    (latestMaintenance sha decisions maintenance state source reference collection).map some

/-- The manifest and epoch the committed decisions end at. -/
def expectedTip (latest : Option (MaintenanceIntent D)) : D × ℕ :=
  match latest with
  | some latest =>
    if latest.acceptedSequence = state.committedSequence then
      (latest.afterManifestSha256, latest.afterEpoch)
    else (source.afterManifestSha256, source.afterEpoch)
  | none => (source.afterManifestSha256, source.afterEpoch)

def validatePendingMaintenance (expectedEpoch : ℕ) (collection : String) : Except Status Unit :=
  match state.pendingMaintenance with
  | none => .ok ()
  | some pending => do
    refuseIf maintenance.isNone (.dataLoss "pending maintenance has no decision table")
    validateMaintenance sha pending state.indexKey state.historyId collection
    refuseIf (pending.acceptedSequence != state.committedSequence ||
        pending.sourceIntentId != source.intentId ||
        pending.beforeManifestSha256 != state.committedManifestSha256 ||
        pending.beforeEpoch != expectedEpoch || pending.previous != state.maintenanceTip)
      (.dataLoss "pending maintenance differs from the committed source and physical tips")

/-- What `validate_tip` checks of an index with committed decisions. -/
def validateCommitted (collection : String) : Except Status Unit := do
  validateIntent sha source state.indexKey state.historyId
  refuseIf (source.sequence != some state.committedSequence)
    (.dataLoss "projection cursor differs from its committed decision")
  let latest ← tipMaintenance sha decisions maintenance state source collection
  refuseIf (state.committedManifestSha256 != (expectedTip state source latest).1)
    (.dataLoss "projection cursor differs from its committed physical decision")
  refuseIf (state.pending.any fun p => p.beforeEpoch != (expectedTip state source latest).2)
    (.dataLoss "pending source does not follow the committed catalog epoch")
  validatePendingMaintenance sha maintenance state source (expectedTip state source latest).2
    collection

/-- `validate_tip`. -/
def validateTip (collection : String) : Except Status (Option (ProjectionIntent D)) :=
  if state.committedSequence = 0 then do
    refuseIf ((decisions.lookup ⟨state.indexKey, 1⟩).isSome || state.maintenanceTip.isSome ||
        state.pendingMaintenance.isSome)
      (.dataLoss "projection journal lost its committed cursor")
    return none
  else do
    let source ← okOr (decisions.lookup ⟨state.indexKey, state.committedSequence⟩)
      (dataLoss "projection committed decision missing")
    validateCommitted sha decisions maintenance state source collection
    return some source

/-! ## Transactions -/

/-- The tables of the journal, where a missing one is made. -/
def Database.stateTable : Table Bytes (ProjectionJournalState D) :=
  db.states.getD ∅

def Database.decisionTable : Table ProjectionDecisionKey (ProjectionIntent D) :=
  db.decisions.getD ∅

/-- `source_transaction`: the header a transaction on the source starts from. -/
def sourceTransaction (recovery : Bool) : Except Status DocumentCatalogHeader := do
  let header ← headerFrom catalog db.header
  requireAdmission header recovery
  return header

/-- `validate_projection_journal`. -/
def validateProjectionJournal : Except Status Bool := do
  validateCurrentHeader db.header
  journalHeader db db.header.historyId

/-- `DocumentCatalog::index_owner`. -/
def indexOwner : Except Status SourceIndexOwner := do
  indexKey key
  refuseIf (!catalog.durable) (.failedPrecondition
    "source-managed publication requires a durable source catalog")
  validateCurrentHeader db.header
  return ⟨1, db.header.historyId, key, db.header.collection⟩

/-- The owner a published manifest names is the owner of the index. -/
def checkOwner (before after : OpenedSegmentSet S) : Except Status Unit := do
  refuseIf (before.manifest.sourceOwner.isSome &&
      before.manifest.sourceOwner != after.manifest.sourceOwner)
    (.failedPrecondition "source publication cannot change or remove the index owner")
  match after.manifest.sourceOwner with
  | none => .ok ()
  | some owner => do
    let held ← indexOwner catalog db key
    refuseIf (owner != held)
      (.failedPrecondition "source publication belongs to another index owner")

/-- The intent of a staged document, with the accepted version it was read as. -/
def newIntent (info : CandidateInfo) (source : DocumentVersion D)
    (before after : OpenedSegmentSet S) : ProjectionIntent D :=
  let intent : ProjectionIntent D :=
    { indexKey := key
      historyId := info.historyId
      source := some source
      beforeManifestSha256 := sha.manifest before.manifest
      afterManifestSha256 := sha.manifest after.manifest
      beforeEpoch := before.epoch
      afterEpoch := after.epoch
      rows := info.rows
      intentId := none }
  { intent with intentId := some (intentHash sha intent) }

/-- The first part of `prepare_index_publication`: everything before it takes the writer. It reads
the accepted version the intent is of. -/
def stageIntent (candidate : StagedDocumentCandidate S)
    (before after : OpenedSegmentSet S) : Except Status (ProjectionIntent D) := do
  indexKey key
  refuseIf (!catalog.durable) (.failedPrecondition
    "projection publication requires a durable source catalog")
  validateTransition artifacts candidate before after
  checkOwner catalog db key before after
  let info := candidate.info
  let found ← getFrom sha db info.documentKey (some info.version)
  let (source, bytes) ← okOr found (notFound "projection accepted version missing")
  refuseIf (source.acceptedSequence != info.acceptedSequence || source.deleted != info.deleted ||
      bytes != candidate.source)
    (.failedPrecondition "staged source differs from accepted history")
  refuseIf (db.changes.lookup source.acceptedSequence != some source.key)
    (.dataLoss "projection version differs from ordered accepted history")
  let intent := newIntent sha key info source before after
  validateIntent sha intent key info.historyId
  return intent

/-- The state of an index, made for an empty index that has none. -/
def openState (info : CandidateInfo) (before : OpenedSegmentSet S)
    (intent : ProjectionIntent D) : Except Status (ProjectionJournalState D) :=
  match db.stateTable.lookup key with
  | some state => .ok state
  | none =>
    if before.isEmpty then .ok
      { indexKey := key
        historyId := info.historyId
        committedSequence := 0
        committedManifestSha256 := intent.beforeManifestSha256
        pending := none
        pendingMaintenance := none
        maintenanceTip := none }
    else .error (.failedPrecondition "cannot adopt populated segments as source-certified history")

def Database.setState (history : Bytes) : Database D :=
  { db with
    journal := some (db.journal.getD ⟨1, history⟩)
    states := some (db.stateTable.insert key state)
    decisions := some db.decisionTable }

/-- What `prepare_index_publication` answers when nothing has to be written, or what it writes. -/
def decideIntent (info : CandidateInfo) (intent : ProjectionIntent D) :
    Except Status (Database D) :=
  match state.pending with
  | some pending =>
    if pending = intent then .ok db
    else .error (.failedPrecondition
      "resolve the existing projection intent before another publication")
  | none =>
    match db.decisionTable.lookup ⟨key, info.acceptedSequence⟩ with
    | some committed => do
      validateIntent sha committed key info.historyId
      refuseIf (committed != intent) (.failedPrecondition
        "accepted sequence already has a different projection decision")
      return db
    | none => do
      refuseIf (checkedAdd state.committedSequence 1 != some info.acceptedSequence ||
          state.committedManifestSha256 != intent.beforeManifestSha256)
        (.failedPrecondition
          "projection must follow the committed manifest and next accepted sequence")
      return db.setState { state with pending := some intent } key info.historyId

/-- The second part of `prepare_index_publication`: its writing transaction. -/
def prepareIntent (info : CandidateInfo) (before : OpenedSegmentSet S)
    (intent : ProjectionIntent D) : Except Status (Database D) := do
  let header ← sourceTransaction catalog db false
  refuseIf (header.historyId != info.historyId)
    (.failedPrecondition "projection belongs to another catalog history")
  let _ ← journalHeader db header.historyId
  let state ← openState db key info before intent
  validateState sha state key info.historyId
  let _ ← validateTip sha db.decisionTable db.maintenance state header.collection
  refuseIf state.pendingMaintenance.isSome
    (.failedPrecondition "resolve pending maintenance before source publication")
  decideIntent sha db state key info intent

inductive Recovery (I : Type) where
  | committed (intent : I)
  | aborted (intent : I)
  | idle
  deriving DecidableEq

/-- The decision of a pending intent by the manifest that is durable. -/
def resolvePublication (state : ProjectionJournalState D)
    (hash : D) : Except Status (Recovery (ProjectionIntent D) × Database D) :=
  match state.pending with
  | none => do
    refuseIf (hash != state.committedManifestSha256) (.failedPrecondition
      "durable catalog differs from the committed projection manifest")
    return (.idle, db)
  | some intent =>
    if hash = intent.afterManifestSha256 then do
      let sequence := intent.sequence.getD 0
      refuseIf (db.decisionTable.lookup ⟨key, sequence⟩).isSome
        (.dataLoss "pending projection already has a committed decision")
      return (.committed intent, { db with
        decisions := some (db.decisionTable.insert ⟨key, sequence⟩ intent)
        states := some (db.stateTable.insert key { state with
          committedSequence := sequence
          committedManifestSha256 := hash
          pending := none }) })
    else do
      refuseIf (hash != intent.beforeManifestSha256) (.failedPrecondition
        "durable catalog matches neither projection manifest; retain intent and reconcile")
      return (.aborted intent, { db with
        decisions := some db.decisionTable
        states := some (db.stateTable.insert key { state with pending := none }) })

/-- `recover_index_publication`, with the manifest of the index that is durable. -/
def recoverIndexPublication (durable : SegmentSetManifest S) :
    Except Status (Recovery (ProjectionIntent D) × Database D) := do
  indexKey key
  let journal ← validateProjectionJournal db
  refuseIf (!journal) (.notFound "projection journal is absent")
  let header ← sourceTransaction catalog db true
  let state ← okOr (db.stateTable.lookup key)
    (notFound "projection index is not registered")
  validateState sha state key header.historyId
  let _ ← validateTip sha db.decisionTable db.maintenance state header.collection
  refuseIf state.pendingMaintenance.isSome
    (.failedPrecondition "resolve pending maintenance before source recovery")
  resolvePublication db key state (sha.manifest durable)

/-! ## Maintenance -/

/-- The states of all indexes are resolved: the loop of `enable_index_maintenance`. -/
def checkResolved (header : DocumentCatalogHeader) : Except Status Unit :=
  db.stateTable.rows.forM fun row => do
    validateState sha row.2 row.1 header.historyId
    let _ ← validateTip sha db.decisionTable db.maintenance row.2 header.collection
    refuseIf (row.2.pending.isSome || row.2.pendingMaintenance.isSome)
      (.failedPrecondition "resolve pending source publications before journal migration")

/-- `enable_index_maintenance`. -/
def enableIndexMaintenance : Except Status (Database D) := do
  refuseIf (!catalog.durable) (.failedPrecondition
    "maintenance requires a durable source catalog")
  let header ← sourceTransaction catalog db false
  let journal ← journalHeader db header.historyId
  refuseIf (!journal) (.failedPrecondition
    "publish source history before enabling maintenance")
  if db.journal.any (·.formatVersion == 2) then return db
  checkResolved sha db header
  return { db with
    maintenance := some (db.maintenance.getD ∅)
    journal := some ⟨2, header.historyId⟩ }

/-- A rewrite whose rows have been compared. -/
structure VerifiedMaintenance (D S : Type) where
  owner : SourceIndexOwner
  before : OpenedSegmentSet S
  after : OpenedSegmentSet S
  preservation : SourceRewriteCertificate D
  deriving DecidableEq

/-- `verify_index_maintenance`, with `prepare_index_maintenance`'s first look at the journal. -/
def verifyIndexMaintenance (before after : OpenedSegmentSet S) (batchRows : ℕ) :
    Except Status (VerifiedMaintenance D S) := do
  refuseIf (!db.journal.any (·.formatVersion == 2))
    (.failedPrecondition "enable the maintenance journal first")
  refuseIf (decide (batchRows < 1 ∨ 1048576 < batchRows))
    (.invalidArgument "maintenance proof batch_rows must be 1..=1048576")
  indexKey key
  let owner ← indexOwner catalog db key
  refuseIf (before.root != after.root || checkedAdd before.epoch 1 != some after.epoch ||
      before.manifest.partitionKey != after.manifest.partitionKey ||
      before.manifest.sourceOwner != some owner || after.generationDeclaration.isNone)
    (.failedPrecondition "maintenance requires the owning catalog's next declared generation")
  artifacts.summaries after
  let preservation ← (artifacts.sourceRewrite before after).mapError .failedPrecondition
  return ⟨owner, before, after, preservation⟩

/-- The intent of a rewrite. -/
def newMaintenance (verified : VerifiedMaintenance D S) : MaintenanceIntent D :=
  let intent : MaintenanceIntent D :=
    { formatVersion := 1
      owner := some verified.owner
      acceptedSequence := state.committedSequence
      sourceIntentId := source.intentId
      beforeManifestSha256 := sha.manifest verified.before.manifest
      afterManifestSha256 := sha.manifest verified.after.manifest
      beforeEpoch := verified.before.epoch
      afterEpoch := verified.after.epoch
      previous := state.maintenanceTip
      preservation := some verified.preservation
      intentId := none }
  { intent with intentId := some (maintenanceHash sha intent) }

/-- What `prepare_verified_index_maintenance` answers, and what it writes. -/
def decideMaintenance
    (prepared : MaintenanceIntent D) (owner : SourceIndexOwner) : Except Status (Database D) :=
  match state.pendingMaintenance with
  | some pending =>
    if pending = prepared then .ok db
    else .error (.failedPrecondition "resolve pending maintenance before another publication")
  | none => do
    refuseIf (state.committedManifestSha256 != prepared.beforeManifestSha256)
      (.failedPrecondition "maintenance must follow the committed physical manifest")
    let table := db.maintenance.getD ∅
    refuseIf (table.lookup ⟨owner.indexKey, prepared.afterEpoch⟩).isSome
      (.dataLoss "maintenance epoch already has an immutable decision")
    let state := { state with pendingMaintenance := some prepared }
    let _ ← validateTip sha db.decisionTable (some table) state owner.collection
    return { db with
      states := some (db.stateTable.insert owner.indexKey state)
      decisions := some db.decisionTable
      maintenance := some table }

/-- `prepare_verified_index_maintenance`. -/
def prepareVerifiedIndexMaintenance (verified : VerifiedMaintenance D S) :
    Except Status (MaintenanceIntent D × Database D) := do
  let owner := verified.owner
  let held ← indexOwner catalog db owner.indexKey
  refuseIf (held != owner)
    (.failedPrecondition "verified maintenance belongs to another source owner")
  let _ ← sourceTransaction catalog db false
  let journal ← okOr db.journal
    (failedPrecondition "enable the maintenance journal first")
  let _ ← journalHeader db owner.historyId
  refuseIf (journal.formatVersion != 2)
    (.failedPrecondition "enable the maintenance journal first")
  let state ← okOr (db.stateTable.lookup owner.indexKey)
    (failedPrecondition "maintenance index has no source decisions")
  validateState sha state owner.indexKey owner.historyId
  let tip ← validateTip sha db.decisionTable (some (db.maintenance.getD ∅)) state owner.collection
  let source ← okOr tip
    (failedPrecondition "maintenance requires a committed source decision")
  refuseIf state.pending.isSome
    (.failedPrecondition "resolve pending source publication before maintenance")
  let prepared := newMaintenance sha state source verified
  validateMaintenance sha prepared owner.indexKey owner.historyId owner.collection
  let db' ← decideMaintenance sha db state prepared owner
  return (prepared, db')

/-- The decision of a pending rewrite by the manifest that is durable. -/
def resolveMaintenance (state : ProjectionJournalState D)
    (hash : D) : Except Status (Recovery (MaintenanceIntent D) × Database D) :=
  match state.pendingMaintenance with
  | none => do
    refuseIf (hash != state.committedManifestSha256) (.failedPrecondition
      "durable catalog differs from committed maintenance/source history")
    return (.idle, db)
  | some intent =>
    if hash = intent.afterManifestSha256 then do
      let table ← okOr db.maintenance (dataLoss "maintenance decision table missing")
      refuseIf (table.lookup ⟨key, intent.afterEpoch⟩).isSome
        (.dataLoss "pending maintenance already has a committed decision")
      return (.committed intent, { db with
        maintenance := some (table.insert ⟨key, intent.afterEpoch⟩ intent)
        states := some (db.stateTable.insert key { state with
          maintenanceTip := some (cursor intent)
          committedManifestSha256 := hash
          pendingMaintenance := none }) })
    else do
      refuseIf (hash != intent.beforeManifestSha256) (.failedPrecondition
        "durable catalog matches neither maintenance manifest; retain intent and reconcile")
      return (.aborted intent, { db with
        states := some (db.stateTable.insert key { state with pendingMaintenance := none }) })

/-- `recover_index_maintenance`, with the manifest of the index that is durable. -/
def recoverIndexMaintenance (durable : SegmentSetManifest S) :
    Except Status (Recovery (MaintenanceIntent D) × Database D) := do
  indexKey key
  let journal ← validateProjectionJournal db
  refuseIf (!journal) (.notFound "projection journal is absent")
  let header ← sourceTransaction catalog db true
  let state ← okOr (db.stateTable.lookup key)
    (notFound "maintenance index is not registered")
  validateState sha state key header.historyId
  let _ ← validateTip sha db.decisionTable db.maintenance state header.collection
  refuseIf state.pending.isSome
    (.failedPrecondition "resolve pending source publication before maintenance recovery")
  resolveMaintenance db key state (sha.manifest durable)

end

/-! ## What the transactions do -/

section

variable [DecidableEq D] {catalog : DocumentCatalog} {sha : Sha256 D S} {db db' : Database D}
  {key history : Bytes} {info : CandidateInfo} {before : OpenedSegmentSet S}
  {intent : ProjectionIntent D} {durable : SegmentSetManifest S}

omit [DecidableEq D] in
lemma journalHeader_ok {exist : Bool} : journalHeader db history = .ok exist ↔
    (exist = false ∧ db.journal = none ∧ db.states = none ∧ db.decisions = none ∧
    db.maintenance = none) ∨ (exist = true ∧ ∃ header, db.journal = some header ∧
    (header.formatVersion = 1 ∨ header.formatVersion = 2) ∧
    ((header.formatVersion == 2) = db.maintenance.isSome) ∧ header.historyId = history ∧
    db.states.isSome = true ∧ db.decisions.isSome = true) := by
  unfold journalHeader
  cases db.journal with
  | none =>
    cases hs : db.states <;> cases hd : db.decisions <;> cases hm : db.maintenance <;>
      cases exist <;> simp [refuseIf, pure, Except.pure]
  | some header =>
    rw [check_bind_ok, refuseIf_ok, pure_ok]
    simp only [Bool.or_eq_false_iff, Bool.and_eq_false_iff, bne_eq_false_iff_eq, Bool.not_eq_false',
      and_assoc]
    constructor
    · rintro ⟨hfmt, hmaint, hhist, hstates, hdecs, rfl⟩
      exact .inr ⟨rfl, header, rfl, hfmt, hmaint, hhist, hstates, hdecs⟩
    · rintro (⟨-, hnone, -⟩ | ⟨rfl, _, hheld, hfmt, hmaint, hhist, hstates, hdecs⟩)
      · cases hnone
      · obtain rfl := Option.some.inj hheld
        exact ⟨hfmt, hmaint, hhist, hstates, hdecs, rfl⟩

omit [DecidableEq D] in
lemma sourceTransaction_ok {recovery : Bool} {header : DocumentCatalogHeader}
    (h : sourceTransaction catalog db recovery = .ok header) :
    header = db.header ∧ headerFrom catalog db.header = .ok db.header ∧
      requireAdmission db.header recovery = .ok () := by
  obtain ⟨_, hheld, ⟨⟩, hadm, h⟩ := bind₂_ok.1 h
  obtain rfl := pure_ok.1 h
  obtain rfl := (headerFrom_ok.1 hheld).1
  exact ⟨rfl, hheld, hadm⟩

/-- What the writing transaction of a preparation goes through. -/
lemma prepareIntent_ok (h : prepareIntent catalog sha db key info before intent = .ok db') :
    db.header.historyId = info.historyId ∧
      (∃ exist, journalHeader db db.header.historyId = .ok exist) ∧
      ∃ state, openState db key info before intent = .ok state ∧ state.pendingMaintenance = none ∧
        ((state.pending = some intent ∧ db' = db) ∨
          (state.pending = none ∧ db.decisionTable.lookup ⟨key, info.acceptedSequence⟩ = some intent ∧
            db' = db) ∨
          (state.pending = none ∧ checkedAdd state.committedSequence 1 = some info.acceptedSequence ∧
            state.committedManifestSha256 = intent.beforeManifestSha256 ∧
            db' = db.setState { state with pending := some intent } key info.historyId)) := by
  obtain ⟨header, hhdr, h⟩ := bind_ok.1 h
  obtain rfl := (sourceTransaction_ok hhdr).1
  obtain ⟨⟨⟩, hhist, exist, hjour, state, hst, h⟩ := bind₃_ok.1 h
  obtain ⟨_, -, _, -, ⟨⟩, hnone, h⟩ := bind₃_ok.1 h
  refine ⟨by simpa using refuseIf_ok.1 hhist, ⟨exist, hjour⟩, state, hst,
    by simpa using refuseIf_ok.1 hnone, ?_⟩
  unfold decideIntent at h
  cases hpend : state.pending with
  | some pending =>
    simp only [hpend] at h
    split at h
    · rename_i heq
      exact .inl ⟨by rw [heq], (Except.ok.inj h).symm⟩
    · cases h
  | none =>
    simp only [hpend] at h
    cases hlook : db.decisionTable.lookup ⟨key, info.acceptedSequence⟩ with
    | some committed =>
      simp only [hlook] at h
      obtain ⟨_, -, ⟨⟩, hsame, h⟩ := bind₂_ok.1 h
      have hsame : committed = intent := by simpa using refuseIf_ok.1 hsame
      exact .inr (.inl ⟨rfl, by rw [hsame], (pure_ok.1 h).symm⟩)
    | none =>
      simp only [hlook] at h
      obtain ⟨⟨⟩, hfol, h⟩ := bind_ok.1 h
      have hfol := refuseIf_ok.1 hfol
      simp only [Bool.or_eq_false_iff, bne_eq_false_iff_eq] at hfol
      exact .inr (.inr ⟨rfl, hfol.1, hfol.2, (pure_ok.1 h).symm⟩)

lemma stageIntent_ok {artifacts : Artifacts D S} {candidate : StagedDocumentCandidate S}
    {after : OpenedSegmentSet S}
    (h : stageIntent artifacts catalog sha db key candidate before after = .ok intent) :
    indexKey key = .ok () ∧ ∃ source, intent = newIntent sha key candidate.info source before after ∧
      db.versions.lookup ⟨candidate.info.documentKey, candidate.info.version⟩ = some source ∧
      source.key = ⟨candidate.info.documentKey, candidate.info.version⟩ ∧
      source.acceptedSequence = candidate.info.acceptedSequence ∧
      db.changes.lookup source.acceptedSequence = some source.key ∧
      validateIntent sha intent key candidate.info.historyId = .ok () := by
  obtain ⟨⟨⟩, hkey, _, -, _, -, h⟩ := bind₃_ok.1 h
  obtain ⟨_, -, found, hget, ⟨source, bytes⟩, hfound, h⟩ := bind₃_ok.1 h
  rw [okOr_ok.1 hfound] at hget
  obtain ⟨⟨⟩, hstaged, ⟨⟩, hchange, ⟨⟩, hvalid, h⟩ := bind₃_ok.1 h
  obtain rfl := pure_ok.1 h
  obtain ⟨hlook, hsrc⟩ := getFrom_eq_some hget
  have hstaged := refuseIf_ok.1 hstaged
  simp only [Bool.or_eq_false_iff, bne_eq_false_iff_eq] at hstaged
  exact ⟨hkey, source, rfl, hlook, hsrc, hstaged.1.1, by simpa using refuseIf_ok.1 hchange,
    hvalid⟩

lemma recoverIndexPublication_ok {result : Recovery (ProjectionIntent D) × Database D}
    (h : recoverIndexPublication catalog sha db key durable = .ok result) :
    ∃ state, db.stateTable.lookup key = some state ∧ state.pendingMaintenance = none ∧
      resolvePublication db key state (sha.manifest durable) = .ok result := by
  obtain ⟨_, -, _, -, _, -, h⟩ := bind₃_ok.1 h
  obtain ⟨_, -, state, hst, _, -, h⟩ := bind₃_ok.1 h
  obtain ⟨_, -, ⟨⟩, hnone, h⟩ := bind₂_ok.1 h
  exact ⟨state, okOr_ok.1 hst, by simpa using refuseIf_ok.1 hnone, h⟩

lemma recoverIndexMaintenance_ok {result : Recovery (MaintenanceIntent D) × Database D}
    (h : recoverIndexMaintenance catalog sha db key durable = .ok result) :
    ∃ state, db.stateTable.lookup key = some state ∧ state.pending = none ∧
      resolveMaintenance db key state (sha.manifest durable) = .ok result := by
  obtain ⟨_, -, _, -, _, -, h⟩ := bind₃_ok.1 h
  obtain ⟨_, -, state, hst, _, -, h⟩ := bind₃_ok.1 h
  obtain ⟨_, -, ⟨⟩, hnone, h⟩ := bind₂_ok.1 h
  exact ⟨state, okOr_ok.1 hst, by simpa using refuseIf_ok.1 hnone, h⟩

section

variable {state : ProjectionJournalState D} {hash : D}

lemma resolvePublication_ok {recovery : Recovery (ProjectionIntent D)}
    (h : resolvePublication db key state hash = .ok (recovery, db')) :
    db' = db ∨ ∃ i, state.pending = some i ∧
      ((db.decisionTable.lookup ⟨key, i.sequence.getD 0⟩ = none ∧
          db' = { db with
            decisions := some (db.decisionTable.insert ⟨key, i.sequence.getD 0⟩ i)
            states := some (db.stateTable.insert key { state with
              committedSequence := i.sequence.getD 0
              committedManifestSha256 := hash
              pending := none }) }) ∨
        db' = { db with
          decisions := some db.decisionTable
          states := some (db.stateTable.insert key { state with pending := none }) }) := by
  unfold resolvePublication at h
  cases hpend : state.pending with
  | none =>
    simp only [hpend] at h
    obtain ⟨_, h⟩ := rest_ok h
    exact .inl (congrArg Prod.snd (pure_ok.1 h)).symm
  | some i =>
    simp only [hpend] at h
    refine .inr ⟨i, rfl, ?_⟩
    split at h
    · obtain ⟨⟨⟩, hfree, h⟩ := bind_ok.1 h
      exact .inl ⟨by simpa using refuseIf_ok.1 hfree, (congrArg Prod.snd (pure_ok.1 h)).symm⟩
    · obtain ⟨_, h⟩ := rest_ok h
      exact .inr (congrArg Prod.snd (pure_ok.1 h)).symm

lemma resolveMaintenance_ok {recovery : Recovery (MaintenanceIntent D)}
    (h : resolveMaintenance db key state hash = .ok (recovery, db')) :
    db' = db ∨ ∃ m, state.pendingMaintenance = some m ∧
      ((∃ table, db.maintenance = some table ∧ table.lookup ⟨key, m.afterEpoch⟩ = none ∧
          db' = { db with
            maintenance := some (table.insert ⟨key, m.afterEpoch⟩ m)
            states := some (db.stateTable.insert key { state with
              maintenanceTip := some (cursor m)
              committedManifestSha256 := hash
              pendingMaintenance := none }) }) ∨
        db' = { db with
          states := some (db.stateTable.insert key { state with pendingMaintenance := none }) }) := by
  unfold resolveMaintenance at h
  cases hpend : state.pendingMaintenance with
  | none =>
    simp only [hpend] at h
    obtain ⟨_, h⟩ := rest_ok h
    exact .inl (congrArg Prod.snd (pure_ok.1 h)).symm
  | some m =>
    simp only [hpend] at h
    refine .inr ⟨m, rfl, ?_⟩
    split at h
    · obtain ⟨table, htab, ⟨⟩, hfree, h⟩ := bind₂_ok.1 h
      exact .inl ⟨table, okOr_ok.1 htab, by simpa using refuseIf_ok.1 hfree,
        (congrArg Prod.snd (pure_ok.1 h)).symm⟩
    · obtain ⟨_, h⟩ := rest_ok h
      exact .inr (congrArg Prod.snd (pure_ok.1 h)).symm

end

lemma prepareVerifiedIndexMaintenance_ok {verified : VerifiedMaintenance D S}
    {prepared : MaintenanceIntent D}
    (h : prepareVerifiedIndexMaintenance catalog sha db verified = .ok (prepared, db')) :
    verified.owner = ⟨1, db.header.historyId, verified.owner.indexKey, db.header.collection⟩ ∧
      db.maintenance.isSome = true ∧
      ∃ state source, db.stateTable.lookup verified.owner.indexKey = some state ∧
        validateTip sha db.decisionTable db.maintenance state db.header.collection =
          .ok (some source) ∧
        state.pending = none ∧ prepared = newMaintenance sha state source verified ∧
        validateMaintenance sha prepared verified.owner.indexKey db.header.historyId
          db.header.collection = .ok () ∧
        ((state.pendingMaintenance = some prepared ∧ db' = db) ∨
          (state.pendingMaintenance = none ∧
            state.committedManifestSha256 = prepared.beforeManifestSha256 ∧
            db' = { db with
              states := some (db.stateTable.insert verified.owner.indexKey
                { state with pendingMaintenance := some prepared })
              decisions := some db.decisionTable })) := by
  obtain ⟨held, hheld, ⟨⟩, howner, h⟩ := bind₂_ok.1 h
  have heq : held = verified.owner := by simpa using refuseIf_ok.1 howner
  have howner : verified.owner =
      ⟨1, db.header.historyId, verified.owner.indexKey, db.header.collection⟩ := by
    obtain ⟨_, -, _, -, _, -, hheld⟩ := bind₃_ok.1 hheld
    exact heq.symm.trans (pure_ok.1 hheld).symm
  have hhist : verified.owner.historyId = db.header.historyId := congrArg (·.historyId) howner
  have hcoll : verified.owner.collection = db.header.collection := congrArg (·.collection) howner
  obtain ⟨_, -, journal, hjour, h⟩ := bind₂_ok.1 h
  obtain ⟨exist, hexist, ⟨⟩, hfmt, h⟩ := bind₂_ok.1 h
  have hsome : db.maintenance.isSome = true := by
    have hfmt : journal.formatVersion = 2 := by simpa using refuseIf_ok.1 hfmt
    rcases journalHeader_ok.1 hexist with ⟨-, hnone, -⟩ | ⟨-, header, hhdr, -, hmaint, -⟩
    · rw [okOr_ok.1 hjour] at hnone
      cases hnone
    · obtain rfl := Option.some.inj ((okOr_ok.1 hjour).symm.trans hhdr)
      rw [← hmaint, hfmt]
      rfl
  obtain ⟨table, htab⟩ := Option.isSome_iff_exists.1 hsome
  obtain ⟨state, hst, _, -, tip, htip, h⟩ := bind₃_ok.1 h
  obtain ⟨source, hsrc, ⟨⟩, hnone, h⟩ := bind₂_ok.1 h
  obtain ⟨⟨⟩, hvalid, held, hdec, h⟩ := bind₂_ok.1 h
  obtain ⟨rfl, rfl⟩ := Prod.mk.inj (pure_ok.1 h)
  rw [okOr_ok.1 hsrc, hcoll] at htip
  rw [hhist, hcoll] at hvalid
  refine ⟨howner, hsome, state, source, okOr_ok.1 hst, htab ▸ htip,
    by simpa using refuseIf_ok.1 hnone, rfl, hvalid, ?_⟩
  unfold decideMaintenance at hdec
  cases hpend : state.pendingMaintenance with
  | some pending =>
    simp only [hpend] at hdec
    split at hdec
    · rename_i heq
      exact .inl ⟨by rw [heq], (Except.ok.inj hdec).symm⟩
    · cases hdec
  | none =>
    simp only [hpend] at hdec
    obtain ⟨⟨⟩, hcom, _, -, _, -, hdec⟩ := bind₃_ok.1 hdec
    refine .inr ⟨rfl, by simpa using refuseIf_ok.1 hcom, ?_⟩
    rw [← pure_ok.1 hdec, htab]
    rfl

lemma enableIndexMaintenance_ok (h : enableIndexMaintenance catalog sha db = .ok db') :
    db' = db ∨ (db.maintenance = none ∧ db.states.isSome = true ∧ db.decisions.isSome = true ∧
      db' = { db with maintenance := some ∅, journal := some ⟨2, db.header.historyId⟩ }) := by
  obtain ⟨_, -, header, hhdr, h⟩ := bind₂_ok.1 h
  obtain rfl := (sourceTransaction_ok hhdr).1
  obtain ⟨exist, hjour, ⟨⟩, hexist, h⟩ := bind₂_ok.1 h
  split at h
  · exact .inl (pure_ok.1 h).symm
  · rename_i hfmt
    obtain ⟨_, h⟩ := rest_ok h
    rcases journalHeader_ok.1 hjour with ⟨rfl, -⟩ | ⟨-, _, hheld, -, hmaint, -, hstates, hdecs⟩
    · cases hexist
    · have hnone : db.maintenance = none := by
        rw [hheld] at hfmt
        rw [← Option.not_isSome_iff_eq_none, ← hmaint]
        exact hfmt
      refine .inr ⟨hnone, hstates, hdecs, ?_⟩
      rw [← pure_ok.1 h, hnone]
      rfl

end

end ProtomoltSearch.Catalog
