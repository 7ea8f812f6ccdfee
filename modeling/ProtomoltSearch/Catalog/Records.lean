import ProtomoltSearch.Catalog.Header
import ProtomoltSearch.Foundations.Table

/-!
# The records of a document catalog

The tables of a catalog's database and the records they hold. Keys and records are held decoded; a
digest is a value of the type `D`, and a digest field that may be empty is an option. The digests
themselves are a parameter (`Sha256`); that different records have different ones is used only where
a result says so.
-/

namespace ProtomoltSearch.Catalog

structure ProtobufSource where
  descriptorSet : Bytes
  messageType : String
  payload : Bytes
  deriving DecidableEq

inductive Mutation where
  | source (source : ProtobufSource)
  | delete (flag : Bool)
  deriving DecidableEq

structure AcceptDocumentRequest where
  contractVersion : ℕ
  documentKey : Bytes
  operationId : Bytes
  expectedVersion : Option ℕ
  mutation : Option Mutation
  historyId : Bytes
  deriving DecidableEq

structure DocumentWriteReceipt where
  documentKey : Bytes
  version : ℕ
  acceptedSequence : ℕ
  accepted : Bool
  searchable : Bool
  durable : Bool
  replayed : Bool
  historyId : Bytes
  writeEpoch : ℕ
  deriving DecidableEq

inductive WriteOutcome where
  | accepted
  | unconfirmed
  | fenced
  deriving DecidableEq

structure DocumentVersionKey where
  documentKey : Bytes
  version : ℕ
  deriving DecidableEq

structure SourceRecord (D : Type) where
  descriptorSha256 : D
  messageType : String
  payload : Bytes
  deriving DecidableEq

structure DocumentVersion (D : Type) where
  documentKey : Bytes
  version : ℕ
  acceptedSequence : ℕ
  sourceSha256 : Option D
  deleted : Bool
  writeEpoch : ℕ
  outcome : WriteOutcome
  fencedAtRevision : ℕ
  deriving DecidableEq

def DocumentVersion.key {D : Type} (v : DocumentVersion D) : DocumentVersionKey :=
  ⟨v.documentKey, v.version⟩

structure DocumentOperation (D : Type) where
  requestSha256 : D
  receipt : Option DocumentWriteReceipt
  writeEpoch : ℕ
  outcome : WriteOutcome
  fencedAtRevision : ℕ
  deriving DecidableEq

/-- The key of a retry record that belongs to an actor. -/
structure ActorOperationKey where
  principal : String
  operationId : Bytes
  deriving DecidableEq

structure SourceIndexOwner where
  formatVersion : ℕ
  historyId : Bytes
  indexKey : Bytes
  collection : String
  deriving DecidableEq

structure SourceRewriteCertificate (D : Type) where
  formatVersion : ℕ
  owner : Option SourceIndexOwner
  liveRows : ℕ
  schemaSha256 : Option D
  identityContentSha256 : Option D
  deriving DecidableEq

structure ProjectionJournalHeader where
  formatVersion : ℕ
  historyId : Bytes
  deriving DecidableEq

structure ProjectionIntent (D : Type) where
  indexKey : Bytes
  historyId : Bytes
  source : Option (DocumentVersion D)
  beforeManifestSha256 : D
  afterManifestSha256 : D
  beforeEpoch : ℕ
  afterEpoch : ℕ
  rows : ℕ
  intentId : Option D
  deriving DecidableEq

structure MaintenanceCursor (D : Type) where
  afterEpoch : ℕ
  intentId : Option D
  deriving DecidableEq

structure MaintenanceIntent (D : Type) where
  formatVersion : ℕ
  owner : Option SourceIndexOwner
  acceptedSequence : ℕ
  sourceIntentId : Option D
  beforeManifestSha256 : D
  afterManifestSha256 : D
  beforeEpoch : ℕ
  afterEpoch : ℕ
  previous : Option (MaintenanceCursor D)
  preservation : Option (SourceRewriteCertificate D)
  intentId : Option D
  deriving DecidableEq

structure ProjectionJournalState (D : Type) where
  indexKey : Bytes
  historyId : Bytes
  committedSequence : ℕ
  committedManifestSha256 : D
  pending : Option (ProjectionIntent D)
  pendingMaintenance : Option (MaintenanceIntent D)
  maintenanceTip : Option (MaintenanceCursor D)
  deriving DecidableEq

structure ProjectionDecisionKey where
  indexKey : Bytes
  acceptedSequence : ℕ
  deriving DecidableEq

structure MaintenanceDecisionKey where
  indexKey : Bytes
  afterEpoch : ℕ
  deriving DecidableEq

/-- The manifest of a set of segments; `S` is what it says of one segment. -/
structure SegmentSetManifest (S : Type) where
  format : ℕ
  binding : Option Bytes
  sourceOwner : Option SourceIndexOwner
  generationDeclaration : Option Bytes
  epoch : ℕ
  segments : List S
  partitionKey : Option String
  deriving DecidableEq

/-- The digests of what the catalog addresses by content. -/
structure Sha256 (D S : Type) where
  request : AcceptDocumentRequest → D
  descriptor : Bytes → D
  source : SourceRecord D → D
  manifest : SegmentSetManifest S → D
  intent : ProjectionIntent D → D
  maintenance : MaintenanceIntent D → D

/-- The tables of a catalog. A table that may not have been made yet is an option. -/
structure Database (D : Type) where
  header : DocumentCatalogHeader
  heads : Table Bytes (DocumentVersion D)
  versions : Table DocumentVersionKey (DocumentVersion D)
  operations : Table Bytes (DocumentOperation D)
  actorOperations : Option (Table ActorOperationKey (DocumentOperation D))
  descriptors : Table D Bytes
  sources : Table D (SourceRecord D)
  changes : Table ℕ DocumentVersionKey
  journal : Option ProjectionJournalHeader
  states : Option (Table Bytes (ProjectionJournalState D))
  decisions : Option (Table ProjectionDecisionKey (ProjectionIntent D))
  maintenance : Option (Table MaintenanceDecisionKey (MaintenanceIntent D))

def Database.new {D : Type} (catalog : DocumentCatalog) (collection : String) (historyId : Bytes) :
    Database D where
  header :=
    { formatVersion := if catalog.resourceBinding.isSome then Format.accessControlled
        else Format.version
      collection
      acceptedSequence := 0
      historyId
      legacyReceiptsThroughSequence := 0
      historySeal := none
      retirementIntent := none
      resourceBinding := catalog.resourceBinding
      actorNamespace := catalog.resourceBinding.map fun _ => ⟨1, 0, 0⟩
      managedBinding := none
      managedActivation := none }
  heads := ∅
  versions := ∅
  operations := ∅
  actorOperations := catalog.resourceBinding.map fun _ => ∅
  descriptors := ∅
  sources := ∅
  changes := ∅
  journal := none
  states := none
  decisions := none
  maintenance := none

end ProtomoltSearch.Catalog
