import ProtomoltSearch.Catalog.Header

/-!
# What a log hands to another shard

A shard's log is exported as a prefix: its records in the order of their clocks, and a last frame with
what the shard held at the end of them. A row is a vector or a document; the two legs of a shard count
their rows separately.
-/

namespace ProtomoltSearch.Replication

/-- The two legs of a shard. -/
inductive Kind where
  | vectors
  | documents
  deriving DecidableEq

structure Legs (α : Type) where
  vectors : α
  documents : α
  deriving DecidableEq

namespace Legs

variable {α : Type} (legs : Legs α) (f : α → α) {k k' : Kind}

def get : Kind → α
  | .vectors => legs.vectors
  | .documents => legs.documents

def modify : Kind → Legs α
  | .vectors => { legs with vectors := f legs.vectors }
  | .documents => { legs with documents := f legs.documents }

@[simp] lemma get_modify_self : (legs.modify f k).get k = f (legs.get k) := by
  cases k <;> rfl

lemma get_modify_of_ne (h : k ≠ k') : (legs.modify f k).get k' = legs.get k' := by
  cases k <;> cases k' <;> first | rfl | exact absurd rfl h

end Legs

/-- `AddDocumentsRequest`: the fields replication looks at, repeated ones encoded, and the rest. -/
structure AddDocumentsRequest (P : Type) where
  derivedFingerprint : Bytes
  mapIntegers : List Bytes
  mapUnsignedIntegers : List Bytes
  unsignedIntegers : List Bytes
  originalSource : Option Bytes
  sourceChunkOrdinal : Option ℕ
  identity : Option Bytes
  rest : P
  deriving DecidableEq

variable {F P M : Type}

/-- `document_contract::required_version`. -/
def requiredVersion (document : AddDocumentsRequest P) : ℕ :=
  if !document.derivedFingerprint.isEmpty then 2
  else if !document.mapIntegers.isEmpty || !document.mapUnsignedIntegers.isEmpty ||
      !document.unsignedIntegers.isEmpty || document.originalSource.isSome ||
      document.sourceChunkOrdinal.isSome || document.identity.isSome then 1
  else 0

/-- `document_contract::require_supported`. -/
def requireSupported (advertised required : ℕ) : Except String Unit :=
  refuseIf (decide (advertised < required))
    ("receiver document contract version " ++ toString advertised ++
      " cannot acknowledge required version " ++ toString required ++ "; upgrade the receiver")

/-- `require_fresh_ingest_replay`. -/
def requireFreshIngestReplay (document : AddDocumentsRequest P) : Except String Unit :=
  refuseIf (!document.derivedFingerprint.isEmpty)
    ("derived-column WAL replication requires a trusted replay RPC; AddDocuments accepts fresh " ++
      "ingest, not carried derived values")

/-- `AddVectorsRequest`: vectors one after the other, over the floats `F`. -/
structure AddVectorsRequest (F : Type) where
  vectors : List F
  dim : ℕ
  deriving DecidableEq

structure LoggedVectors (F : Type) where
  firstId : ℕ
  batch : Option (AddVectorsRequest F)
  stableRoutingKeys : List Bytes
  deriving DecidableEq

structure LoggedDocuments (P : Type) where
  firstId : ℕ
  documents : List (AddDocumentsRequest P)
  stableRoutingKeys : List Bytes
  deriving DecidableEq

/-- `wal_record::Op`, with bindings `M`. -/
inductive Op (F P M : Type) where
  | addVectors (add : LoggedVectors F)
  | addDocuments (add : LoggedDocuments P)
  | deleteDocument (docId : ℕ)
  | replacement (oldDocId newDocId : ℕ)
  | snapshot (sourceGeneration : ℕ)
  | bind (binding : M)
  | flush
  deriving DecidableEq

/-- `WalRecord`. Its clock is its place in the log, from one. -/
structure WalRecord (F P M : Type) where
  op : Option (Op F P M)
  deriving DecidableEq

inductive Row (F P : Type) where
  | vector (values : List F) (key : Bytes)
  | document (document : AddDocumentsRequest P) (key : Bytes)
  deriving DecidableEq

def Row.key : Row F P → Bytes
  | .vector _ key => key
  | .document _ key => key

/-- `chunks_exact`. -/
def chunksExact {α : Type} (dim : ℕ) (l : List α) : List (List α) :=
  (List.range (l.length / dim)).map fun k => (l.drop (k * dim)).take dim

/-- What a shard held at the end of an exported prefix. -/
structure PrefixHealth where
  numVectors : ℕ
  documentSlots : ℕ
  liveDocs : ℕ
  deletedDocs : ℕ
  scoringFingerprint : String
  slotOffset : ℕ
  deriving DecidableEq

def PrefixHealth.default : PrefixHealth := ⟨0, 0, 0, 0, "", 0⟩

/-- `ReadWalResponse`, decoded. A frame without bytes decodes to a record without an operation. -/
structure ReadWalResponse (F P M : Type) where
  generation : ℕ
  highWatermark : ℕ
  record : Option (WalRecord F P M)
  completed : Bool
  prefixHealth : PrefixHealth
  deriving DecidableEq

/-- `HealthResponse`. -/
structure HealthResponse where
  walGeneration : ℕ
  walClocked : Bool
  walHighWatermark : ℕ
  slotOffset : ℕ
  numVectors : ℕ
  documentSlots : ℕ
  liveDocs : ℕ
  deletedDocs : ℕ
  documentContractVersion : ℕ
  scoringFingerprint : String
  deriving DecidableEq

/-- A shard whose log is exported. -/
structure Source (F P M : Type) where
  generation : ℕ
  log : List (WalRecord F P M)
  health : PrefixHealth

namespace Source

variable (source : Source F P M)

/-- `NodeService::health` of the source. -/
def healthResponse : HealthResponse where
  walGeneration := source.generation
  walClocked := true
  walHighWatermark := source.log.length
  slotOffset := source.health.slotOffset
  numVectors := source.health.numVectors
  documentSlots := source.health.documentSlots
  liveDocs := source.health.liveDocs
  deletedDocs := source.health.deletedDocs
  documentContractVersion := 2
  scoringFingerprint := source.health.scoringFingerprint

def frame (record : WalRecord F P M) : ReadWalResponse F P M :=
  ⟨source.generation, source.log.length, some record, false, .default⟩

/-- The last frame. -/
def completion : ReadWalResponse F P M :=
  ⟨source.generation, source.log.length, none, true, source.health⟩

/-- `NodeService::read_wal`: the frames after a clock. What is buffered is made durable first, so that the
high watermark is the length of the log. -/
def readWal (generation afterClock : ℕ) : Except String (List (ReadWalResponse F P M)) := do
  refuseIf (generation != source.generation)
    ("WAL generation mismatch: requested " ++ toString generation ++ ", live " ++
      toString source.generation)
  refuseIf (decide (source.log.length < afterClock))
    ("after_clock " ++ toString afterClock ++ " is beyond WAL high watermark " ++
      toString source.log.length)
  return (source.log.drop afterClock).map source.frame ++ [source.completion]

end Source

end ProtomoltSearch.Replication
