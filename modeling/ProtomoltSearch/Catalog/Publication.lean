import ProtomoltSearch.Catalog.Chain

/-!
# Publishing to indexes

The owner of an index prepares an intent in the journal, then replaces the index's manifest, and then
has the journal resolve the intent by the manifest it finds. It may stop between any two of these, and
goes on from what is durable. Any number of indexes of one source are published to and rewritten at
once, while documents are accepted and outcomes moved.
-/

namespace ProtomoltSearch.Catalog

variable {D S : Type}

/-- A call of `prepare_index_publication` that has read the version and not yet taken the writer. -/
structure StagedCall (D S : Type) where
  key : Bytes
  info : CandidateInfo
  before : OpenedSegmentSet S
  after : OpenedSegmentSet S
  intent : ProjectionIntent D

/-- The source and its indexes. What is durable is the database and one manifest an index; the owner
of an index holds in memory what it has prepared. -/
structure Indexing (D S : Type) where
  db : Database D
  durable : Bytes → SegmentSetManifest S
  views : Bytes → List (SegmentSetManifest S)
  staged : List (StagedCall D S)
  verified : List (VerifiedMaintenance D S)
  prepared : Bytes → Option (SegmentSetManifest S × SegmentSetManifest S)

inductive IndexEvent (S : Type) where
  | accept (request : AcceptDocumentRequest) (principal : Option String)
    (fence : Except Status Unit) (writeEpoch : ℕ)
  | mark (principal : Option String) (operationId : Bytes)
  | settle (principal : Option String) (operationId : Bytes) (settled : Settled)
  | stage (key : Bytes) (candidate : StagedDocumentCandidate S) (before after : OpenedSegmentSet S)
  | prepare (call : ℕ)
  | verify (key : Bytes) (before after : OpenedSegmentSet S) (batchRows : ℕ)
  | prepareMaintenance (call : ℕ)
  | publish (key : Bytes)
  | recover (key : Bytes)
  | recoverMaintenance (key : Bytes)
  | enable
  /-- The process stops: what is not durable is lost. -/
  | crash

section

variable [DecidableEq D] [DecidableEq S] (artifacts : Artifacts D S) (catalog : DocumentCatalog) (sha : Sha256 D S)
  (s : Indexing D S)

variable (db : Database D) (key : Bytes)

/-- The writing transaction of `accept_as`, on a request it has checked. -/
def acceptChecked (request : AcceptDocumentRequest) (principal : Option String)
    (fence : Except Status Unit) (writeEpoch : ℕ) : Except Status (Written × Database D) := do
  let key ← OperationKey.new principal request.operationId
  validateRequest request
  acceptWrite catalog sha db request key fence writeEpoch

/-- What a transaction that returns leaves; one that is refused leaves nothing. -/
def Indexing.commit {α : Type} (s : Indexing D S) : Except Status (α × Database D) → Indexing D S
  | .ok (_, db) => { s with db }
  | .error _ => s

/-- The owner holds what it has prepared for an index. -/
def Indexing.hold
    (prepared : Option (SegmentSetManifest S × SegmentSetManifest S)) : Indexing D S :=
  { s with db, prepared := Function.update s.prepared key prepared }

def Indexing.stage (candidate : StagedDocumentCandidate S)
    (before after : OpenedSegmentSet S) : Indexing D S :=
  match stageIntent artifacts catalog sha s.db key candidate before after with
  | .ok intent => { s with staged := s.staged ++ [⟨key, candidate.info, before, after, intent⟩] }
  | .error _ => s

def Indexing.prepare (call : StagedCall D S) : Indexing D S :=
  match prepareIntent catalog sha s.db call.key call.info call.before call.intent with
  | .ok db => s.hold db call.key (some (call.before.manifest, call.after.manifest))
  | .error _ => s

def Indexing.verify (before after : OpenedSegmentSet S) (batchRows : ℕ) : Indexing D S :=
  match verifyIndexMaintenance artifacts catalog s.db key before after batchRows with
  | .ok verified => { s with verified := s.verified ++ [verified] }
  | .error _ => s

def Indexing.prepareMaintenance (verified : VerifiedMaintenance D S) : Indexing D S :=
  match prepareVerifiedIndexMaintenance catalog sha s.db verified with
  | .ok (_, db) =>
    s.hold db verified.owner.indexKey (some (verified.before.manifest, verified.after.manifest))
  | .error _ => s

/-- A manifest is durable in the place of the one before it. -/
def Indexing.replace (after : SegmentSetManifest S) : Indexing D S :=
  { s with
    durable := Function.update s.durable key after
    views := Function.update s.views key (after :: s.views key)
    prepared := Function.update s.prepared key none }

/-- The manifest is replaced if it is still the one the intent was prepared from. -/
def Indexing.publish : Indexing D S :=
  match s.prepared key with
  | none => s
  | some (before, after) => if s.durable key = before then s.replace key after else s

/-- A recovery holds the index's fence: nothing prepared is published after it. -/
def Indexing.resolve {α : Type} (s : Indexing D S) (key : Bytes) :
    Except Status (α × Database D) → Indexing D S
  | .ok (_, db) => s.hold db key none
  | .error _ => s

def Indexing.next : IndexEvent S → Indexing D S
  | .accept request principal fence writeEpoch =>
    s.commit (acceptChecked catalog sha s.db request principal fence writeEpoch)
  | .mark principal operationId => s.commit (markUnconfirmed catalog s.db principal operationId)
  | .settle principal operationId settled =>
    s.commit (settleOutcome catalog s.db principal operationId settled)
  | .stage key candidate before after =>
    if before.manifest ∈ s.views key then s.stage artifacts catalog sha key candidate before after
    else s
  | .prepare call =>
    match s.staged[call]? with
    | none => s
    | some call => s.prepare catalog sha call
  | .verify key before after batchRows =>
    if before.manifest ∈ s.views key then s.verify artifacts catalog key before after batchRows
    else s
  | .prepareMaintenance call =>
    match s.verified[call]? with
    | none => s
    | some verified => s.prepareMaintenance catalog sha verified
  | .publish key => s.publish key
  | .recover key => s.resolve key (recoverIndexPublication catalog sha s.db key (s.durable key))
  | .recoverMaintenance key =>
    s.resolve key (recoverIndexMaintenance catalog sha s.db key (s.durable key))
  | .enable => s.commit ((enableIndexMaintenance catalog sha s.db).map fun db => ((), db))
  | .crash => { s with staged := [], verified := [], prepared := fun _ => none }

omit [DecidableEq D] [DecidableEq S] in
/-- What holds before a transaction, and after it if it returns. -/
lemma Indexing.commit_inv {α : Type} {P : Indexing D S → Prop} {s : Indexing D S}
    {result : Except Status (α × Database D)} (h : P s)
    (hok : ∀ a db, result = .ok (a, db) → P { s with db }) : P (s.commit result) := by
  cases result with
  | error => exact h
  | ok value => exact hok value.1 value.2 rfl

end

/-- Every decision is as it was. -/
structure Extends (db db' : Database D) : Prop where
  decisions : ∀ key i, db.decisionTable.lookup key = some i → db'.decisionTable.lookup key = some i
  maintenance : ∀ key m, (db.maintenance.bind fun t => t.lookup key) = some m →
    (db'.maintenance.bind fun t => t.lookup key) = some m

section

variable {db db' db'' : Database D}

lemma Extends.refl (db : Database D) : Extends db db := ⟨fun _ _ => id, fun _ _ => id⟩

lemma Extends.trans (h : Extends db db') (h' : Extends db' db'') : Extends db db'' :=
  ⟨fun key i hi => h'.decisions key i (h.decisions key i hi),
    fun key m hm => h'.maintenance key m (h.maintenance key m hm)⟩

lemma extends_of_eq (hdecs : db'.decisionTable = db.decisionTable)
    (hmaint : db'.maintenance = db.maintenance) : Extends db db' :=
  ⟨fun _ _ hi => hdecs.symm ▸ hi, fun _ _ hm => hmaint.symm ▸ hm⟩

section

variable [DecidableEq D] {key : Bytes} {state : ProjectionJournalState D} {hash : D}

lemma extends_resolvePublication {recovery : Recovery (ProjectionIntent D)}
    (h : resolvePublication db key state hash = .ok (recovery, db')) : Extends db db' := by
  rcases resolvePublication_ok h with rfl | ⟨i, -, ⟨hfree, rfl⟩ | rfl⟩
  · exact .refl db'
  · -- the row that is written was free
    exact ⟨fun _ _ hi => Table.lookup_insert_of_free hfree hi, fun _ _ => id⟩
  · exact extends_of_eq rfl rfl

lemma extends_resolveMaintenance {recovery : Recovery (MaintenanceIntent D)}
    (h : resolveMaintenance db key state hash = .ok (recovery, db')) : Extends db db' := by
  rcases resolveMaintenance_ok h with rfl | ⟨m, -, ⟨table, htab, hfree, rfl⟩ | rfl⟩
  · exact .refl db'
  · refine ⟨fun _ _ => id, fun _ _ hm => ?_⟩
    rw [htab] at hm
    exact Table.lookup_insert_of_free hfree hm
  · exact extends_of_eq rfl rfl

end

end

/-- The journal and what it names of the catalog are left alone, and the catalog stays open. -/
structure Elsewhere (catalog : DocumentCatalog) (db db' : Database D) : Prop where
  journal : db'.journal = db.journal
  states : db'.states = db.states
  decisions : db'.decisions = db.decisions
  maintenance : db'.maintenance = db.maintenance
  history : db'.header.historyId = db.header.historyId
  collection : db'.header.collection = db.header.collection
  opened : headerFrom catalog db'.header = .ok db'.header
  admits : requireAdmission db'.header true = .ok ()

section

variable {catalog : DocumentCatalog} {sha : Sha256 D S} {db db' : Database D}

lemma Elsewhere.refl (hopened : headerFrom catalog db.header = .ok db.header)
    (hadm : requireAdmission db.header true = .ok ()) : Elsewhere catalog db db :=
  ⟨rfl, rfl, rfl, rfl, rfl, rfl, hopened, hadm⟩

lemma elsewhere_accept [DecidableEq D] {request : AcceptDocumentRequest}
    {principal : Option String} {fence : Except Status Unit} {writeEpoch : ℕ} {written : Written}
    (hadm : requireAdmission db.header true = .ok ())
    (h : acceptChecked catalog sha db request principal fence writeEpoch = .ok (written, db')) :
    Elsewhere catalog db db' := by
  obtain ⟨key, -, _, -, h⟩ := bind₂_ok.1 h
  obtain ⟨hopened, hscope, ⟨previous, -, -, rfl⟩ | ⟨-, hnew⟩⟩ := acceptWrite_ok h
  · exact .refl hopened hadm
  · obtain ⟨hchk, -, -, happ⟩ := writeNew_ok hnew
    obtain ⟨⟨⟩, hopen, -⟩ := bind_ok.1 hchk
    refine ⟨happ.journal, happ.states, happ.decisions, happ.maintenance, ?_, ?_, ?_, ?_⟩
    · rw [happ.header]
      rfl
    · rw [happ.header]
      rfl
    · rw [happ.header]
      exact headerFrom_accepting hopened hopen hscope
    · rw [happ.header]
      exact hadm

lemma elsewhere_move {principal : Option String} {operationId : Bytes}
    {next : WriteOutcome → Option (WriteOutcome × ℕ)} {outcome : WriteOutcome}
    (hopened : headerFrom catalog db.header = .ok db.header)
    (hadm : requireAdmission db.header true = .ok ())
    (h : moveOutcome catalog db principal operationId next = .ok (outcome, db')) :
    Elsewhere catalog db db' := by
  obtain ⟨operation, -, ⟨-, -, rfl⟩ | ⟨_, _, version, -, -, -, -, -, rfl⟩⟩ := moveOutcome_ok h
  · exact .refl hopened hadm
  · refine ⟨operationsOnly_setOperation.journal, operationsOnly_setOperation.states,
      operationsOnly_setOperation.decisions, operationsOnly_setOperation.maintenance, ?_, ?_, ?_, ?_⟩
    all_goals rw [withOutcome_header]
    · exact hopened
    · exact hadm

lemma Elsewhere.extends (h : Elsewhere catalog db db') : Extends db db' :=
  extends_of_eq (by rw [Database.decisionTable, Database.decisionTable, h.decisions]) h.maintenance

end

end ProtomoltSearch.Catalog
