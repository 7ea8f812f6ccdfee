import ProtomoltSearch.Catalog.History

/-!
# Calls on an activated source

An activated managed source accepts under an admission: a lease that may lapse, and a shared guard
that keeps the committed policy and ownership in place while it is held. A write whose lease lapsed
before its commit returned is marked unconfirmed and settled by the next call that finds it so:
accepted if the right is current, fenced at the control revision if it is gone. Any number of such
calls go on at once over one operation of one actor, each between any two of its transactions and
checks (`Pc`), and control commands take effect whenever no admission is held.
-/

namespace ProtomoltSearch.Catalog

variable {D S : Type}

inductive Lease where
  | fresh
  | elapsed
  | suspended
  | backwards
  | recovery
  deriving DecidableEq

/-- `SourceAdmission::check_fresh`. -/
def Lease.checkFresh : Lease → Except Status Unit
  | .fresh => .ok ()
  | .elapsed => .error (.failedPrecondition
      "admission lease expired; obtain a fresh admission through the host")
  | .suspended => .error (.failedPrecondition
      "admission lease expired on the wall clock (the process or machine was suspended); obtain a fresh admission through the host")
  | .backwards => .error (.failedPrecondition
      "wall clock moved backwards under an admission lease; obtain a fresh admission through the host")
  | .recovery => .error (.failedPrecondition
      "a recovery admission opens a managed handle and admits no write; obtain a leased admission through the host")

/-- What the committed control state says of an actor and an owner. -/
inductive Right where
  | current
  | unauthorized
  | otherWorkspace
  | unprepared
  | moved
  deriving DecidableEq

/-- The committed control state, as far as one actor's writes go. -/
structure Authority where
  revision : ℕ
  right : Right
  deriving DecidableEq

/-- The part of `SourceAdmission::admit_write` that reads the committed state. -/
def Right.check : Right → Except Status Unit
  | .current => .ok ()
  | .unauthorized => .error (.permissionDenied "operation is not authorized for this collection")
  | .otherWorkspace => .error (.permissionDenied "source write permission names another workspace")
  | .unprepared => .error (.failedPrecondition "source owner has no committed preparation")
  | .moved => .error (.failedPrecondition
      "source owner is not ACTIVE under this write epoch; the fence has moved")

/-- `ActiveManagedCatalog::admit`. -/
def admitLease (authority : Authority) (lease : Lease) : Except Status Unit := do
  lease.checkFresh
  authority.right.check

structure ActiveManagedCatalog where
  inner : DocumentCatalog
  writeEpoch : ℕ
  deriving DecidableEq

/-- What a call of `accept` or `settle` does next. `retry`: the settlement is an accept's. -/
inductive Pc where
  | looking (request : AcceptDocumentRequest)
  | admitting (request : AcceptDocumentRequest)
  /-- The retry lookup of `accept_as`, in a read of its own. -/
  | finding (request : AcceptDocumentRequest)
  /-- The writing transaction of `accept_as`. -/
  | writing (request : AcceptDocumentRequest) (key : OperationKey)
  | judging (receipt : DocumentWriteReceipt)
  | marking (receipt : DocumentWriteReceipt)
  | settling (retry : Bool)
  /-- An unconfirmed record was found; is the lease fresh? -/
  | checking (retry : Bool) (receipt : DocumentWriteReceipt)
  | entering (retry : Bool) (receipt : DocumentWriteReceipt)
  /-- The entry check failed; was it the lease? -/
  | rechecking (retry : Bool) (receipt : DocumentWriteReceipt)
  | deciding (retry : Bool) (receipt : DocumentWriteReceipt) (settled : Settled)
  /-- The record had been fenced by another settlement; at which revision? -/
  | rereading (retry : Bool) (receipt : DocumentWriteReceipt)
  deriving DecidableEq

/-- What a call is answered. A settlement that is a fence is answered with its rejection. -/
inductive Answer where
  | accepted (receipt : DocumentWriteReceipt)
  | unconfirmed (receipt : DocumentWriteReceipt)
  | refused (status : Status)
  deriving DecidableEq

/-- What a call does after a step. -/
inductive Next where
  | goes (pc : Pc)
  | answers (answer : Answer)
  deriving DecidableEq

/-- A refused step ends its call. -/
def orRefused : Except Status Next → Next
  | .ok next => next
  | .error status => .answers (.refused status)

def settledReceipt (retry : Bool) (receipt : DocumentWriteReceipt) : DocumentWriteReceipt :=
  if retry then { receipt with replayed := true } else receipt

/-- The first look of `ActiveManagedCatalog::accept`. -/
def firstLook [DecidableEq D] (sha : Sha256 D S) (db : Database D) (actor : ActorOperationKey)
    (request : AcceptDocumentRequest) : Except Status Next := do
  let recorded ← recordedOperation db (some actor.principal) request.operationId
  match recorded with
  | none => return .goes (.admitting request)
  | some operation => do
    refuseIf (operation.requestSha256 != sha.request request)
      (.alreadyExists "operation_id was used for a different document write")
    match operation.outcome with
    | .accepted => return .goes (.admitting request)
    | .unconfirmed => return .goes (.settling true)
    | .fenced => do
      let receipt ← okOr operation.receipt (Status.dataLoss "operation receipt missing")
      .error (fenced receipt operation.fencedAtRevision)

/-- What an accept does with what `accept_as` returned. -/
def afterAccept (written : Written) : Except Status Next :=
  match written.outcome with
  | .unconfirmed => .ok (.goes (.settling true))
  | .fenced => .error (.internal "a fenced record was returned as a receipt")
  | .accepted =>
    if written.receipt.replayed then .ok (.answers (.accepted written.receipt))
    else .ok (.goes (.judging written.receipt))

/-- The retry lookup of `accept_as`, and what an accept does with what it finds. -/
def retryLook [DecidableEq D] (managed : ActiveManagedCatalog) (sha : Sha256 D S) (db : Database D)
    (actor : ActorOperationKey) (request : AcceptDocumentRequest) : Except Status Next := do
  let (key, found) ← acceptLookup managed.inner sha db request (some actor.principal)
  match found with
  | some written => afterAccept written
  | none => return .goes (.writing request key)

/-- The lookup of `settle_under`. -/
def settleLook (db : Database D) (actor : ActorOperationKey) (retry : Bool) : Except Status Next := do
  let recorded ← recordedOperation db (some actor.principal) actor.operationId
  let operation ← okOr recorded
    (Status.notFound "the actor has no operation with this id to settle")
  let receipt ← okOr operation.receipt (Status.dataLoss "operation receipt missing")
  match operation.outcome with
  | .accepted => return .answers (.accepted (settledReceipt retry receipt))
  | .fenced => .error (fenced receipt operation.fencedAtRevision)
  | .unconfirmed => return .goes (.checking retry receipt)

/-- What `settle_under` does with what `settle_outcome` returned. -/
def afterSettle (retry : Bool) (receipt : DocumentWriteReceipt) (settled : Settled) :
    WriteOutcome → Next
  | .accepted => .answers (.accepted (settledReceipt retry receipt))
  | .fenced =>
    match settled with
    | .fenced atRevision => .answers (.refused (fenced receipt atRevision))
    | .accepted => .goes (.rereading retry receipt)
  | .unconfirmed => .answers (.refused (.internal "an unconfirmed record was not settled"))

def rereadRevision (db : Database D) (actor : ActorOperationKey) : Except Status ℕ := do
  let recorded ← recordedOperation db (some actor.principal) actor.operationId
  return (recorded.map (·.fencedAtRevision)).getD 0

/-- The transaction of a step, if it has one: what it returns, and the database it leaves. -/
def committed {α : Type} (db : Database D) (next : α → Except Status Next) :
    Except Status (α × Database D) → Database D × Next
  | .ok (a, db') => (db', orRefused (next a))
  | .error status => (db, .answers (.refused status))

/-- One step of a call, with what a check finds of its lease. -/
def advance [DecidableEq D] (managed : ActiveManagedCatalog) (sha : Sha256 D S) (actor : ActorOperationKey)
    (authority : Authority) (lease : Lease) (db : Database D) : Pc → Database D × Next
  | .looking request => (db, orRefused (firstLook sha db actor request))
  | .admitting request =>
    (db, orRefused ((admitLease authority lease).map fun _ => .goes (.finding request)))
  | .finding request => (db, orRefused (retryLook managed sha db actor request))
  | .writing request key =>
    committed db afterAccept
      (acceptWrite managed.inner sha db request key lease.checkFresh managed.writeEpoch)
  | .judging receipt =>
    (db, match lease.checkFresh with
      | .ok _ => .answers (.accepted receipt)
      | .error _ => .goes (.marking receipt))
  | .marking receipt =>
    committed db (fun _ => .ok (.answers (.unconfirmed receipt)))
      (markUnconfirmed managed.inner db (some actor.principal) actor.operationId)
  | .settling retry => (db, orRefused (settleLook db actor retry))
  | .checking retry receipt =>
    (db, orRefused (lease.checkFresh.map fun _ => .goes (.entering retry receipt)))
  | .entering retry receipt =>
    (db, match admitLease authority lease with
      | .ok _ => .goes (.deciding retry receipt .accepted)
      | .error _ => .goes (.rechecking retry receipt))
  | .rechecking retry receipt =>
    (db, orRefused (lease.checkFresh.map fun _ =>
      .goes (.deciding retry receipt (.fenced authority.revision))))
  | .deciding retry receipt settled =>
    committed db (fun outcome => .ok (afterSettle retry receipt settled outcome))
      (settleOutcome managed.inner db (some actor.principal) actor.operationId settled)
  | .rereading _ receipt =>
    (db, orRefused ((rereadRevision db actor).map fun atRevision =>
      .answers (.refused (fenced receipt atRevision))))

/-- The source with the calls going on over one operation, and what the ended ones were answered. -/
structure Hosted (D : Type) where
  db : Database D
  authority : Authority
  callers : List (Option Pc)
  answers : List Answer

/-- What happens next. -/
inductive Event where
  | accept (request : AcceptDocumentRequest)
  | settle
  | step (caller : ℕ) (lease : Lease)
  | drop (caller : ℕ)
  /-- A control command takes effect, unless an admission is held. -/
  | control (authority : Authority)
  deriving DecidableEq

/-- The call of a caller. -/
def Hosted.pc (s : Hosted D) (caller : ℕ) : Option Pc := s.callers[caller]?.join

/-- A caller's call goes on, or ends with an answer. -/
def Hosted.goOn (s : Hosted D) (caller : ℕ) : Database D × Next → Hosted D
  | (db, .goes pc) => { s with db, callers := s.callers.set caller (some pc) }
  | (db, .answers answer) =>
    { s with db, callers := s.callers.set caller none, answers := s.answers ++ [answer] }

def Hosted.next [DecidableEq D] (managed : ActiveManagedCatalog) (sha : Sha256 D S) (actor : ActorOperationKey)
    (s : Hosted D) : Event → Hosted D
  | .accept request =>
    { s with
      callers := s.callers ++ [some (.looking { request with operationId := actor.operationId })] }
  | .settle => { s with callers := s.callers ++ [some (.settling false)] }
  | .step caller lease =>
    match s.pc caller with
    | none => s
    | some pc => s.goOn caller (advance managed sha actor s.authority lease s.db pc)
  | .drop caller => { s with callers := s.callers.set caller none }
  | .control authority => if s.callers.all (·.isNone) then { s with authority } else s

inductive Decision where
  | accepted (receipt : DocumentWriteReceipt)
  | fenced (rejection : Status)
  deriving DecidableEq

def isFence (status : Status) : Bool :=
  status.code == .failedPrecondition &&
    status.message.toList.take 17 == "write of version ".toList

/-- The final decision an answer gives, if any. A replayed receipt is the same receipt. -/
def Answer.decision : Answer → Option Decision
  | .accepted receipt => some (.accepted { receipt with replayed := false })
  | .unconfirmed _ => none
  | .refused status => if isFence status then some (.fenced status) else none

def DocumentOperation.decision (operation : DocumentOperation D) : Option Decision :=
  operation.receipt.bind fun receipt =>
    match operation.outcome with
    | .accepted => some (.accepted { receipt with replayed := false })
    | .unconfirmed => none
    | .fenced => some (.fenced (Catalog.fenced receipt operation.fencedAtRevision))

/-- How far a call has come: it has not seen the record it will act on, it has written the record and
not judged it, or it has seen it unconfirmed. -/
inductive Phase where
  | early
  | unjudged
  | late
  deriving DecidableEq

def Pc.phase : Pc → Phase
  | .looking _ | .admitting _ | .finding _ | .writing _ _ | .settling _ => .early
  | .judging _ | .marking _ => .unjudged
  | .checking _ _ | .entering _ _ | .rechecking _ _ | .deciding _ _ _ | .rereading _ _ => .late

/-- The next step of the call looks the operation up. -/
def Pc.looksUp : Pc → Bool
  | .looking _ | .finding _ | .writing _ _ | .settling _ => true
  | _ => false

/-- No call is between its commit and its judgement. -/
def Hosted.allJudged (s : Hosted D) : Bool :=
  s.callers.all fun caller => caller.all fun pc => pc.phase != .unjudged

/-- **The condition.** The operation is not looked up while its write is committed and not judged. -/
def LookedUpJudged (s : Hosted D) : Event → Prop
  | .step caller _ => (s.pc caller).any Pc.looksUp = true → s.allJudged = true
  | _ => True

instance (s : Hosted D) (e : Event) : Decidable (LookedUpJudged s e) :=
  match e with
  | .step caller _ =>
    inferInstanceAs (Decidable ((s.pc caller).any Pc.looksUp = true → s.allJudged = true))
  | .accept _ | .settle | .drop _ | .control _ => isTrue trivial

end ProtomoltSearch.Catalog
