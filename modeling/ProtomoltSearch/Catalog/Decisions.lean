import ProtomoltSearch.Catalog.Managed

/-!
# What a step of a call does

A call is answered a final decision only with a receipt or with the rejection of a fenced write. Of
the other refusals none is such a rejection (`Plain`), and a lookup refused with one found it in the
record (`Replays`). So a step does one of four things (`Effect`): it leaves the database alone and
answers at most what the record says, it writes the record, it marks it, or it settles it.
-/

namespace ProtomoltSearch.Catalog

open Option

variable {D S : Type}

lemma isFence_fenced (receipt : DocumentWriteReceipt) (atRevision : ℕ) :
    isFence (fenced receipt atRevision) = true := by
  simp [isFence, fenced, Status.failedPrecondition, String.toList_append]

/-- A refusal with a text of its own is no fence. The text is matched as a list of characters, which
is quicker to compare than a string. -/
lemma isFence_ofList {l : List Char} (h : (l.take 17 == "write of version ".toList) = false) :
    isFence (.failedPrecondition (String.ofList l)) = false := by
  simp only [isFence, Status.failedPrecondition, String.toList_ofList, h, Bool.and_false]

/-- No refusal of the computation is a fence. -/
def Plain {α : Type} (x : Except Status α) : Prop :=
  ∀ status, x = .error status → isFence status = false

section

variable {α β : Type}

lemma plain_ok (a : α) : Plain (.ok a) := fun _ h => nomatch h

variable {status : Status}

section

variable (h : isFence status = false)

include h

lemma plain_error : Plain (.error status : Except Status α) := by
  rintro _ ⟨⟩
  exact h

lemma plain_refuseIf {c : Bool} : Plain (refuseIf c status) := by
  cases c
  · exact plain_ok ()
  · exact plain_error h

lemma plain_okOr {x : Option α} : Plain (okOr x status) := by
  cases x
  · exact plain_error h
  · exact plain_ok _

end

lemma Plain.bind {x : Except Status α} {f : α → Except Status β} (hx : Plain x)
    (hf : ∀ a, x = .ok a → Plain (f a)) : Plain (x >>= f) := by
  intro status h
  rcases bind_eq_error.1 h with h | ⟨a, ha, h⟩
  · exact hx status h
  · exact hf a ha status h

lemma Plain.map {x : Except Status α} {f : α → β} (hx : Plain x) : Plain (x.map f) := by
  rintro status h
  cases x with
  | error e => exact hx status (congrArg _ (Except.error.inj h))
  | ok a => cases h

end

/-- The record of an actor's operation is kept under this key. -/
def ActorOperationKey.operationKey (actor : ActorOperationKey) : OperationKey :=
  ⟨some actor.principal, actor.operationId⟩

/-- A refusal of the computation that is a fence is the decision of the record. -/
def Replays {α : Type} (record : Option (DocumentOperation D)) (x : Except Status α) : Prop :=
  ∀ status, x = .error status → isFence status = true →
    ∃ operation, record = some operation ∧ operation.decision = some (.fenced status)

lemma decision_refused {status : Status} (h : isFence status = true) :
    (Answer.refused status).decision = some (.fenced status) := if_pos h

section

variable {α β : Type} {record : Option (DocumentOperation D)} {operation : DocumentOperation D}
  {receipt : DocumentWriteReceipt}

variable {x : Except Status α}

lemma Plain.replays (h : Plain x) : Replays record x := by
  intro status herr hfence
  rw [h status herr] at hfence
  cases hfence

lemma Replays.bind {f : α → Except Status β} (hx : Replays record x)
    (hf : ∀ a, x = .ok a → Replays record (f a)) : Replays record (x >>= f) := by
  intro status h
  rcases bind_eq_error.1 h with h | ⟨a, ha, h⟩
  · exact hx status h
  · exact hf a ha status h

lemma Replays.map {f : α → β} (hx : Replays record x) : Replays record (f <$> x) := by
  intro status h
  cases x with
  | error e => exact hx status (congrArg _ (Except.error.inj h))
  | ok a => cases h

section

variable (hreceipt : operation.receipt = some receipt)

include hreceipt

lemma decision_of_fenced (hout : operation.outcome = .fenced) :
    operation.decision = some (.fenced (fenced receipt operation.fencedAtRevision)) := by
  simp [DocumentOperation.decision, hreceipt, hout]

lemma decision_of_accepted (hout : operation.outcome = .accepted) :
    operation.decision = some (.accepted { receipt with replayed := false }) := by
  simp [DocumentOperation.decision, hreceipt, hout]

lemma replays_fenced (hout : operation.outcome = .fenced) : Replays (some operation)
      (.error (fenced receipt operation.fencedAtRevision) : Except Status α) := by
  rintro _ ⟨⟩ -
  exact ⟨operation, rfl, decision_of_fenced hreceipt hout⟩

end

lemma recordedOperation_ok {db : Database D} {principal : Option String} {operationId : Bytes}
    (h : recordedOperation db principal operationId = .ok record) :
    record = db.operation ⟨principal, operationId⟩ := by
  obtain ⟨key, hkey, h⟩ := bind_ok.1 h
  rw [← pure_ok.1 h, OperationKey.new_ok hkey]

end

section Refusals

variable {catalog : DocumentCatalog} {sha : Sha256 D S} {db : Database D} {key : OperationKey}
  {request : AcceptDocumentRequest} {header : DocumentCatalogHeader} {status : Status}
  {previous : DocumentOperation D} {requestSha : D} {written : Written}

variable {principal : Option String} {operationId : Bytes}

lemma plain_operationKey : Plain (OperationKey.new principal operationId) :=
  (plain_refuseIf rfl).bind fun _ _ => (plain_refuseIf rfl).bind fun _ _ => plain_ok _

lemma plain_checkHeader : Plain (key.checkHeader header) :=
  (plain_refuseIf (isFence_ofList (by decide))).bind fun _ _ =>
    plain_refuseIf (isFence_ofList (by decide))

lemma plain_checkHistory : Plain (checkHistory header request) :=
  plain_refuseIf (isFence_ofList (by decide))

lemma plain_validateRequest : Plain (validateRequest request) :=
  (plain_refuseIf rfl).bind fun _ _ => (plain_refuseIf rfl).bind fun _ _ =>
    (plain_refuseIf rfl).bind fun _ _ => plain_refuseIf rfl

lemma plain_validateCounts : Plain (validateCounts db header) :=
  (plain_refuseIf rfl).bind fun _ _ => plain_refuseIf rfl

lemma plain_recordedOperation : Plain (recordedOperation db principal operationId) :=
  plain_operationKey.bind fun _ _ => plain_ok _

lemma plain_checkFresh (lease : Lease) : Plain lease.checkFresh := by
  cases lease
  · exact plain_ok ()
  all_goals exact plain_error (isFence_ofList (by decide))

lemma plain_admitLease (authority : Authority) (lease : Lease) : Plain (admitLease authority lease) := by
  refine (plain_checkFresh lease).bind fun _ _ => ?_
  cases authority.right with
  | current => exact plain_ok ()
  | unauthorized | otherWorkspace => exact plain_error rfl
  | unprepared | moved => exact plain_error (isFence_ofList (by decide))

lemma plain_headerFrom (h : headerFrom catalog db.header = .ok db.header) :
    Plain (headerFrom catalog db.header) := by
  rw [h]
  exact plain_ok _

lemma plain_storeSource [DecidableEq D] {mutation : Option Mutation} : Plain (storeSource sha db mutation) := by
  have hintern : ∀ {V : Type} [DecidableEq V] (table : Table D V) (digest : D) (blob : V),
      Plain (intern table digest blob) := by
    intro V _ table digest blob
    unfold intern
    split
    · split
      · exact plain_ok _
      · exact plain_error rfl
    · exact plain_ok _
  unfold storeSource
  split
  · exact (hintern _ _ _).bind fun _ _ => (hintern _ _ _).bind fun _ _ => plain_ok _
  · exact plain_ok _

lemma plain_writeNew [DecidableEq D] {lease : Lease} {writeEpoch : ℕ} :
    Plain (writeNew catalog sha db request key lease.checkFresh writeEpoch) := by
  have hchk : Plain (checkNew db request) := by
    refine Plain.bind ?_ fun _ _ => (plain_refuseIf rfl).bind fun _ _ =>
      (plain_refuseIf rfl).bind fun _ _ => plain_refuseIf rfl
    exact (plain_refuseIf (isFence_ofList (by decide))).bind fun _ _ =>
      plain_refuseIf (isFence_ofList (by decide))
  exact hchk.bind fun _ _ => plain_storeSource.bind fun _ _ =>
    (plain_refuseIf rfl).bind fun _ _ => (plain_checkFresh lease).bind fun _ _ => plain_ok _

lemma plain_moveOutcome {next : WriteOutcome → Option (WriteOutcome × ℕ)}
    (h : headerFrom catalog db.header = .ok db.header) :
    Plain (moveOutcome catalog db principal operationId next) := by
  refine plain_operationKey.bind fun key _ => (plain_headerFrom h).bind fun _ _ =>
    plain_checkHeader.bind fun _ _ => (plain_okOr rfl).bind fun operation _ => ?_
  split
  · exact plain_ok _
  · exact (plain_okOr rfl).bind fun _ _ => (plain_okOr rfl).bind fun _ _ =>
      (plain_refuseIf rfl).bind fun _ _ => plain_ok _

open Replays

section

variable [DecidableEq D]

/-- A retry is refused with a fence when the record is fenced, and with that fence. -/
lemma replays_retryReceipt :
    Replays (some previous) (retryReceipt header previous requestSha) := by
  refine bind (plain_refuseIf rfl).replays fun _ _ =>
    bind (plain_okOr rfl).replays fun receipt hreceipt => bind ?_ fun _ _ => ?_
  · rintro status h -
    cases hout : previous.outcome == .fenced with
    | false =>
      rw [hout] at h
      cases h
    | true =>
      rw [hout] at h
      obtain rfl := Except.error.inj h
      exact ⟨previous, rfl, decision_of_fenced (okOr_ok.1 hreceipt) (eq_of_beq hout)⟩
  · split
    · exact (plain_ok _).replays
    · exact ((plain_refuseIf rfl).bind fun _ _ => plain_ok _).replays

/-- A retry of a record that is not fenced is answered with the recorded receipt. -/
lemma retryReceipt_answered {receipt : DocumentWriteReceipt}
    (h : retryReceipt header previous requestSha = .ok written)
    (hreceipt : previous.receipt = some receipt) (hhist : receipt.historyId = header.historyId) :
    previous.outcome ≠ .fenced ∧ written = ⟨{ receipt with replayed := true }, previous.outcome⟩ := by
  obtain ⟨_, -, _, hheld, h⟩ := bind₂_ok.1 h
  obtain rfl := some.inj (hreceipt.symm.trans (okOr_ok.1 hheld))
  obtain ⟨⟨⟩, hout, h⟩ := bind_ok.1 h
  refine ⟨fun heq => ?_, ?_⟩
  · rw [heq] at hout
    cases hout
  · split at h
    · rw [← pure_ok.1 h, ← hhist]
    · obtain ⟨_, h⟩ := rest_ok h
      exact (pure_ok.1 h).symm

/-- The lookup of `accept_as` is refused with a fence when the record is fenced. -/
lemma replays_acceptLookup (hopened : headerFrom catalog db.header = .ok db.header) :
    Replays (db.operation ⟨principal, request.operationId⟩)
      (acceptLookup catalog sha db request principal) := by
  obtain ⟨-, hvalid, hbind, -⟩ := headerFrom_ok.1 hopened
  refine bind plain_operationKey.replays fun key hkey =>
    bind plain_validateRequest.replays fun _ _ => bind ?_ fun _ _ =>
      (plain_ok _).replays
  obtain rfl := OperationKey.new_ok hkey
  unfold acceptedRetry
  rw [hvalid, hbind, ok_bind, ok_bind]
  refine bind plain_checkHistory.replays fun _ _ => bind plain_checkHeader.replays
    fun _ _ => bind plain_validateCounts.replays fun _ _ => ?_
  cases hop : db.operation ⟨principal, request.operationId⟩ with
  | none => exact (plain_ok _).replays
  | some previous => exact replays_retryReceipt.map

lemma acceptLookup_found {found : Option Written}
    (h : acceptLookup catalog sha db request principal = .ok (key, found)) :
    key = ⟨principal, request.operationId⟩ ∧ ∀ written, found = some written →
      ∃ operation, db.operation key = some operation ∧
        retryReceipt db.header operation (sha.request request) = .ok written := by
  obtain ⟨key', hkey, _, -, found', hfound, h⟩ := bind₃_ok.1 h
  obtain ⟨rfl, rfl⟩ := Prod.mk.inj (pure_ok.1 h)
  refine ⟨OperationKey.new_ok hkey, ?_⟩
  rintro written rfl
  obtain ⟨_, -, _, -, _, -, h⟩ := bind₃_ok.1 hfound
  obtain ⟨_, -, _, -, h⟩ := bind₂_ok.1 h
  cases hop : db.operation key' with
  | none =>
    simp only [hop] at h
    cases h
  | some operation =>
    simp only [hop] at h
    cases hretry : retryReceipt db.header operation (sha.request request) with
    | error e =>
      rw [hretry] at h
      cases h
    | ok w =>
      rw [hretry] at h
      obtain rfl := some.inj (Except.ok.inj h)
      exact ⟨operation, rfl, hretry⟩

/-- The writing transaction of `accept_as` is refused with a fence when the record is fenced. -/
lemma replays_acceptWrite {lease : Lease} {writeEpoch : ℕ}
    (hopened : headerFrom catalog db.header = .ok db.header) : Replays (db.operation key)
      (acceptWrite catalog sha db request key lease.checkFresh writeEpoch) := by
  unfold acceptWrite
  rw [hopened, ok_bind]
  refine bind plain_checkHistory.replays fun _ _ => bind plain_checkHeader.replays
    fun _ _ => bind plain_validateCounts.replays fun _ _ => ?_
  cases hop : db.operation key with
  | none => exact plain_writeNew.replays
  | some previous => exact bind replays_retryReceipt fun _ _ => (plain_ok _).replays

/-- The first look of an accept is refused with a fence when the record is fenced. -/
lemma replays_firstLook {actor : ActorOperationKey} :
    Replays (db.operation ⟨some actor.principal, request.operationId⟩)
      (firstLook sha db actor request) := by
  refine bind plain_recordedOperation.replays fun recorded hrecd => ?_
  rw [← recordedOperation_ok hrecd]
  cases recorded with
  | none => exact (plain_ok _).replays
  | some operation =>
    refine bind (plain_refuseIf rfl).replays fun _ _ => ?_
    cases hout : operation.outcome with
    | accepted | unconfirmed => exact (plain_ok _).replays
    | fenced => exact bind (plain_okOr rfl).replays fun receipt hreceipt =>
        replays_fenced (okOr_ok.1 hreceipt) hout

end

/-- The lookup of a settlement is refused with a fence when the record is fenced. -/
lemma replays_settleLook {actor : ActorOperationKey} {retry : Bool} :
    Replays (db.operation actor.operationKey) (settleLook db actor retry) := by
  refine bind plain_recordedOperation.replays fun recorded hrecd => ?_
  have hrecd : recorded = db.operation actor.operationKey := recordedOperation_ok hrecd
  rw [← hrecd]
  refine bind (plain_okOr rfl).replays fun operation hoperation => ?_
  rw [okOr_ok.1 hoperation]
  refine bind (plain_okOr rfl).replays fun receipt hreceipt => ?_
  cases hout : operation.outcome with
  | accepted | unconfirmed => exact (plain_ok _).replays
  | fenced => exact replays_fenced (okOr_ok.1 hreceipt) hout

end Refusals

/-- The record a call has seen unconfirmed, with its receipt. If it has been fenced since, it was at
the present revision: the call's admission is held, so no control command has taken effect. -/
def Seen (record : Option (DocumentOperation D)) (revision : ℕ) (receipt : DocumentWriteReceipt) :
    Prop :=
  ∃ operation, record = some operation ∧ operation.receipt = some receipt ∧
    (operation.outcome = .fenced → operation.fencedAtRevision = revision)

/-- What holds of the record when a call stands so. -/
def Pc.Fits (actor : ActorOperationKey) (record : Option (DocumentOperation D)) (revision : ℕ) :
    Pc → Prop
  | .looking request | .admitting request | .finding request =>
    request.operationId = actor.operationId
  | .writing request key => request.operationId = actor.operationId ∧ key = actor.operationKey
  | .judging receipt | .marking receipt => ∃ operation, record = some operation ∧
      operation.receipt = some receipt ∧ operation.outcome = .accepted
  | .settling _ => True
  | .checking _ receipt | .entering _ receipt | .rechecking _ receipt => Seen record revision receipt
  | .deciding _ receipt settled => Seen record revision receipt ∧
      ∀ atRevision, settled = .fenced atRevision → atRevision = revision
  | .rereading _ receipt => ∃ operation, record = some operation ∧
      operation.receipt = some receipt ∧ operation.outcome = .fenced

section Steps

variable {managed : ActiveManagedCatalog} {sha : Sha256 D S} {actor : ActorOperationKey}
  {authority : Authority} {lease : Lease} {db db' : Database D} {pc pc' : Pc} {next : Next}
  {record record' : Option (DocumentOperation D)} {operation : DocumentOperation D} {revision : ℕ}
  {receipt : DocumentWriteReceipt}

/-- A call that has not seen the record does not depend on it. -/
lemma Pc.Fits.of_early {revision' : ℕ} (h : pc.Fits actor record revision)
    (hphase : pc.phase = .early) : pc.Fits actor record' revision' := by
  cases pc with
  | looking | admitting | finding | writing | settling => exact h
  | judging | marking | checking | entering | rechecking | deciding | rereading => cases hphase

lemma Pc.Fits.accepted_of_unjudged (h : pc.Fits actor record revision)
    (hphase : pc.phase = .unjudged) :
    ∃ operation, record = some operation ∧ operation.outcome = .accepted := by
  cases pc with
  | judging receipt | marking receipt =>
    obtain ⟨operation, hrecord, -, hout⟩ := h
    exact ⟨operation, hrecord, hout⟩
  | looking | admitting | finding | writing | settling | checking | entering | rechecking | deciding
    | rereading => cases hphase

lemma Pc.Fits.early_of_none (h : pc.Fits actor (none : Option (DocumentOperation D)) revision) :
    pc.phase = .early := by
  cases pc with
  | looking | admitting | finding | writing | settling => rfl
  | judging | marking | checking | entering | rechecking | rereading =>
    obtain ⟨_, hrecord, -⟩ := h
    cases hrecord
  | deciding =>
    obtain ⟨⟨_, hrecord, -⟩, -⟩ := h
    cases hrecord

/-- The record and its version, as the writing transaction left them and later ones keep them. -/
structure Backed (db : Database D) (operation : DocumentOperation D) (receipt : DocumentWriteReceipt)
    (version : DocumentVersion D) : Prop where
  recorded : operation.receipt = some receipt
  first : receipt.replayed = false
  history : receipt.historyId = db.header.historyId
  stored : db.versions.lookup ⟨receipt.documentKey, receipt.version⟩ = some version
  outcome : version.outcome = operation.outcome
  revision : version.fencedAtRevision = operation.fencedAtRevision

/-- The database a call finds. -/
structure Sound (managed : ActiveManagedCatalog) (actor : ActorOperationKey) (db : Database D) :
    Prop where
  opened : headerFrom managed.inner db.header = .ok db.header
  backed : ∀ operation, db.operation actor.operationKey = some operation →
    ∃ receipt version, Backed db operation receipt version

/-- A step that leaves the database alone: a call comes to act on the record only by seeing it not
accepted, and answers a decision only if the record holds it. -/
inductive Quiet (actor : ActorOperationKey) (record : Option (DocumentOperation D)) (revision : ℕ)
    (pc : Pc) : Next → Prop
  | goes {pc' : Pc} (fits : pc'.Fits actor record revision) (phase : pc'.phase = pc.phase) :
    Quiet actor record revision pc (.goes pc')
  | sees {pc' : Pc} {operation : DocumentOperation D} (fits : pc'.Fits actor record revision)
    (late : pc'.phase = .late) (record_eq : record = some operation)
    (outcome : operation.outcome ≠ .accepted) : Quiet actor record revision pc (.goes pc')
  | answers {answer : Answer}
    (decided : ∀ d, answer.decision = some d →
      ∃ operation, record = some operation ∧ operation.decision = some d)
    (looks : ∀ d, answer.decision = some d → pc.phase = .early → pc.looksUp = true) :
    Quiet actor record revision pc (.answers answer)

lemma Quiet.refused {status : Status} (h : isFence status = true →
      ∃ operation, record = some operation ∧ operation.decision = some (.fenced status))
    (looks : pc.phase = .early → isFence status = true → pc.looksUp = true) :
    Quiet actor record revision pc (.answers (.refused status)) := by
  have hfence : ∀ d, (Answer.refused status).decision = some d →
      isFence status = true ∧ d = .fenced status := by
    intro d hd
    simp only [Answer.decision] at hd
    split at hd
    · rename_i hf
      exact ⟨hf, (some.inj hd).symm⟩
    · cases hd
  refine .answers (fun d hd => ?_) fun d hd hphase => looks hphase (hfence d hd).1
  obtain ⟨hf, rfl⟩ := hfence d hd
  exact h hf

/-- A call whose step is refused with no fence is answered no decision. -/
lemma Quiet.plain {x : Except Status Next} (h : Plain x)
    (hok : ∀ next, x = .ok next → Quiet actor record revision pc next) :
    Quiet actor record revision pc (orRefused x) := by
  cases x with
  | ok next => exact hok next rfl
  | error status =>
    have hf := h status rfl
    exact .refused (fun hfence => by simp [hf] at hfence) fun _ hfence => by simp [hf] at hfence

/-- A call whose step is refused as the record is, is answered the decision of the record. -/
lemma Quiet.replays {x : Except Status Next} (h : Replays record x) (hlooks : pc.looksUp = true)
    (hok : ∀ next, x = .ok next → Quiet actor record revision pc next) :
    Quiet actor record revision pc (orRefused x) := by
  cases x with
  | ok next => exact hok next rfl
  | error status => exact .refused (h status rfl) fun _ _ => hlooks

section

variable (hrecord : record = some operation) (hreceipt : operation.receipt = some receipt)

include hrecord hreceipt

lemma Quiet.accepted {answered : DocumentWriteReceipt} (hout : operation.outcome = .accepted)
    (hans : { answered with replayed := false } = { receipt with replayed := false })
    (hlooks : pc.phase = .early → pc.looksUp = true) :
    Quiet actor record revision pc (.answers (.accepted answered)) := by
  refine .answers (fun d hd => ?_) fun _ _ => hlooks
  cases hd
  exact ⟨operation, hrecord, hans ▸ decision_of_accepted hreceipt hout⟩

/-- What an accept does after a retry was found. -/
lemma quiet_afterAccept {written : Written}
    (hwritten : written = ⟨{ receipt with replayed := true }, operation.outcome⟩)
    (hout : operation.outcome ≠ .fenced) (hphase : pc.phase = .early) (hlooks : pc.looksUp = true) :
    Quiet actor record revision pc (orRefused (afterAccept written)) := by
  subst hwritten
  cases ho : operation.outcome with
  | accepted => exact .accepted hrecord hreceipt ho rfl fun _ => hlooks
  | unconfirmed => exact .goes trivial hphase.symm
  | fenced => exact absurd ho hout

end

lemma settledReceipt_eq (retry : Bool) :
    { settledReceipt retry receipt with replayed := false } = { receipt with replayed := false } := by
  cases retry <;> rfl

/-- What a step of a call does. -/
inductive Effect (managed : ActiveManagedCatalog) (actor : ActorOperationKey) (db : Database D)
    (revision : ℕ) (pc : Pc) : Database D × Next → Prop
  | quiet {next : Next} (quiet : Quiet actor (db.operation actor.operationKey) revision pc next) :
    Effect managed actor db revision pc (db, next)
  | writes {db' : Database D} {receipt : DocumentWriteReceipt}
    (new : db.operation actor.operationKey = none) (sound : Sound managed actor db')
    (fits : (Pc.judging receipt).Fits actor (db'.operation actor.operationKey) revision) :
    Effect managed actor db revision pc (db', .goes (.judging receipt))
  | marks {db' : Database D} {receipt : DocumentWriteReceipt} (unjudged : pc.phase = .unjudged)
    (sound : Sound managed actor db') :
    Effect managed actor db revision pc (db', .answers (.unconfirmed receipt))
  /-- The unconfirmed record is settled, at the present revision, and the call answered so. -/
  | settles {db' : Database D} {answer : Answer} {operation operation' : DocumentOperation D}
    (record : db.operation actor.operationKey = some operation)
    (unconfirmed : operation.outcome = .unconfirmed) (sound : Sound managed actor db')
    (record' : db'.operation actor.operationKey = some operation')
    (receipt : operation'.receipt = operation.receipt)
    (present : operation'.outcome = .fenced → operation'.fencedAtRevision = revision)
    (decided : answer.decision = operation'.decision) :
    Effect managed actor db revision pc (db', .answers answer)

lemma Sound.withOutcome {version : DocumentVersion D} {outcome : WriteOutcome}
    (h : Sound managed actor db) (hop : db.operation actor.operationKey = some operation)
    (hreceipt : operation.receipt = some receipt) :
    Sound managed actor (db.withOutcome actor.operationKey operation version
      ⟨receipt.documentKey, receipt.version⟩ outcome revision) where
  opened := by
    exact h.opened
  backed moved hmoved := by
    obtain rfl := some.inj (withOutcome_operation.symm.trans hmoved)
    obtain ⟨_, _, hbacked⟩ := h.backed operation hop
    obtain rfl := some.inj (hreceipt.symm.trans hbacked.recorded)
    refine ⟨receipt, { version with outcome, fencedAtRevision := revision }, hreceipt, hbacked.first,
      ?_, ?_, rfl, rfl⟩
    · exact hbacked.history
    · exact AList.lookup_insert _

variable {request : AcceptDocumentRequest}

section

variable (h : Sound managed actor db)

include h

lemma effect_writing [DecidableEq D] :
    Effect managed actor db revision (.writing request actor.operationKey)
      (committed db afterAccept (acceptWrite managed.inner sha db request actor.operationKey
        lease.checkFresh managed.writeEpoch)) := by
  cases hw : acceptWrite managed.inner sha db request actor.operationKey lease.checkFresh
      managed.writeEpoch with
  | error status => exact .quiet (.refused (replays_acceptWrite h.opened _ hw) fun _ _ => rfl)
  | ok result =>
    obtain ⟨written, db'⟩ := result
    obtain ⟨-, hscope, ⟨previous, hop, hretry, rfl⟩ | ⟨hnone, hnew⟩⟩ := acceptWrite_ok hw
    · obtain ⟨receipt, version, hbacked⟩ := h.backed previous hop
      obtain ⟨hout, hwritten⟩ := retryReceipt_answered hretry hbacked.recorded hbacked.history
      exact .quiet (quiet_afterAccept hop hbacked.recorded hwritten hout rfl rfl)
    · obtain ⟨hchk, -, rfl, happ⟩ := writeNew_ok hnew
      obtain ⟨⟨⟩, hadm, -⟩ := bind_ok.1 hchk
      have hself := happ.operation_self
      refine .writes hnone ⟨?_, fun operation hop => ?_⟩ ⟨_, hself, rfl, rfl⟩
      · rw [happ.header]
        exact headerFrom_accepting h.opened hadm hscope
      · cases hself.symm.trans hop
        have hstored : db'.versions.lookup ⟨request.documentKey, newVersion db request⟩ =
            some (newDocument sha request (newReceipt managed.inner db request managed.writeEpoch)) := by
          rw [happ.versions]
          exact AList.lookup_insert _
        have hhist : db.header.historyId = db'.header.historyId := by
          rw [happ.header]
          rfl
        exact ⟨_, _, rfl, rfl, hhist, hstored, rfl, rfl⟩

lemma effect_marking
    (hfits : (Pc.marking receipt).Fits actor (db.operation actor.operationKey) revision) :
    Effect managed actor db revision (.marking receipt)
      (committed db (fun _ => .ok (.answers (.unconfirmed receipt)))
        (markUnconfirmed managed.inner db (some actor.principal) actor.operationId)) := by
  cases hm : markUnconfirmed managed.inner db (some actor.principal) actor.operationId with
  | error status =>
    exact .quiet (Quiet.plain (x := .error status) (plain_error (plain_moveOutcome h.opened _ hm))
      fun _ h => nomatch h)
  | ok result =>
    obtain ⟨outcome, db'⟩ := result
    obtain ⟨operation, hop, _, hout⟩ := hfits
    obtain ⟨_, hheld, ⟨hnext, -, -⟩ | ⟨_, _, version, -, hheld', -, -, -, rfl⟩⟩ :=
      moveOutcome_ok hm
    · obtain rfl := some.inj (hop.symm.trans hheld)
      rw [hout] at hnext
      cases hnext
    · exact .marks rfl (h.withOutcome hheld hheld')

lemma effect_deciding {retry : Bool} {settled : Settled}
    (hfits : (Pc.deciding retry receipt settled).Fits actor (db.operation actor.operationKey)
    revision) : Effect managed actor db revision (.deciding retry receipt settled)
    (committed db (fun outcome => .ok (afterSettle retry receipt settled outcome))
    (settleOutcome managed.inner db (some actor.principal) actor.operationId settled)) := by
  cases hm : settleOutcome managed.inner db (some actor.principal) actor.operationId settled with
  | error status =>
    exact .quiet (Quiet.plain (x := .error status) (plain_error (plain_moveOutcome h.opened _ hm))
      fun _ h => nomatch h)
  | ok result =>
    obtain ⟨outcome, db'⟩ := result
    obtain ⟨⟨operation, hop, hreceipt, hpres⟩, hsett⟩ := hfits
    obtain ⟨held, hheld, hmoved⟩ := moveOutcome_ok hm
    obtain rfl := some.inj (hop.symm.trans hheld)
    rcases hmoved with ⟨hnext, rfl, rfl⟩ | ⟨atRevision, held, version, hnext, hheld, -, -, -, rfl⟩
    · -- the record was settled before this transaction
      refine .quiet ?_
      cases hout : operation.outcome with
      | accepted => exact .accepted hop hreceipt hout (settledReceipt_eq retry) fun hphase => nomatch hphase
      | unconfirmed =>
        rw [hout] at hnext
        cases settled <;> cases hnext
      | fenced =>
        cases settled with
        | accepted => exact .goes ⟨operation, hop, hreceipt, hout⟩ rfl
        | fenced atRevision =>
          have heq := (hsett atRevision rfl).trans (hpres hout).symm
          exact .refused (fun _ => ⟨operation, hop, heq ▸ decision_of_fenced hreceipt hout⟩)
            fun hphase => nomatch hphase
    · obtain rfl := some.inj (hreceipt.symm.trans hheld)
      have hsound : Sound managed actor (db.withOutcome actor.operationKey operation version
          ⟨receipt.documentKey, receipt.version⟩ outcome atRevision) := h.withOutcome hop hreceipt
      cases hout : operation.outcome with
      | accepted | fenced =>
        rw [hout] at hnext
        cases hnext
      | unconfirmed =>
        rw [hout] at hnext
        cases settled with
        | accepted =>
          cases hnext
          have hdec : { operation with outcome := .accepted, fencedAtRevision := 0 }.decision =
              some (.accepted { receipt with replayed := false }) := decision_of_accepted hreceipt rfl
          refine .settles hop hout hsound withOutcome_operation rfl (fun hf => nomatch hf) ?_
          rw [hdec]
          exact congrArg (fun r => some (Decision.accepted r)) (settledReceipt_eq retry)
        | fenced r =>
          obtain ⟨rfl, rfl⟩ := Prod.mk.inj (some.inj hnext)
          have hdec : { operation with outcome := .fenced, fencedAtRevision := r }.decision =
              some (.fenced (fenced receipt r)) := decision_of_fenced hreceipt rfl
          refine .settles hop hout hsound withOutcome_operation rfl (fun _ => hsett r rfl) ?_
          rw [hdec]
          exact decision_refused (isFence_fenced receipt r)

end

lemma quiet_looking [DecidableEq D] (hid : request.operationId = actor.operationId) :
    Quiet actor (db.operation actor.operationKey) revision (.looking request)
      (orRefused (firstLook sha db actor request)) := by
  have hkey : (⟨some actor.principal, request.operationId⟩ : OperationKey) = actor.operationKey :=
    hid ▸ rfl
  refine .replays (hkey ▸ replays_firstLook) rfl fun next hnext => ?_
  obtain ⟨recorded, _, h⟩ := bind_ok.1 hnext
  cases recorded with
  | none =>
    obtain rfl := pure_ok.1 h
    exact .goes hid rfl
  | some operation =>
    obtain ⟨_, h⟩ := rest_ok h
    cases hout : operation.outcome with
    | accepted =>
      simp only [hout] at h
      obtain rfl := pure_ok.1 h
      exact .goes hid rfl
    | unconfirmed =>
      simp only [hout] at h
      obtain rfl := pure_ok.1 h
      exact .goes trivial rfl
    | fenced =>
      simp only [hout] at h
      obtain ⟨_, h⟩ := rest_ok h
      cases h

lemma quiet_finding [DecidableEq D] (h : Sound managed actor db)
    (hid : request.operationId = actor.operationId) :
    Quiet actor (db.operation actor.operationKey) revision (.finding request)
      (orRefused (retryLook managed sha db actor request)) := by
  have hkey : (⟨some actor.principal, request.operationId⟩ : OperationKey) = actor.operationKey :=
    hid ▸ rfl
  unfold retryLook
  cases hl : acceptLookup managed.inner sha db request (some actor.principal) with
  | error status =>
    exact .refused (hkey ▸ replays_acceptLookup h.opened status hl) fun _ _ => rfl
  | ok result =>
    obtain ⟨key, found⟩ := result
    obtain ⟨rfl, hfound⟩ := acceptLookup_found hl
    cases found with
    | none => exact .goes ⟨hid, hkey⟩ rfl
    | some written =>
      obtain ⟨operation, hop, hretry⟩ := hfound written rfl
      rw [hkey] at hop
      obtain ⟨receipt, version, hbacked⟩ := h.backed operation hop
      obtain ⟨hout, hwritten⟩ := retryReceipt_answered hretry hbacked.recorded hbacked.history
      exact quiet_afterAccept hop hbacked.recorded hwritten hout rfl rfl

lemma quiet_settling {retry : Bool} :
    Quiet actor (db.operation actor.operationKey) revision (.settling retry)
      (orRefused (settleLook db actor retry)) := by
  refine .replays replays_settleLook rfl fun next hnext => ?_
  obtain ⟨recorded, hrecd, operation, hoperation, receipt, hreceipt, h⟩ := bind₃_ok.1 hnext
  have hreceipt := okOr_ok.1 hreceipt
  have hop := (recordedOperation_ok hrecd).symm.trans (okOr_ok.1 hoperation)
  cases hout : operation.outcome with
  | accepted =>
    simp only [hout] at h
    obtain rfl := pure_ok.1 h
    exact .accepted hop hreceipt hout (settledReceipt_eq retry) fun _ => rfl
  | unconfirmed =>
    simp only [hout] at h
    obtain rfl := pure_ok.1 h
    refine .sees ⟨operation, hop, hreceipt, fun hf => ?_⟩ rfl hop fun hf => ?_
    · rw [hout] at hf
      cases hf
    · rw [hout] at hf
      cases hf
  | fenced =>
    simp only [hout] at h
    cases h

/-- The revision of a fence read back. -/
lemma quiet_rereading {retry : Bool}
    (hfits : (Pc.rereading retry receipt).Fits actor (db.operation actor.operationKey) revision) :
    Quiet actor (db.operation actor.operationKey) revision (.rereading retry receipt)
      (orRefused ((rereadRevision db actor).map fun atRevision =>
        .answers (.refused (fenced receipt atRevision)))) := by
  have hplain : Plain (rereadRevision db actor) := plain_recordedOperation.bind fun _ _ => plain_ok _
  refine .plain hplain.map fun next hnext => ?_
  obtain ⟨atRevision, hread, rfl⟩ := map_ok.1 hnext
  obtain ⟨operation, hop, hreceipt, hout⟩ := hfits
  obtain ⟨recorded, hrecd, h⟩ := bind_ok.1 hread
  have hrecd := (recordedOperation_ok hrecd).trans hop
  obtain rfl : operation.fencedAtRevision = atRevision := by
    rw [← pure_ok.1 h, hrecd]
    rfl
  exact .refused (fun _ => ⟨operation, hop, decision_of_fenced hreceipt hout⟩)
    fun hphase => nomatch hphase

/-- **What a step of a call does**, by where the call stands. -/
theorem effect_advance [DecidableEq D] (h : Sound managed actor db)
    (hfits : pc.Fits actor (db.operation actor.operationKey) authority.revision) :
    Effect managed actor db authority.revision pc
      (advance managed sha actor authority lease db pc) := by
  cases pc with
  | looking request => exact .quiet (quiet_looking hfits)
  | admitting request =>
    refine .quiet (.plain (plain_admitLease authority lease).map fun next hnext => ?_)
    obtain ⟨_, -, rfl⟩ := map_ok.1 hnext
    exact .goes hfits rfl
  | finding request => exact .quiet (quiet_finding h hfits)
  | writing request key =>
    obtain ⟨-, rfl⟩ := hfits
    exact effect_writing h
  | judging receipt =>
    obtain ⟨operation, hop, hreceipt, hout⟩ := hfits
    unfold advance
    cases lease.checkFresh with
    | ok _ => exact .quiet (.accepted hop hreceipt hout rfl fun hphase => nomatch hphase)
    | error _ => exact .quiet (.goes ⟨operation, hop, hreceipt, hout⟩ rfl)
  | marking receipt => exact effect_marking h hfits
  | settling retry => exact .quiet quiet_settling
  | checking retry receipt =>
    refine .quiet (.plain (plain_checkFresh lease).map fun next hnext => ?_)
    obtain ⟨_, -, rfl⟩ := map_ok.1 hnext
    exact .goes hfits rfl
  | entering retry receipt =>
    unfold advance
    cases admitLease authority lease with
    | ok _ => exact .quiet (.goes ⟨hfits, fun _ hs => nomatch hs⟩ rfl)
    | error _ => exact .quiet (.goes hfits rfl)
  | rechecking retry receipt =>
    refine .quiet (.plain (plain_checkFresh lease).map fun next hnext => ?_)
    obtain ⟨_, -, rfl⟩ := map_ok.1 hnext
    exact .goes ⟨hfits, fun _ hs => (Settled.fenced.inj hs).symm⟩ rfl
  | deciding retry receipt settled => exact effect_deciding h hfits
  | rereading retry receipt => exact .quiet (quiet_rereading hfits)

end Steps

end ProtomoltSearch.Catalog
