import ProtomoltSearch.Catalog.Header
import ProtomoltSearch.Foundations.Table

/-!
# The replay journal

The receiver of a replay stream keeps one journal for one immutable assignment of a source to a target.
Frames are numbered from one and linked by digests. Once an admission policy is installed, a frame is
taken only from a peer it lists, and a policy that observes another history, epoch or residency than
the assignment's fences the journal for good.

The digests and encodings are parameters (`Codec`); records are held decoded.
-/

namespace ProtomoltSearch.Receiver

open Catalog (checkedAdd)

/-- The assignment of a replay stream: what a policy is compared with. -/
structure ReplayStreamBinding where
  contractVersion : ℕ
  workspace : String
  collection : String
  sourceShardId : String
  sourceHistoryId : Bytes
  sourceWalGeneration : ℕ
  sourceWriteEpoch : ℕ
  targetShardId : String
  targetHistoryId : Bytes
  targetWriteEpoch : ℕ
  topologyRevision : ℕ
  assignmentId : Bytes
  baselineClock : ℕ
  baselineSha256 : Bytes
  indexContractSha256 : Bytes
  deriving DecidableEq

structure ReplayJournalFrame where
  sequence : ℕ
  sourceClock : ℕ
  previousSha256 : Bytes
  record : Bytes
  sha256 : Bytes
  deriving DecidableEq

structure ReplayJournalReceipt where
  bindingSha256 : Bytes
  sequence : ℕ
  sourceClock : ℕ
  sha256 : Bytes
  accepted : Bool
  durable : Bool
  searchable : Bool
  replayed : Bool
  deriving DecidableEq

/-- Where a shard lives; `other` is any number the enumeration does not have. -/
inductive NodeResidency where
  | unspecified
  | server
  | device
  | other
  deriving DecidableEq

structure ReplayAdmissionPolicy where
  contractVersion : ℕ
  authorityId : Bytes
  revision : ℕ
  bindingSha256 : Bytes
  sourceCertificateSha256 : List Bytes
  sourceHistoryId : Bytes
  targetHistoryId : Bytes
  sourceWriteEpoch : ℕ
  targetWriteEpoch : ℕ
  sourceResidency : NodeResidency
  targetResidency : NodeResidency
  enabled : Bool
  deriving DecidableEq

/-- The formats of a journal: without a policy, with one from before live freshness, and with one. -/
inductive Format where
  | plain
  | legacyAuthorized
  | authorized
  deriving DecidableEq

structure ReplayJournalHeader where
  formatVersion : Format
  binding : ReplayStreamBinding
  bindingSha256 : Bytes
  acceptedSequence : ℕ
  sourceClock : ℕ
  headSha256 : Bytes
  admissionFenced : Bool
  deriving DecidableEq

/-- What is durable. -/
structure Stored where
  header : ReplayJournalHeader
  admission : Option ReplayAdmissionPolicy
  frames : Table ℕ ReplayJournalFrame

/-- What a WAL record says of itself. -/
structure WalEnvelope where
  seq : ℕ
  clock : ℕ
  hasOp : Bool
  deriving DecidableEq

/-- The encodings and digests of the journal. -/
structure Codec where
  frameLen : ReplayJournalFrame → ℕ
  policyLen : ReplayAdmissionPolicy → ℕ
  /-- `WalRecord::decode`, or why it fails. -/
  walRecord : Bytes → Except String WalEnvelope
  /-- `frame_digest`: of the binding's digest and the frame with its own digest cleared. -/
  frameDigest : Bytes → ReplayJournalFrame → Bytes

/-- A journal that is open: its assignment and the digest of it. -/
structure ReplayJournal where
  binding : ReplayStreamBinding
  digest : Bytes

def maxFrameBytes : ℕ := 64 * 2 ^ 20

/-- `validate_frame`. -/
def validateFrame (codec : Codec) (binding : Bytes) (frame : ReplayJournalFrame) :
    Except Status Unit := do
  refuseIf (decide (maxFrameBytes < codec.frameLen frame))
    (.resourceExhausted "replay frame exceeds 64 MiB")
  refuseIf (frame.sequence == 0 || frame.sourceClock == 0 || frame.previousSha256.length != 32 ||
      frame.sha256.length != 32 || frame.record.isEmpty)
    (.invalidArgument
      "replay frame requires sequence, source clock, record and 32-byte chain digests")
  let record ← (codec.walRecord frame.record).mapError fun e =>
    .invalidArgument ("invalid replay WAL envelope: " ++ e)
  refuseIf (record.seq == 0 || record.clock != frame.sourceClock || !record.hasOp)
    (.invalidArgument
      "replay frame disagrees with its WAL record clock or has no operation")
  refuseIf (frame.sha256 != codec.frameDigest binding frame)
    (.invalidArgument "replay frame digest differs from its binding or contents")

namespace ReplayJournal

variable (codec : Codec) (journal : ReplayJournal)

/-- `ReplayJournal::read_frame`. -/
def readFrame (frames : Table ℕ ReplayJournalFrame)
    (sequence : ℕ) : Except Status ReplayJournalFrame := do
  let frame ← okOr (frames.lookup sequence) (Status.dataLoss "replay journal frame is missing")
  refuseIf (decide (maxFrameBytes < codec.frameLen frame))
    (.dataLoss "stored replay frame exceeds its bound")
  (validateFrame codec journal.digest frame).mapError fun e => .dataLoss e.message
  refuseIf (frame.sequence != sequence) (.dataLoss "stored replay sequence differs from its key")
  return frame

/-- The frontier of the header is that of its last frame. -/
def checkHead (stored : Stored) : Except Status Unit :=
  if stored.header.acceptedSequence = 0 then
    refuseIf (stored.header.sourceClock != journal.binding.baselineClock ||
        stored.header.headSha256 != journal.digest)
      (.dataLoss "empty replay journal differs from its baseline")
  else do
    let frame ← journal.readFrame codec stored.frames stored.header.acceptedSequence
    refuseIf (frame.sourceClock != stored.header.sourceClock ||
        frame.sha256 != stored.header.headSha256 ||
        decide (stored.header.sourceClock ≤ journal.binding.baselineClock))
      (.dataLoss "replay journal head differs from its last frame")

/-- `ReplayJournal::checked_header`. -/
def checkedHeader (stored : Stored) : Except Status Unit := do
  refuseIf (stored.header.binding != journal.binding ||
      stored.header.bindingSha256 != journal.digest)
    (.failedPrecondition "replay journal format or immutable assignment differs")
  refuseIf (stored.frames.len != stored.header.acceptedSequence)
    (.dataLoss "replay journal frame count differs from its accepted tip")
  journal.checkHead codec stored

/-- `ReplayJournal::receipt`. -/
def receipt (frame : ReplayJournalFrame) (replayed : Bool) : ReplayJournalReceipt :=
  ⟨journal.digest, frame.sequence, frame.sourceClock, frame.sha256, true, true, false, replayed⟩

end ReplayJournal

/-- The residencies a policy may name. -/
def NodeResidency.known : NodeResidency → Bool
  | .server => true
  | .device => true
  | .unspecified => false
  | .other => false

/-- `ReplayJournal::validate_policy`. -/
def validatePolicy (policy : ReplayAdmissionPolicy) : Except Status Unit := do
  refuseIf (policy.contractVersion != 1 || policy.authorityId.length != 16 || policy.revision == 0 ||
      policy.bindingSha256.length != 32 || policy.sourceHistoryId.length != 16 ||
      policy.targetHistoryId.length != 16 || policy.sourceWriteEpoch == 0 ||
      policy.targetWriteEpoch == 0 || decide (64 < policy.sourceCertificateSha256.length) ||
      policy.sourceCertificateSha256.any (·.length != 32))
    (.invalidArgument
      "invalid replay admission policy version, identities, digests, epochs or peer count")
  refuseIf (!decide policy.sourceCertificateSha256.Nodup)
    (.invalidArgument "replay policy repeats a certificate fingerprint")
  refuseIf (!policy.sourceResidency.known || !policy.targetResidency.known)
    (.invalidArgument "replay policy requires explicit known source and target residency")

namespace ReplayJournal

variable (codec : Codec) (journal : ReplayJournal) (stored : Stored)
  (policy : ReplayAdmissionPolicy)

/-- `ReplayJournal::matches_live_assignment`. -/
def matchesLiveAssignment : Bool :=
  policy.sourceResidency == .server && policy.targetResidency == .server &&
    policy.sourceHistoryId == journal.binding.sourceHistoryId &&
    policy.targetHistoryId == journal.binding.targetHistoryId &&
    policy.sourceWriteEpoch == journal.binding.sourceWriteEpoch &&
    policy.targetWriteEpoch == journal.binding.targetWriteEpoch

/-- The policy a journal with one has to have. -/
def storedPolicy : Except Status (Option ReplayAdmissionPolicy) := do
  refuseIf (decide (8192 < codec.policyLen policy))
    (.dataLoss "stored replay admission policy exceeds its bound")
  (validatePolicy policy).mapError fun e => .dataLoss e.message
  refuseIf (policy.bindingSha256 != journal.digest)
    (.dataLoss "stored replay policy names another assignment")
  refuseIf (!stored.header.admissionFenced && !journal.matchesLiveAssignment policy)
    (.dataLoss "replay policy fencing observation lacks its permanent fence")
  return some policy

/-- `ReplayJournal::read_policy`. -/
def readPolicy : Except Status (Option ReplayAdmissionPolicy) :=
  match stored.header.formatVersion, stored.admission with
  | .plain, none =>
    if stored.header.admissionFenced then .error disagree else .ok none
  | .legacyAuthorized, some policy => journal.storedPolicy codec stored policy
  | .authorized, some policy => journal.storedPolicy codec stored policy
  | _, _ => .error disagree
where
  disagree : Status := .dataLoss "replay journal format and admission policy disagree"

/-- `ReplayJournal::authorize_peer`. -/
def authorizePeer (policy : Option ReplayAdmissionPolicy)
    (peer : Option Bytes) (permanentlyFenced : Bool) : Except Status Unit :=
  match policy, peer with
  | none, none => .ok ()
  | none, some _ =>
    .error (.permissionDenied "replay assignment has no installed authority decision")
  | some _, none =>
    .error (.unauthenticated "authorized replay journal requires a verified peer")
  | some policy, some peer =>
    refuseIf (permanentlyFenced || !policy.enabled ||
        !policy.sourceCertificateSha256.contains peer || !journal.matchesLiveAssignment policy)
      (.permissionDenied "replay peer or current assignment fencing state is not authorized")

/-- Is the policy a retry of the one that is held? It may not go back behind it. -/
def policyRetry : Option ReplayAdmissionPolicy → Except Status Bool
  | some held => do
    refuseIf (held.authorityId != policy.authorityId || decide (policy.revision < held.revision))
      (.failedPrecondition
        "replay authority incarnation differs or policy revision regressed")
    if held.revision = policy.revision then
      refuseIf (held != policy)
        (.alreadyExists "replay policy revision already names another decision")
      return stored.header.formatVersion == .authorized
    else return false
  | none => do
    refuseIf (stored.header.acceptedSequence != 0) (.failedPrecondition
      "cannot authorize a journal with unassigned accepted history; start a new assignment")
    return false

def record : Stored :=
  { stored with
    header := { stored.header with
      admissionFenced := stored.header.admissionFenced || !journal.matchesLiveAssignment policy
      formatVersion := .authorized }
    admission := some policy }

/-- `ReplayJournal::persist_authorization`: what its transaction leaves. -/
def persistAuthorization : Except Status Stored := do
  validatePolicy policy
  refuseIf (policy.bindingSha256 != journal.digest)
    (.failedPrecondition "replay policy names another assignment")
  journal.checkedHeader codec stored
  let held ← journal.readPolicy codec stored
  let retry ← policyRetry stored policy held
  if retry then return stored
  refuseIf (stored.header.admissionFenced && policy.enabled && journal.matchesLiveAssignment policy)
    (.failedPrecondition "replay assignment was permanently fenced; start a new assignment")
  return journal.record stored policy

/-- The journal `create` makes. -/
def create : Stored where
  header := ⟨.plain, journal.binding, journal.digest, 0, journal.binding.baselineClock, journal.digest,
    false⟩
  admission := none
  frames := ∅

end ReplayJournal

section

variable {codec : Codec} {journal : ReplayJournal} {stored stored' : Stored}
  {policy : ReplayAdmissionPolicy}

/-- A policy that is read is the one that is stored. -/
lemma readPolicy_eq_some (h : journal.readPolicy codec stored = .ok (some policy)) :
    stored.admission = some policy := by
  have hstored : ∀ p, journal.storedPolicy codec stored p = .ok (some policy) → some p = some policy := by
    intro p hp
    obtain ⟨_, _, hp⟩ := rest₂_ok hp
    obtain ⟨_, _, hp⟩ := rest₂_ok hp
    exact pure_ok.1 hp
  unfold ReplayJournal.readPolicy at h
  split at h
  · split at h
    · cases h
    · exact nomatch Except.ok.inj h
  · rename_i heq
    exact heq.trans (hstored _ h)
  · rename_i heq
    exact heq.trans (hstored _ h)
  · cases h

/-- **What recording a policy leaves**: nothing new if it is held already, or the policy. -/
theorem persistAuthorization_ok
    (h : journal.persistAuthorization codec stored policy = .ok stored') :
    (stored' = stored ∧ stored.admission = some policy) ∨ stored' = journal.record stored policy := by
  obtain ⟨_, -, _, -, _, -, h⟩ := bind₃_ok.1 h
  obtain ⟨held, hheld, retry, hretry, h⟩ := bind₂_ok.1 h
  cases retry with
  | false =>
    obtain ⟨_, h⟩ := rest_ok h
    exact .inr (pure_ok.1 h).symm
  | true =>
    refine .inl ⟨(pure_ok.1 h).symm, ?_⟩
    cases held with
    | none =>
      obtain ⟨_, hretry⟩ := rest_ok hretry
      exact nomatch pure_ok.1 hretry
    | some held =>
      obtain ⟨_, hretry⟩ := rest_ok hretry
      split at hretry
      · obtain ⟨⟨⟩, hsame, -⟩ := bind_ok.1 hretry
        have hsame : held = policy := by simpa using refuseIf_ok.1 hsame
        rw [readPolicy_eq_some hheld, hsame]
      · exact nomatch pure_ok.1 hretry

end

end ProtomoltSearch.Receiver
