import ProtomoltSearch.Foundations.Runs
import ProtomoltSearch.Receiver.Journal

/-!
# Live authority over a replay journal

A stored policy is not permission by itself. A publisher opens a session, begins a refresh before it asks
the control authority, and publishes the answer; only then, and until the deadline counted from the
beginning of the refresh, are frames taken. Another session, a suspension or a plain publication closes
admission and makes the answers that are still under way worthless.

Every call holds the authority's lock from its first look to its commit, so that calls are steps. A
session is dropped only when none of its refreshes is left. The clock only goes forward.
-/

namespace ProtomoltSearch.Receiver

open Catalog (checkedAdd)

/-- `authority::Freshness`. Times are in nanoseconds. -/
structure Freshness where
  generation : ℕ
  refresh : ℕ
  deadline : Option ℕ
  exhausted : Bool
  deriving DecidableEq

def Freshness.default : Freshness := ⟨0, 0, none, false⟩

/-- `MAX_AUTHORITY_VALIDITY`: 30 seconds. -/
def maxAuthorityValidity : ℕ := 30 * 10 ^ 9

/-- `Freshness::invalidate`: what it answers, and what it leaves. -/
def Freshness.invalidate (state : Freshness) : Except Status Unit × Freshness :=
  if state.exhausted then
    (.error (.unavailable "replay authority counters exhausted"), { state with deadline := none })
  else match checkedAdd state.generation 1 with
    | some next => (.ok (), { state with deadline := none, generation := next, refresh := 0 })
    | none => (.error (.unavailable "replay authority session generation exhausted"),
        { state with deadline := none, exhausted := true })

/-- `Freshness::check`. -/
def Freshness.check (state : Freshness) (now : ℕ) (format : Format) : Except Status Unit :=
  refuseIf (state.exhausted || format != .authorized ||
      !state.deadline.any fun deadline => decide (now < deadline))
    (.unavailable "replay requires a fresh live control-authority decision")

def Stored.append (stored : Stored) (frame : ReplayJournalFrame) : Stored :=
  { stored with
    frames := stored.frames.insert frame.sequence frame
    header := { stored.header with
      acceptedSequence := frame.sequence
      sourceClock := frame.sourceClock
      headSha256 := frame.sha256 } }

/-- The freshness of a frame from a peer; one from the local kernel needs none. -/
def checkPeer (fresh : Freshness) (peer : Option Bytes) (now : ℕ) (format : Format) :
    Except Status Unit :=
  if peer.isSome then fresh.check now format else .ok ()

/-- The last part of `accept_inner`: a frame that is held already is answered again, the next one is
added. The clock is read once more, immediately before the answer or the commit. -/
def appendFrame (codec : Codec) (journal : ReplayJournal) (stored : Stored) (fresh : Freshness)
    (frame : ReplayJournalFrame) (peer : Option Bytes) (last : ℕ) :
    Except Status (ReplayJournalReceipt × Stored) :=
  if frame.sequence ≤ stored.header.acceptedSequence then do
    let held ← journal.readFrame codec stored.frames frame.sequence
    refuseIf (held != frame)
      (.alreadyExists "replay sequence already names different content")
    checkPeer fresh peer last stored.header.formatVersion
    return (journal.receipt frame true, stored)
  else do
    refuseIf (checkedAdd stored.header.acceptedSequence 1 != some frame.sequence ||
        frame.previousSha256 != stored.header.headSha256 ||
        decide (frame.sourceClock ≤ stored.header.sourceClock))
      (.failedPrecondition
        "replay frame has a sequence gap, divergent chain or non-increasing source clock")
    checkPeer fresh peer last .authorized
    return (journal.receipt frame false, stored.append frame)

/-- `ReplayJournal::accept_inner`, with the clock where it is first and last read. -/
def acceptInner (codec : Codec) (journal : ReplayJournal) (stored : Stored) (fresh : Freshness)
    (frame : ReplayJournalFrame) (peer : Option Bytes) (first last : ℕ) :
    Except Status (ReplayJournalReceipt × Stored) := do
  validateFrame codec journal.digest frame
  journal.checkedHeader codec stored
  let policy ← journal.readPolicy codec stored
  journal.authorizePeer policy peer stored.header.admissionFenced
  checkPeer fresh peer first stored.header.formatVersion
  appendFrame codec journal stored fresh frame peer last

/-- A handle of a session: the generation it was opened in, and whether it is still held. -/
structure Session where
  generation : ℕ
  held : Bool
  deriving DecidableEq

/-- A refresh: the session it borrows, its place in the counters, its deadline, whether it is held. -/
structure Refresh where
  session : ℕ
  generation : ℕ
  refresh : ℕ
  deadline : ℕ
  held : Bool
  deriving DecidableEq

/-- A receiver that is running: what is durable, and what is in memory. -/
structure Node where
  stored : Stored
  fresh : Freshness
  now : ℕ
  sessions : List Session
  refreshes : List Refresh

/-- How a commit can end: it is done, it failed, or it is done and failed to say so. -/
inductive Commit where
  | done
  | failed
  | unreported
  deriving DecidableEq

/-- What a commit leaves, and whether its caller learns of it. -/
def Commit.end (commit : Commit) (stored stored' : Stored) : Stored × Bool :=
  match commit with
  | .done => (stored', true)
  | .failed => (stored, false)
  | .unreported => (stored', false)

inductive Event where
  /-- `authority_session`. -/
  | session
  /-- `begin_refresh` on a session, with the clock read some time before it gets the lock. -/
  | begin (session validFor ago : ℕ)
  /-- `ReplayAuthorityRefresh::publish`, with the time to its first and to its second look at the
  clock. -/
  | publish (refresh : ℕ) (policy : ReplayAdmissionPolicy) (commit : Commit) (wait persist : ℕ)
  | forget (refresh : ℕ)
  | drop (session : ℕ)
  /-- `suspend_authorization`. -/
  | suspend
  /-- `publish_authorization`. -/
  | authorize (policy : ReplayAdmissionPolicy) (commit : Commit)
  /-- A frame is offered, by a peer or by the local kernel. -/
  | offer (frame : ReplayJournalFrame) (peer : Option Bytes) (commit : Commit) (wait append : ℕ)
  | wait (time : ℕ)
  | restart
  deriving DecidableEq

namespace Node

variable (codec : Codec) (journal : ReplayJournal) (s : Node)

/-- `ReplayJournal::authority_session`. -/
def openSession : Node :=
  let (result, fresh) := s.fresh.invalidate
  match result with
  | .ok () => { s with fresh, sessions := s.sessions ++ [⟨fresh.generation, true⟩] }
  | .error _ => { s with fresh }

/-- `ReplayAuthoritySession::begin_refresh`. -/
def beginRefresh (session : ℕ) (handle : Session) (validFor ago : ℕ) : Node :=
  if validFor = 0 ∨ maxAuthorityValidity < validFor then s
  else if s.fresh.exhausted ∨ handle.generation ≠ s.fresh.generation then s
  else match checkedAdd s.fresh.refresh 1 with
    | some refresh => { s with
        fresh := { s.fresh with refresh }
        refreshes := s.refreshes ++
          [⟨session, handle.generation, refresh, s.now - ago + validFor, true⟩] }
    | none => { s with fresh := { s.fresh with deadline := none, exhausted := true } }

/-- A refresh is the one that may publish. -/
def current (handle : Refresh) : Bool :=
  !s.fresh.exhausted && handle.generation == s.fresh.generation &&
    handle.refresh == s.fresh.refresh

/-- `ReplayAuthorityRefresh::publish`: whether it returns, and what it leaves. -/
def publish (handle : Refresh)
    (policy : ReplayAdmissionPolicy) (commit : Commit) (wait persist : ℕ) : Bool × Node :=
  if !s.current handle then (false, s)
  else if handle.deadline ≤ s.now + wait then
    (false, { s with fresh := { s.fresh with deadline := none }, now := s.now + wait })
  else match journal.persistAuthorization codec s.stored policy with
    | .error _ =>
      (false, { s with fresh := { s.fresh with deadline := none }, now := s.now + wait })
    | .ok stored =>
      let (stored, reported) := commit.end s.stored stored
      let now := s.now + wait + persist
      if reported && decide (now < handle.deadline) then
        (true, { s with stored, fresh := { s.fresh with deadline := some handle.deadline }, now })
      else (false, { s with stored, fresh := { s.fresh with deadline := none }, now })

/-- A refresh handle is used up. -/
def release (refresh : ℕ) : Node :=
  { s with refreshes := s.refreshes.modify refresh fun handle => { handle with held := false } }

def dropSession (session : ℕ) (handle : Session) : Node :=
  { s with
    fresh := if s.fresh.generation = handle.generation then { s.fresh with deadline := none }
      else s.fresh
    sessions := s.sessions.modify session fun handle => { handle with held := false } }

/-- `ReplayJournal::publish_authorization`. -/
def authorize (policy : ReplayAdmissionPolicy) (commit : Commit) : Node :=
  let (result, fresh) := s.fresh.invalidate
  match result with
  | .error _ => { s with fresh }
  | .ok () =>
    match journal.persistAuthorization codec s.stored policy with
    | .error _ => { s with fresh }
    | .ok stored => { s with fresh, stored := (commit.end s.stored stored).1 }

def offer (frame : ReplayJournalFrame)
    (peer : Option Bytes) (commit : Commit) (wait append : ℕ) : Node :=
  let now := s.now + wait + append
  match acceptInner codec journal s.stored s.fresh frame peer (s.now + wait) now with
  | .error _ => { s with now }
  | .ok (_, stored) => { s with stored := (commit.end s.stored stored).1, now }

def borrowed (session : ℕ) : Bool :=
  s.refreshes.any fun handle => handle.session == session && handle.held

def next : Event → Node
  | .session => s.openSession
  | .begin session validFor ago =>
    match s.sessions[session]? with
    | some handle => if handle.held then s.beginRefresh session handle validFor ago else s
    | none => s
  | .publish refresh policy commit wait persist =>
    match s.refreshes[refresh]? with
    | some handle =>
      if handle.held then
        (s.publish codec journal handle policy commit wait persist).2.release refresh
      else s
    | none => s
  | .forget refresh => s.release refresh
  | .drop session =>
    match s.sessions[session]? with
    | some handle =>
      if handle.held && !s.borrowed session then s.dropSession session handle else s
    | none => s
  | .suspend => { s with fresh := s.fresh.invalidate.2 }
  | .authorize policy commit => s.authorize codec journal policy commit
  | .offer frame peer commit wait append => s.offer codec journal frame peer commit wait append
  | .wait time => { s with now := s.now + time }
  | .restart => { s with fresh := .default, sessions := [], refreshes := [] }

end Node

end ProtomoltSearch.Receiver
