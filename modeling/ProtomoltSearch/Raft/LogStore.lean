import ProtomoltSearch.Foundations.OrderedMap
import ProtomoltSearch.Foundations.Overflow
import ProtomoltSearch.Foundations.Runs

/-!
# The Raft log store

The log a control node keeps beside its store (`raft/log_store.rs`): a header with the vote, the
committed position and the purge point, the entries under their indices, and the purge that is still
owed. Every write is one transaction under a write lock.

A purge stops at the position the hosted store has applied (`appliedFloor`); what is left of it is
recorded as deferred, and completed when the store has caught up: at start, or at an append of a run
in which the library asked for it (`settleLocked`).

The payload of an entry, the length of its encoding and whether the build checks overflow are
parameters.
-/

namespace ProtomoltSearch.Raft

/-- A position in the replicated log. -/
structure LogId where
  term : U64
  nodeId : U64
  index : U64
  deriving DecidableEq

structure Vote where
  term : U64
  nodeId : U64
  committed : Bool
  deriving DecidableEq

structure Entry (P : Type) where
  logId : LogId
  payload : P
  deriving DecidableEq

inductive ErrorSubject where
  | logs
  | logIndex (index : U64)
  deriving DecidableEq

inductive ErrorVerb where
  | read
  | write
  | delete
  deriving DecidableEq

structure StorageError where
  subject : ErrorSubject
  verb : ErrorVerb
  message : String
  deriving DecidableEq

/-- What a call answers; a call may panic. -/
abbrev Answer := Except (Failure StorageError) Unit

/-- What the file holds. -/
structure Disk (P : Type) where
  vote : Option Vote
  committed : Option LogId
  lastPurged : Option LogId
  log : OrderedMap U64 (Entry P)
  /-- The purge position the library asked for and a bounded purge has not reached yet. -/
  deferredPurge : Option LogId

/-- The hosted store, as the log sees it: whether it is in place, and the position it has applied. -/
structure Hosted where
  present : Bool
  lastApplied : Option LogId
  deriving DecidableEq

/-- A log store and the store it is hosted beside. -/
structure Node (P : Type) where
  disk : Disk P
  /-- The highest index the library asked to purge to in this run. -/
  requestedPurge : Option U64
  /-- Whether a call panicked under the write lock; every later one then panics at the lock. -/
  poisoned : Bool
  bound : Bool
  hosted : Hosted

variable {P : Type}

def Node.create : Node P where
  disk := ⟨none, none, none, .empty, none⟩
  requestedPurge := none
  poisoned := false
  bound := false
  hosted := ⟨false, none⟩

namespace Disk

def purgedIndex (d : Disk P) : Option U64 := d.lastPurged.map LogId.index

def firstLogIndex (d : Disk P) : Option U64 := d.log.first?.map Prod.fst

/-- The position the last entry itself records. -/
def lastLogId (d : Disk P) : Option LogId := d.log.last?.map fun e => e.2.logId

/-- Remove every entry up to a position, record it as purged and set or clear the deferred purge. -/
def purgeLocked (d : Disk P) (logId : LogId) (deferred : Option LogId) : Disk P :=
  { d with
    log := d.log.filter fun index => decide (logId.index < index)
    lastPurged := some logId
    deferredPurge := deferred }

def recordDeferredPurgeLocked (d : Disk P) (deferred : Option LogId) : Disk P :=
  { d with deferredPurge := deferred }

/-- Remove every entry at or after a position. -/
def truncateLocked (d : Disk P) (logId : LogId) : Disk P :=
  { d with log := d.log.filter fun index => decide (index < logId.index) }

end Disk

/-- What the hosted store has applied, as a bound on purges. -/
inductive Floor where
  | unbound
  /-- The store is between swaps or has applied nothing. -/
  | nothing
  | applied (logId : LogId)
  deriving DecidableEq

namespace Node

def appliedFloor (n : Node P) : Floor :=
  if n.bound then
    if n.hosted.present then
      match n.hosted.lastApplied with
      | none => .nothing
      | some applied => .applied applied
    else .nothing
  else .unbound

/-- How far a purge to a position may go. -/
def purgeUpto (n : Node P) (logId : LogId) : Option LogId :=
  match n.appliedFloor with
  | .unbound => some logId
  | .applied applied => if logId.index ≤ applied.index then some logId else some applied
  | .nothing => none

/-- What a purge to `logId` that goes as far as `upto` leaves owed. -/
def deferredAfter (recorded upto : Option LogId) (logId : LogId) : Option LogId :=
  let owed := some ((recorded.filter fun d => decide (logId.index < d.index)).getD logId)
  match upto with
  | some upto =>
    if logId.index ≤ upto.index then recorded.filter fun d => decide (upto.index < d.index) else owed
  | none => owed

/-- The target and the purge point of a purge that would go back. -/
def goesBack (upto : Option LogId) (purged : Option U64) : Option (U64 × U64) :=
  match upto, purged with
  | some upto, some purged => if upto.index < purged then some (upto.index, purged) else none
  | _, _ => none

def purge (n : Node P) (logId : LogId) : Node P × Answer :=
  let upto := n.purgeUpto logId
  match goesBack upto n.disk.purgedIndex with
  | some (target, purged) =>
    (n, refuse ⟨.logs, .delete,
      s!"raft log purge to index {target.val} is below the purge point {purged.val} " ++
        s!"(the library asked {logId.index.val}, the store's position bounds it)"⟩)
  | none =>
    let requested := match n.requestedPurge with
      | none => logId.index
      | some requested => max requested logId.index
    let deferred := deferredAfter n.disk.deferredPurge upto logId
    let disk := match upto with
      | some upto => n.disk.purgeLocked upto deferred
      | none => n.disk.recordDeferredPurgeLocked deferred
    ({ n with requestedPurge := some requested, disk := disk }, .ok ())

end Node

inductive Settle where
  | start
  | append
  deriving DecidableEq

namespace Node

/-- Where a settle purges to, and what it leaves owed. -/
def settleTarget (n : Node P) (applied : LogId) (mode : Settle) : Option LogId × Option LogId :=
  match n.disk.deferredPurge with
  | some deferred =>
    if deferred.index ≤ applied.index then (some deferred, none)
    else
      match mode with
      | .start => (some applied, some deferred)
      | .append => (none, some deferred)
  | none => if n.disk.firstLogIndex.isNone then (some applied, none) else (none, none)

/-- Whether the library gave up the entries up to a position. At start it has not read the log yet. -/
def asked (n : Node P) (target : LogId) : Settle → Bool
  | .start => true
  | .append => n.requestedPurge.any fun requested => decide (target.index ≤ requested)

def settleDisk (n : Node P) (applied : LogId) (mode : Settle) : Disk P :=
  match n.settleTarget applied mode with
  | (none, _) => n.disk
  | (some target, keep) =>
    if n.disk.purgedIndex.any fun purged => decide (target.index ≤ purged) then
      if n.disk.deferredPurge.isSome && keep.isNone then n.disk.recordDeferredPurgeLocked none
      else n.disk
    else if n.asked target mode then n.disk.purgeLocked target keep
    else n.disk

variable (checks : Bool)

/-- The index after the purge point, where the log starts. -/
def startIndex (purged : Option U64) : Except (Failure StorageError) U64 :=
  match purged with
  | none => .ok (U64.wrap 0)
  | some purged => U64.add checks purged (U64.wrap 1)

/-- The entries follow the purge point. -/
def checkContiguous (d : Disk P) (applied : LogId) : Answer :=
  match d.firstLogIndex with
  | none => .ok ()
  | some first => do
    let start ← startIndex checks d.purgedIndex
    if first = start then .ok ()
    else
      refuse ⟨.logs, .read,
        s!"raft log holds entries from index {first.val} after a purge at " ++
          s!"{(d.purgedIndex.getD (U64.wrap 0)).val}; the store applied {applied.index.val}"⟩

/-- Complete a purge the store has caught up with, as far as this may be done here. -/
def settleLocked (n : Node P) (mode : Settle) : Node P × Answer :=
  match n.appliedFloor with
  | .applied applied =>
    let disk := n.settleDisk applied mode
    ({ n with disk := disk }, checkContiguous checks disk applied)
  | _ => (n, .ok ())

/-- Run a call under the write lock. -/
def locked (call : Node P → Node P × Answer) (n : Node P) : Node P × Answer :=
  if n.poisoned then (n, .error .panicked)
  else
    let (n', answer) := call n
    ({ n' with poisoned := decide (answer = .error .panicked) }, answer)

/-- Bind the hosted store, before the library reads the log. -/
def bindAppliedFloor (n : Node P) : Node P × Answer :=
  locked (fun n => n.settleLocked checks .start) { n with bound := true }

end Node

/-- One entry may not exceed this many bytes. -/
def maxEntryBytes : ℕ := 2 * 1024 * 1024

section

variable (checks : Bool) (encodedLen : Entry P → ℕ)

/-- The index the next entry must have; `none` on a log that never held an entry. -/
def Disk.expectedIndex (d : Disk P) : Except (Failure StorageError) (Option U64) :=
  match d.lastLogId.map LogId.index, d.purgedIndex with
  | some last, _ => some <$> U64.add checks last (U64.wrap 1)
  | none, some purged => some <$> U64.add checks purged (U64.wrap 1)
  | none, none => .ok none

/-- Append one entry; `expected` is the index it must have. -/
def appendEntry (st : OrderedMap U64 (Entry P) × Option U64) (entry : Entry P) :
    Except (Failure StorageError) (OrderedMap U64 (Entry P) × Option U64) := do
  let index := entry.logId.index
  refuseIf (st.2.any fun next => decide (next ≠ index)) (.refused ⟨.logIndex index, .write,
    s!"appending index {index.val} would leave a hole; the next index is " ++
      s!"{(st.2.getD (U64.wrap 0)).val}"⟩)
  refuseIf (decide (maxEntryBytes < encodedLen entry))
    (.refused ⟨.logIndex index, .write, "raft entry exceeds the 2 MiB bound"⟩)
  let next ← U64.add checks index (U64.wrap 1)
  .ok (st.1.insert index entry, some next)

def Disk.appendLocked (d : Disk P) (entries : List (Entry P)) :
    Except (Failure StorageError) (Disk P) := do
  let expected ← d.expectedIndex checks
  let (log, _) ← entries.foldlM (appendEntry checks encodedLen) (d.log, expected)
  .ok { d with log := log }

/-- An append under the write lock: a settle, in its own transaction, and the entries. -/
def Node.settleAndAppend (entries : List (Entry P)) (n : Node P) : Node P × Answer :=
  match n.settleLocked checks .append with
  | (settled, .error e) => (settled, .error e)
  | (settled, .ok ()) =>
    match settled.disk.appendLocked checks encodedLen entries with
    | .error e => (settled, .error e)
    | .ok disk => ({ settled with disk := disk }, .ok ())

def Node.appendSync (n : Node P) (entries : List (Entry P)) : Node P × Answer :=
  Node.locked (settleAndAppend checks encodedLen entries) n

end

namespace Node

def truncateSync (n : Node P) (logId : LogId) : Node P × Answer :=
  locked (fun n =>
    match n.disk.deferredPurge.filter fun d => decide (logId.index ≤ d.index) with
    | some deferred =>
      (n, refuse ⟨.logs, .delete,
        s!"raft log truncate from index {logId.index.val} reaches into a purge deferred to " ++
          s!"{deferred.index.val}"⟩)
    | none => ({ n with disk := n.disk.truncateLocked logId }, .ok ())) n

def saveVote (n : Node P) (vote : Vote) : Node P × Answer :=
  locked (fun n => ({ n with disk := { n.disk with vote := some vote } }, .ok ())) n

def saveCommitted (n : Node P) (committed : Option LogId) : Node P × Answer :=
  locked (fun n => ({ n with disk := { n.disk with committed := committed } }, .ok ())) n

/-- The process ends and the file is opened again. -/
def reopen (n : Node P) : Node P :=
  { n with requestedPurge := none, poisoned := false, bound := false }

end Node

/-- What happens to a log store. -/
inductive Op (P : Type) where
  | append (entries : List (Entry P))
  /-- The process ends in an append, between its two transactions, and is started again. -/
  | appendInterrupted
  | truncate (logId : LogId)
  | purge (logId : LogId)
  | saveVote (vote : Vote)
  | saveCommitted (committed : Option LogId)
  | bindAppliedFloor
  | restart
  | host (hosted : Hosted)
  deriving DecidableEq

section

variable (checks : Bool) (encodedLen : Entry P → ℕ)

/-- The node after an operation, accepted or not. -/
def next (n : Node P) : Op P → Node P
  | .append entries => (n.appendSync checks encodedLen entries).1
  | .appendInterrupted => (Node.locked (fun n => n.settleLocked checks .append) n).1.reopen
  | .truncate logId => (n.truncateSync logId).1
  | .purge logId => (Node.locked (fun n => n.purge logId) n).1
  | .saveVote vote => (n.saveVote vote).1
  | .saveCommitted committed => (n.saveCommitted committed).1
  | .bindAppliedFloor => (n.bindAppliedFloor checks).1
  | .restart => n.reopen
  | .host hosted => { n with hosted := hosted }

end

end ProtomoltSearch.Raft
