import ProtomoltSearch.Foundations.Calls
import ProtomoltSearch.Replication.Records

/-!
# Live catch-up of the children of a split

The children of a shard that is split are built from a baseline of its log, and are then fed the rest of
it (`replication.rs`). The rows after the baseline are routed to the children by the hash of their stable
keys; an attempt asks each child how many rows it holds, and skips that many of those routed to it.

An attempt is a program of calls. Between two calls the source may append to its log and a child may stop
and start again, with what it had flushed and any part of what it had not.
-/

namespace ProtomoltSearch.Replication

variable {F P M : Type}

/-! ## The state of a split -/

/-- `values::fnv1a64_bytes`. -/
def fnv1a64Bytes (bytes : Bytes) : BitVec 64 :=
  bytes.foldl (fun hash byte => (hash ^^^ BitVec.ofNat 64 byte.toNat) * 0x100000001b3#64)
    0xcbf29ce484222325#64

/-- `coordinator::stable_routing_hash`. -/
def stableRoutingHash (key : Bytes) : ℕ := (fnv1a64Bytes key).toNat

/-- `LiveChild`, without its replica: the slots of its image, and those applied since. -/
structure LiveChild where
  addr : String
  hashLo : ℕ
  hashHi : ℕ
  slotOffset : ℕ
  base : Legs ℕ
  applied : Legs ℕ
  deriving DecidableEq

structure LiveReshardState where
  source : String
  sourceWalGeneration : ℕ
  sourceClock : ℕ
  oldTopologyGeneration : ℕ
  newTopologyGeneration : ℕ
  children : List LiveChild
  deriving DecidableEq

/-- The hash of the key lies in the child's range. -/
def LiveChild.owns (child : LiveChild) (key : Bytes) : Bool :=
  decide (child.hashLo ≤ stableRoutingHash key ∧ stableRoutingHash key ≤ child.hashHi)

/-- `LiveReshardState::route`. -/
def LiveReshardState.route (state : LiveReshardState) (key : Bytes) : Except String ℕ :=
  okOr (state.children.findIdx? (·.owns key))
    ("stable hash " ++ toString (stableRoutingHash key) ++ " is outside every child range")

/-- The loop of `validate_child_ranges`, over the ranges in the order of their starts. -/
def checkRanges : ℕ → List (ℕ × ℕ) → Except String Unit
  | _, [] => .ok ()
  | expected, (lo, hi) :: rest => do
    refuseIf (decide (lo ≠ expected ∨ hi < lo))
      ("live child ranges have a gap, overlap, or inversion at " ++ toString lo ++ "..=" ++
        toString hi ++ "; expected " ++ toString expected)
    if rest.isEmpty then
      refuseIf (decide (hi ≠ 2 ^ 64 - 1))
        ("live child ranges end at " ++ toString hi ++ ", not " ++ toString (2 ^ 64 - 1))
    else
      refuseIf (decide (2 ^ 64 - 1 ≤ hi)) "a child reaches the hash-space end too early"
      checkRanges (hi + 1) rest

/-- `validate_child_ranges`. -/
def validateChildRanges (children : List LiveChild) : Except String Unit := do
  refuseIf children.isEmpty "live reshard requires at least one child"
  checkRanges 0 ((children.map fun child => (child.hashLo, child.hashHi)).insertionSort
    fun r s => r.1 ≤ s.1)

/-! ## Calls -/

/-- The calls of an attempt. `message` is the next one of the stream that `readWal` has opened. -/
inductive Request (F P : Type) where
  | sourceHealth
  | childHealth (child : ℕ)
  | readWal (generation afterClock : ℕ)
  | message
  | add (child : ℕ) (row : Row F P)
  | flush (child : ℕ)

/-- What the calls answer. Adding a row answers the child's document contract. -/
def Reply (F P M : Type) : Request F P → Type
  | .sourceHealth => HealthResponse
  | .childHealth _ => HealthResponse
  | .readWal _ _ => List (ReadWalResponse F P M)
  | .message => Unit
  | .add _ _ => ℕ
  | .flush _ => Unit

abbrev Program (F P M : Type) (α : Type) : Type := Calls (Request F P) (Reply F P M) α

section Programs

/-- A call whose failure ends the attempt. -/
def ask (req : Request F P) (said : String → String) : Program F P M (Reply F P M req) := Calls.rpc req said

/-! ## The baseline -/

def captureTips : ℕ → List LiveChild → Program F P M (List LiveChild)
  | _, [] => return []
  | i, child :: rest => do
    let health : HealthResponse ← ask (.childHealth i) fun e => "child health " ++ child.addr ++ ": " ++ e
    refuseIf (health.slotOffset != child.slotOffset)
      ("child " ++ child.addr ++ " slot offset is " ++ toString health.slotOffset ++ ", expected " ++
        toString child.slotOffset)
    let rest ← captureTips (i + 1) rest
    return { child with base := ⟨health.numVectors, health.documentSlots⟩, applied := ⟨0, 0⟩ } :: rest

/-- `initialize_live_reshard`. -/
def initializeLiveReshard (source : String) (cutoffGeneration cutoffClock oldGeneration newGeneration : ℕ)
    (children : List LiveChild) : Program F P M LiveReshardState := do
  refuseIf (decide (newGeneration ≤ oldGeneration)) "new topology generation must be strictly newer"
  validateChildRanges children
  let health : HealthResponse ← ask .sourceHealth fun e => "source health " ++ source ++ ": " ++ e
  refuseIf (health.walGeneration != cutoffGeneration || decide (health.walHighWatermark < cutoffClock))
    ("source WAL moved outside the baseline cutoff: built from generation " ++
      toString cutoffGeneration ++ " clock " ++ toString cutoffClock ++ ", live generation " ++
      toString health.walGeneration ++ " clock " ++ toString health.walHighWatermark)
  let children ← captureTips 0 children
  return ⟨source, cutoffGeneration, cutoffClock, oldGeneration, newGeneration, children⟩

/-! ## An attempt -/

structure Attempt where
  updated : LiveReshardState
  skip : Legs (List ℕ)
  documentVersions : List ℕ
  highWatermark : ℕ
  completed : Bool
  prefixHealth : Option PrefixHealth

/-- How many rows each child holds beyond its checkpoint, and its document contract. -/
def surveyChildren : ℕ → List LiveChild → Program F P M (Legs (List ℕ) × List ℕ)
  | _, [] => return (⟨[], []⟩, [])
  | i, child :: rest => do
    let health : HealthResponse ← ask (.childHealth i) fun e => "child health " ++ child.addr ++ ": " ++ e
    refuseIf (decide (health.numVectors < child.base.vectors + child.applied.vectors ∨
        health.documentSlots < child.base.documents + child.applied.documents))
      ("child " ++ child.addr ++ " is behind its durable live-reshard checkpoint")
    let (skip, versions) ← surveyChildren (i + 1) rest
    return (⟨(health.numVectors - (child.base.vectors + child.applied.vectors)) :: skip.vectors,
        (health.documentSlots - (child.base.documents + child.applied.documents)) :: skip.documents⟩,
      health.documentContractVersion :: versions)

/-- One more row of a child is applied. -/
def Attempt.count (a : Attempt) (k : Kind) (child : ℕ) : Attempt :=
  { a with updated := { a.updated with
      children := a.updated.children.modify child fun c => { c with applied := c.applied.modify (· + 1) k } } }

/-- One row fewer of a child is to be skipped. -/
def Attempt.skipOne (a : Attempt) (k : Kind) (child : ℕ) : Attempt :=
  { a with skip := a.skip.modify (·.modify child (· - 1)) k }

/-- What a child that is sent a document has to answer. -/
def checkAnswer (version : ℕ) : Row F P → Except String Unit
  | .vector _ _ => .ok ()
  | .document document _ => requireSupported version (requiredVersion document)

def appendError : Kind → String
  | .vectors => "append child vector: "
  | .documents => "append child document: "

/-- A row is skipped if its child holds it, and sent to it otherwise. -/
def applyRow (k : Kind) (a : Attempt) (child : ℕ) (row : Row F P) : Program F P M Attempt :=
  if 0 < (a.skip.get k).getD child 0 then return (a.skipOne k child).count k child
  else do
    let version : ℕ ← ask (.add child row) fun e => appendError k ++ e
    checkAnswer version row
    return a.count k child

def applyVectors : Attempt → List (List F × Bytes) → Program F P M Attempt
  | a, [] => return a
  | a, (vector, key) :: rows => do
    let child ← a.updated.route key
    let a ← applyRow .vectors a child (.vector vector key)
    applyVectors a rows

def applyDocuments : Attempt → List (AddDocumentsRequest P × Bytes) → Program F P M Attempt
  | a, [] => return a
  | a, (document, key) :: rows => do
    let child ← a.updated.route key
    requireSupported (a.documentVersions.getD child 0) (requiredVersion document)
    requireFreshIngestReplay document
    let a ← applyRow .documents a child (.document document key)
    applyDocuments a rows

def applyRecord (a : Attempt) (record : WalRecord F P M) : Program F P M Attempt :=
  match record.op with
  | some (.addVectors add) => do
    let batch ← okOr add.batch "WAL vector record has no batch"
    refuseIf (batch.dim == 0 || batch.vectors.length % batch.dim != 0)
      "live WAL vector record has invalid dimensions"
    refuseIf (add.stableRoutingKeys.length != batch.vectors.length / batch.dim)
      "live child catch-up requires one stable key per vector"
    applyVectors a ((chunksExact batch.dim batch.vectors).zip add.stableRoutingKeys)
  | some (.addDocuments add) => do
    refuseIf (add.stableRoutingKeys.length != add.documents.length)
      "live child catch-up requires one stable key per document"
    applyDocuments a (add.documents.zip add.stableRoutingKeys)
  | some (.deleteDocument _) => .done (.error "live child catch-up refuses delete/replacement records")
  | some (.replacement _ _) => .done (.error "live child catch-up refuses delete/replacement records")
  | some (.snapshot generation) => .done (.error ("source rotated from snapshot generation " ++
      toString generation ++ "; rebuild the child baseline"))
  | some (.bind _) => return a
  | some .flush => return a
  | none => return a

def applyFrame (a : Attempt) (frame : ReadWalResponse F P M) : Program F P M Attempt :=
  if frame.completed then
    return { a with
      highWatermark := frame.highWatermark
      completed := true
      prefixHealth := some frame.prefixHealth }
  else
    applyRecord { a with highWatermark := frame.highWatermark } (frame.record.getD ⟨none⟩)

/-- The stream, to its end. -/
def applyFrames : Attempt → List (ReadWalResponse F P M) → Program F P M Attempt
  | a, [] => do
    let _ : Unit ← ask .message fun e => "stream live source WAL: " ++ e
    return a
  | a, frame :: frames => do
    let _ : Unit ← ask .message fun e => "stream live source WAL: " ++ e
    let a ← applyFrame a frame
    applyFrames a frames

def flushChildren : ℕ → List LiveChild → Program F P M Unit
  | _, [] => return ()
  | i, _ :: rest => do
    let _ : Unit ← ask (.flush i) fun e => "flush live child: " ++ e
    flushChildren (i + 1) rest

def verifyChildren (scoring : String) : ℕ → List LiveChild → Program F P M (Legs ℕ)
  | _, [] => return ⟨0, 0⟩
  | i, child :: rest => do
    let health : HealthResponse ← ask (.childHealth i) fun e =>
      "verify live child " ++ child.addr ++ ": " ++ e
    refuseIf (health.scoringFingerprint != scoring)
      ("child " ++ child.addr ++ " scoring fingerprint differs from source")
    let sum ← verifyChildren scoring (i + 1) rest
    return ⟨health.numVectors + sum.vectors, health.documentSlots + sum.documents⟩

/-- The end of an attempt: the prefix is complete, and the children are flushed and counted. -/
def finishAttempt (sourceHealth : HealthResponse) (a : Attempt) : Program F P M LiveReshardState := do
  refuseIf (!a.completed || a.skip.vectors.any (· != 0) || a.skip.documents.any (· != 0))
    "live child catch-up ended without a complete, reconciled prefix"
  let expected ← okOr a.prefixHealth "live WAL completion omitted prefix health"
  refuseIf (expected.slotOffset != sourceHealth.slotOffset)
    "live WAL prefix slot offset differs from source health"
  flushChildren 0 a.updated.children
  let sum ← verifyChildren expected.scoringFingerprint 0 a.updated.children
  refuseIf (sum.vectors != expected.numVectors || sum.documents != expected.documentSlots)
    ("live child verification count mismatch: source " ++ toString expected.numVectors ++ "/" ++
      toString expected.documentSlots ++ " vectors/documents, children " ++ toString sum.vectors ++ "/" ++
      toString sum.documents)
  return { a.updated with sourceClock := a.highWatermark }

/-- `catch_up_children_once`. -/
def catchUpChildrenOnce (state : LiveReshardState) : Program F P M LiveReshardState := do
  validateChildRanges state.children
  let sourceHealth : HealthResponse ← ask .sourceHealth fun e =>
    "source health " ++ state.source ++ ": " ++ e
  refuseIf (sourceHealth.walGeneration != state.sourceWalGeneration)
    ("source WAL rotated from generation " ++ toString state.sourceWalGeneration ++ " to " ++
      toString sourceHealth.walGeneration ++ "; install a new baseline")
  refuseIf (sourceHealth.deletedDocs != 0)
    "live child catch-up currently requires the append-only product contract; source has deletes"
  let (skip, versions) ← surveyChildren 0 state.children
  let frames : List (ReadWalResponse F P M) ←
    ask (.readWal state.sourceWalGeneration state.sourceClock) fun e => "read live source WAL: " ++ e
  let a ← applyFrames ⟨state, skip, versions, state.sourceClock, false, none⟩ frames
  finishAttempt sourceHealth a

end Programs

/-! ## The nodes -/

/-- A leg of a child: its slots, and how many of them are flushed. -/
structure Leg (α : Type) where
  slots : List α
  flushed : ℕ
  deriving DecidableEq

namespace Leg

variable {α : Type} (leg : Leg α)

def push (slots : List α) : Leg α := { leg with slots := leg.slots ++ slots }

def flush : Leg α := { leg with flushed := leg.slots.length }

/-- A restart keeps what is flushed, and the first `kept` slots if they are more. -/
def restart (kept : ℕ) : Leg α := { leg with slots := leg.slots.take (max leg.flushed kept) }

end Leg

/-- A child. A slot of a leg holds a row, or was passed over. -/
structure Child (F P : Type) where
  legs : Legs (Leg (Option (Row F P)))
  slotOffset : ℕ
  documentContractVersion : ℕ
  scoringFingerprint : String

def Row.kind : Row F P → Kind
  | .vector _ _ => .vectors
  | .document _ _ => .documents

namespace Child

variable (child : Child F P)

/-- What a child answers about itself; the fields of its own log are not looked at. -/
def healthResponse : HealthResponse where
  walGeneration := 0
  walClocked := false
  walHighWatermark := 0
  slotOffset := child.slotOffset
  numVectors := child.legs.vectors.slots.length
  documentSlots := child.legs.documents.slots.length
  liveDocs := 0
  deletedDocs := 0
  documentContractVersion := child.documentContractVersion
  scoringFingerprint := child.scoringFingerprint

/-- The slots a row takes. A document is placed past the tips of both legs (`apply_document_locked`), so it
passes over slots where there are more vectors than documents. -/
def placed (row : Row F P) : List (Option (Row F P)) :=
  match row.kind with
  | .vectors => [some row]
  | .documents => List.replicate
      (child.legs.vectors.slots.length - child.legs.documents.slots.length) none ++ [some row]

def add (row : Row F P) : Child F P :=
  { child with legs := child.legs.modify (·.push (child.placed row)) row.kind }

def flush : Child F P :=
  { child with legs := ⟨child.legs.vectors.flush, child.legs.documents.flush⟩ }

def restart (kept : Legs ℕ) : Child F P :=
  { child with legs := ⟨child.legs.vectors.restart kept.vectors,
      child.legs.documents.restart kept.documents⟩ }

end Child

/-- The source, the children by their places, and the children the attempt that is running has asked. -/
structure World (F P M : Type) where
  source : Source F P M
  children : ℕ → Child F P
  asked : List ℕ

namespace World

variable (w : World F P M)

def withChild (i : ℕ) (child : Child F P) : World F P M :=
  { w with children := Function.update w.children i child }

/-- How the nodes serve a call. That a child refuses a row without adding it is a call that is lost. -/
def serve : (req : Request F P) → Except String (Reply F P M req) × World F P M
  | .sourceHealth => (.ok w.source.healthResponse, w)
  | .childHealth i => (.ok (w.children i).healthResponse, { w with asked := i :: w.asked })
  | .readWal generation afterClock => (w.source.readWal generation afterClock, w)
  | .message => (.ok (), w)
  | .add i row => (.ok (w.children i).documentContractVersion, w.withChild i ((w.children i).add row))
  | .flush i => (.ok (), w.withChild i (w.children i).flush)

end World

inductive Happening (F P M : Type) where
  | append (record : WalRecord F P M) (health : PrefixHealth)
  | restart (child : ℕ) (kept : Legs ℕ)

def World.happen (w : World F P M) : Happening F P M → World F P M
  | .append record health =>
    { w with source := { w.source with log := w.source.log ++ [record], health } }
  | .restart i kept => w.withChild i ((w.children i).restart kept)

/-! ## The condition -/

/-- A child that restarts after the running attempt has asked for its rows has lost none of them. -/
def KeepsAsked (w : World F P M) : Happening F P M → Prop
  | .append _ _ => True
  | .restart i kept => i ∈ w.asked →
      (w.children i).legs.vectors.slots.length ≤ max (w.children i).legs.vectors.flushed kept.vectors ∧
      (w.children i).legs.documents.slots.length ≤
        max (w.children i).legs.documents.flushed kept.documents

instance (w : World F P M) : ∀ happening, Decidable (KeepsAsked w happening)
  | .append _ _ => inferInstanceAs (Decidable True)
  | .restart _ _ => inferInstanceAs (Decidable (_ → _ ∧ _))

/-- A child is sent a document only while it has no more vectors than document slots. -/
def InStep (w : World F P M) : Request F P → Prop
  | .add i (.document _ _) =>
    (w.children i).legs.vectors.slots.length ≤ (w.children i).legs.documents.slots.length
  | _ => True

instance (w : World F P M) : ∀ req, Decidable (InStep w req)
  | .add _ (.document _ _) => inferInstanceAs (Decidable (_ ≤ _))
  | .add _ (.vector _ _) | .sourceHealth | .childHealth _ | .readWal _ _ | .message | .flush _ =>
    inferInstanceAs (Decidable True)

/-! ## Attempt after attempt -/

/-- The nodes, the state that is saved, and the attempt that is running. -/
structure System (F P M : Type) where
  world : World F P M
  saved : LiveReshardState
  attempt : Option (Program F P M LiveReshardState)

inductive Event (F P M : Type) where
  | start
  | call (outcome : Outcome)
  | finish (persisted : Bool)
  | abandon
  | happen (happening : Happening F P M)

/-- The setting of an attempt: every call may fail, and one that takes effect meets the condition. -/
def setting : Setting (Request F P) (Reply F P M) (World F P M) (Happening F P M) where
  serve := fun req w => w.serve req
  env := World.happen
  may := KeepsAsked
  allows := fun req w outcome =>
    match outcome with
    | .lost _ => True
    | _ => InStep w req

namespace System

def succeeded (s : System F P M) : Option LiveReshardState :=
  match s.attempt with
  | some (.done (.ok updated)) => some updated
  | _ => none

/-- The attempt is over. -/
def stop (s : System F P M) : System F P M :=
  { s with attempt := none, world := { s.world with asked := [] } }

def next (s : System F P M) : Event F P M → System F P M
  | .start =>
    match s.attempt with
    | none => { s with attempt := some (catchUpChildrenOnce s.saved) }
    | some _ => s
  | .call outcome =>
    match s.attempt with
    | none => s
    | some p => { s with
        attempt := some (setting.step p s.world outcome).1
        world := (setting.step p s.world outcome).2 }
  | .finish persisted =>
    match s.attempt with
    | some (.done (.ok updated)) =>
      if persisted then { s.stop with saved := updated } else s.stop
    | some (.done (.error _)) => s.stop
    | _ => s
  | .abandon => s.stop
  | .happen happening => { s with world := s.world.happen happening }

end System

end ProtomoltSearch.Replication
