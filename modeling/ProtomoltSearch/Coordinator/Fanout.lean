import ProtomoltSearch.Coordinator.Handshake
import ProtomoltSearch.Coordinator.Merge
import ProtomoltSearch.Foundations.Consumer
import ProtomoltSearch.Foundations.FloorStream

/-!
# The streaming fan-out

What the coordinator and the shards say to each other during a streamed search, and the exchange
that fetches the identities of the winners once the scan is over (`StreamFanout` in
`coordinator.rs`). The messages of all shards arrive on one merged queue, seen here as the list of
its items; when the list ends, every stream has ended.
-/

namespace ProtomoltSearch.Coordinator

open Placement

/-- A shard's scan certificate. -/
structure StreamSearchSummary where
  completed : Bool
  emitted : ℕ
  blocksScanned : ℕ
  floorRaisesApplied : ℕ
  geoColumnsKnown : List Bool
  filterColumnsKnown : List Bool
  scoringFingerprint : String
  segmentsTotal : ℕ
  segmentsSkipped : ℕ
  deriving DecidableEq

namespace StreamSearchSummary

/-- The certificate of a shard that was not consulted. -/
def skipped : StreamSearchSummary where
  completed := true
  emitted := 0
  blocksScanned := 0
  floorRaisesApplied := 0
  geoColumnsKnown := []
  filterColumnsKnown := []
  scoringFingerprint := ""
  segmentsTotal := 0
  segmentsSkipped := 0

/-- The certificate's part in the handshake. -/
def flags (s : StreamSearchSummary) : KnownFlags := ⟨s.geoColumnsKnown, s.filterColumnsKnown⟩

end StreamSearchSummary

/-- A batch of packed records, and the bytes after the last whole record. -/
structure Packed (ρ : Type) where
  records : List ρ
  trailing : ℕ

def Packed.bytes {ρ : Type} (b : Packed ρ) (size : ℕ) : ℕ := size * b.records.length + b.trailing

/-- The identity of one row; a captured row may have none. -/
structure StreamIdentity (Identity : Type) where
  vectorId : U64
  identity : Option Identity

/-- A message of a shard. -/
inductive Payload (ρ Identity : Type) where
  | batch (b : Packed ρ)
  | summary (s : StreamSearchSummary)
  | identityReady (scan : Option StreamSearchSummary)
  | identities (rows : List (StreamIdentity Identity))
  | readReady

/-- An item of the merged queue: a message, the close of a stream, or its failure. -/
inductive Item (ρ Identity : Type) where
  | message (payload : Option (Payload ρ Identity))
  | closed
  | failed (e : Status)

/-- What a fan-out is started with. The display of a status and the encoded length of a row of
identities belong to the transport. -/
structure Fanout (Identity : Type) where
  nodes : ℕ
  k : ℕ
  filters : RequestFilters
  mask : Option ShardMask
  isScoped : Bool
  displayStatus : Status → String
  rowBytes : StreamIdentity Identity → ℕ
  maxResponseBytes : ℕ

variable {ρ Identity : Type}

namespace Fanout

variable (c : Fanout Identity)

/-- Whether the mask leaves a shard out. -/
def isSkipped (shard : ℕ) : Bool :=
  c.mask.any fun m => m.skipped[shard]? == some true

def consulted : List ℕ := (List.range c.nodes).filter fun i => !c.isSkipped i

lemma nodup_consulted : c.consulted.Nodup := List.nodup_range.filter _

/-- The certificates before the first message: those of the shards left out. -/
def initialSummaries (shard : ℕ) : Option StreamSearchSummary :=
  if c.isSkipped shard then some .skipped else none

lemma initialSummaries_of_mem {c : Fanout Identity} {i : ℕ} (h : i ∈ c.consulted) :
    c.initialSummaries i = none := by
  rw [consulted, List.mem_filter] at h
  simpa [initialSummaries] using h.2

/-- The refusal of an item that is no message. -/
def closedStatus (shard : ℕ) : Status :=
  .internal ("shard " ++ toString shard ++ " closed its stream without a summary")

def failedStatus (shard : ℕ) (e : Status) : Status :=
  ⟨if c.isScoped then e.code else .internal,
    "shard " ++ toString shard ++ " failed: " ++ c.displayStatus e⟩

/-- The refusal when the queue ends early. -/
def endedStatus : Status := .internal "stream fan-out ended without all shards"

end Fanout

def varintLen (n : ℕ) : ℕ := (Nat.log2 n + 7) / 7

/-- A length-delimited field with a one-byte tag. -/
def fieldBytes (n : ℕ) : ℕ := 1 + varintLen n + n

structure Exchange (Identity : Type) where
  received : ℕ → Bool
  terminal : ℕ → Option StreamSearchSummary
  remaining : ℕ
  identities : ℕ × U64 → Option (Option Identity)
  payloadBytes : ℕ

section

variable (c : Fanout Identity)

/-- Take one shard's rows, which must be the requested ones in order and within the budget. -/
def takeRows (shard : ℕ) (x : Exchange Identity) :
    List (StreamIdentity Identity × U64) → Except Status (Exchange Identity)
  | [] => .ok x
  | (row, expected) :: rest => do
    refuseIf (row.vectorId != expected) (.internal "shard returned another ID's identity")
    let bytes := x.payloadBytes + fieldBytes (c.rowBytes row)
    refuseIf (2 ^ 64 ≤ bytes) ⟨.resourceExhausted, "identity response length overflow"⟩
    refuseIf (c.maxResponseBytes < fieldBytes bytes)
      ⟨.resourceExhausted, "combined identity response exceeds max_response_bytes"⟩
    let ids := Function.update x.identities (shard, row.vectorId) (some row.identity)
    takeRows shard { x with payloadBytes := bytes, identities := ids } rest

def exchangeStep (expected : ℕ → List U64) (scans : ℕ → Option StreamSearchSummary)
    (x : Exchange Identity) (shard : ℕ) (payload : Option (Payload ρ Identity)) :
    Except Status (Exchange Identity) := do
  refuseIf (x.terminal shard).isSome (.internal "identity message after terminal summary")
  match payload with
  | some (.identities rows) =>
    refuseIf (c.maxResponseBytes < fieldBytes (rows.map fun r => fieldBytes (c.rowBytes r)).sum)
      ⟨.resourceExhausted, "shard exceeded the identity response budget"⟩
    refuseIf (x.received shard || rows.length != (expected shard).length)
      (.internal "shard identity response count or sequence differs")
    let x ← takeRows c shard x (rows.zip (expected shard))
    return { x with received := Function.update x.received shard true }
  | some (.summary s) =>
    refuseIf (!x.received shard || some s != scans shard)
      (.failedPrecondition "identity exchange did not certify the captured scan")
    let terminal := Function.update x.terminal shard (some s)
    return { x with terminal := terminal, remaining := x.remaining - 1 }
  | _ => throw (.internal "unexpected message during identity selection")

def exchangeItem (expected : ℕ → List U64) (scans : ℕ → Option StreamSearchSummary)
    (x : Exchange Identity) (shard : ℕ) : Item ρ Identity → Except Status (Exchange Identity)
  | .message payload => exchangeStep c expected scans x shard payload
  | .closed => if (x.terminal shard).isNone then .error (Fanout.closedStatus shard) else .ok x
  | .failed e => .error (c.failedStatus shard e)

/-- Fetch the identities of the winners from the shards that hold them. -/
def resolveIdentities (hits : List MergedHit) (scans : ℕ → Option StreamSearchSummary)
    (queue : List (ℕ × Item ρ Identity)) : Except Status (ℕ × U64 → Option (Option Identity)) := do
  let expected := fun shard => (hits.filter fun h => h.shard = shard).map (·.vectorId)
  let (x, _) ← Consumer.loop (fun x a => exchangeItem c expected scans x a.1 a.2)
    (fun x => x.remaining == 0) Fanout.endedStatus
    ⟨fun _ => false, c.initialSummaries, c.consulted.length, fun _ => none, 0⟩ queue
  return x.identities

end

end ProtomoltSearch.Coordinator
