import ProtomoltSearch.ControlPlane.Completion
import ProtomoltSearch.Coordinator.Topology

/-!
# Reconciliation, rollback and bootstrap

Reconciliation expires leases, promotes a ready copy where a shard's primary is not available, plans
copies, splits, compactions, merges and moves, and publishes the routes of the available primaries
when they chain from the first hash to the last (`reconcileLocked`). A rollback publishes a topology
of the history again.
-/

namespace ProtomoltSearch.ControlPlane

variable (policy : ControlPolicy) (s : StoredState)

/-- The first of the least, by a strict order. -/
def firstMin {α : Type} (lt : α → α → Bool) : List α → Option α
  | [] => none
  | a :: l => some (l.foldl (fun best b => if lt b best then b else best) a)

/-- The last of the greatest, by a key. -/
def lastMax {α : Type} (key : α → ℕ) : List α → Option α
  | [] => none
  | a :: l => some (l.foldl (fun best b => if key b < key best then best else b) a)

lemma foldl_choice_mem {α : Type} {c : α → α → Bool} (l : List α) (a : α) :
    l.foldl (fun best b => if c b best then b else best) a ∈ a :: l := by
  induction l generalizing a with
  | nil => exact List.mem_singleton_self a
  | cons b l ih =>
    rw [List.foldl_cons]
    split
    · exact List.mem_cons_of_mem _ (ih b)
    · rcases List.mem_cons.1 (ih a) with h | h
      · rw [h]
        exact List.mem_cons_self
      · exact List.mem_cons_of_mem _ (List.mem_cons_of_mem _ h)

lemma firstMin_mem {α : Type} {lt : α → α → Bool} {l : List α} {a : α}
    (h : firstMin lt l = some a) : a ∈ l := by
  cases l with
  | nil => cases h
  | cons b l =>
    cases h
    exact foldl_choice_mem l b

lemma lastMax_mem {α : Type} {key : α → ℕ} {l : List α} {a : α} (h : lastMax key l = some a) :
    a ∈ l := by
  cases l with
  | nil => cases h
  | cons b l =>
    cases h
    have hflip : (fun best b : α => if key b < key best then best else b) =
        fun best b => if (!decide (key b < key best)) = true then b else best := by
      funext best b
      by_cases hlt : key b < key best <;> simp [hlt]
    rw [hflip]
    exact foldl_choice_mem l b

/-- The names, each once, in order. -/
def distinctNames (names : List String) : List String := names.dedup.insertionSort (· ≤ ·)

variable (left right : Replica) (excluded : List String) (now : U64) (sourceDomain : String)
  (requested : U64) (primary : Replica) (shardId : String)

def sameDomain (node : Node) : Bool :=
  !sourceDomain.isEmpty && node.capacity.failureDomain = sourceDomain

/-- The part of the disk in use, to compare across nodes. -/
def usedShare (node other : Node) : ℕ :=
  node.capacity.usedDiskBytes.val * max other.capacity.diskBytes.val 1

/-- A better target: another failure domain, then less of the disk in use, then the name. -/
def betterTarget (left right : Node) : Bool :=
  if sameDomain sourceDomain left = sameDomain sourceDomain right then
    if usedShare left right = usedShare right left then left.nodeId < right.nodeId
    else usedShare left right < usedShare right left
  else !sameDomain sourceDomain left

def chooseTarget : Option String :=
  (firstMin (betterTarget sourceDomain) (s.nodes.values.filter fun node =>
    node.state = .active && !excluded.contains node.nodeId)).map Node.nodeId

/-- The copy stands in for the primary. -/
def standsIn (primary replica : Replica) : Bool :=
  replica.generation = primary.generation &&
    replica.scoringFingerprint = primary.scoringFingerprint &&
      replica.analysisFingerprint = primary.analysisFingerprint

def readyCopies : List Replica :=
  s.replicas.values.filter fun r => r.shardId = shardId && r.ready

/-- The route of a shard with an available primary. -/
def routeOf : Option Route :=
  ((readyCopies s shardId).find? fun r => r.role = .primary && activeNode s r.nodeId).map
    fun primary =>
      { addr := primary.addr
        replica := ((readyCopies s shardId).find? fun r =>
          r.role = .replica && activeNode s r.nodeId && standsIn primary r).map Replica.addr
        hashLo := primary.hashLo
        hashHi := primary.hashHi }

def readyShards : List String :=
  distinctNames ((s.replicas.values.filter Replica.ready).map Replica.shardId)

/-- Each route starts at the hash expected; past the last hash the count starts over. -/
def chainFrom (expected : U64) : List Route → Bool
  | [] => true
  | route :: rest => route.hashLo = expected && chainFrom (U64.wrap (route.hashHi.val + 1)) rest

def sortedRoutes : List Route :=
  ((readyShards s).filterMap (routeOf s)).insertionSort fun a b => a.hashLo ≤ b.hashLo

/-- The routes to publish, if they chain to the last hash. -/
def desiredRoutes : Option (List Route) :=
  let routes := sortedRoutes s
  if routes.isEmpty then none
  else if chainFrom ⟨0, U64.zero_lt⟩ routes && routes.getLast?.any fun r => r.hashHi = U64.max then
    some routes
  else none

/-- Leases that have ended. -/
def expireLeases : StoredState :=
  { s with
    nodes := s.nodes.mapValues fun node =>
      if node.expiresUnixMs ≤ now && node.state ≠ .expired then { node with state := .expired }
      else node }

/-- The ready copy to promote when the shard's primary is not available. -/
def promotion : Option Replica :=
  let replicas := readyCopies s shardId
  if ((replicas.find? fun r => r.role = .primary).any fun r => activeNode s r.nodeId) then none
  else lastMax (·.generation.val)
    (replicas.filter fun r => r.role = .replica && activeNode s r.nodeId)

def promoteAvailable : StoredState :=
  match promotion s shardId with
  | none => s
  | some r => { s with replicas := promote s.replicas shardId r.nodeId }

def readyPrimary : Option Replica :=
  s.replicas.values.find? fun r => r.shardId = shardId && r.role = .primary && r.ready

def copyReason : NodeState → ActionReason
  | .draining => .gracefulDrain
  | .expired => .replaceExpiredPrimary
  | .active => .replicationDeficit

def noPeer : U64 := ⟨0, U64.zero_lt⟩

/-- Plan a copy when there are too few, or the primary's node is not active. -/
def planCopy : Except Status StoredState :=
  let copies := (readyCopies s primary.shardId).filter (standsIn primary)
  if copies.length < policy.replicationFactor ∨ nodeState s primary.nodeId ≠ .active then
    match chooseTarget s (copies.map Replica.nodeId)
      (((s.nodes.get? primary.nodeId).map fun node => node.capacity.failureDomain).getD "") with
    | none => .ok s
    | some target => pushAction s primary
        ⟨.copyReplica, "", noPeer, target, primary.generation, copyReason (nodeState s primary.nodeId)⟩
  else .ok s

/-- Plan work on the shard itself, under its next generation. -/
def planNext (kind : ActionKind) (reason : ActionReason) : Except Status StoredState :=
  match U64.ofNat? (primary.generation.val + 1) with
  | none => .ok s
  | some generation => pushAction s primary ⟨kind, "", noPeer, primary.nodeId, generation, reason⟩

def saturatingMul (a b : ℕ) : ℕ := min (a * b) (2 ^ 64 - 1)

/-- The segments or tombstones of a copy call for compaction. -/
def needsCompaction : Bool :=
  policy.compactSegments ≤ primary.immutableSegments ||
    decide (0 < primary.rows.val) &&
      decide (saturatingMul primary.rows.val policy.compactTombstonePpm ≤
        saturatingMul primary.tombstones.val 1000000)

/-- Plan a split or a compaction of a shard that no copy is pending for. -/
def planUpkeep : Except Status StoredState :=
  let copyPending := s.actions.any fun action =>
    action.shardId = primary.shardId && action.kind = .copyReplica
  if nodeState s primary.nodeId = .active ∧ copyPending = false then
    if policy.splitRows < primary.rows ∧ primary.hashLo < primary.hashHi then
      planNext s primary .splitShard .automaticSplit
    else if needsCompaction policy primary then
      planNext s primary .compactShard .compactionThreshold
    else .ok s
  else .ok s

def planShard : Except Status StoredState :=
  match readyPrimary s shardId with
  | none => .ok s
  | some primary => do
    let s ← planCopy policy s primary
    planUpkeep policy s primary

def reconcileShard : Except Status StoredState :=
  planShard policy (promoteAvailable s shardId) shardId

def knownShards : List String :=
  distinctNames (s.replicas.values.map Replica.shardId)

/-- No action names either shard. -/
def noActionNames : Bool :=
  !s.actions.any fun action =>
    action.shardId = left.shardId || action.shardId = right.shardId ||
      action.peerShardId = left.shardId || action.peerShardId = right.shardId

/-- Two primaries next to each other, small enough to merge. -/
def mergeable : Bool :=
  decide (left.hashHi.val + 1 = right.hashLo.val) &&
    decide (min (left.rows.val + right.rows.val) (2 ^ 64 - 1) ≤ policy.mergeRows.val) &&
    left.scoringFingerprint = right.scoringFingerprint &&
    left.analysisFingerprint = right.analysisFingerprint && noActionNames s left right

def planMerge (pair : Replica × Replica) : Except Status StoredState :=
  if mergeable policy s pair.1 pair.2 then
    match U64.ofNat? (max pair.1.generation.val pair.2.generation.val + 1) with
    | none => .ok s
    | some generation => pushAction s pair.1
        ⟨.mergeShards, pair.2.shardId, pair.2.generation, pair.1.nodeId, generation,
          .belowMergeThreshold⟩
  else .ok s

def primariesByRange : List Replica :=
  (s.replicas.values.filter fun r => r.role = .primary && r.ready).insertionSort
    fun a b => a.hashLo ≤ b.hashLo

def neighbours {α : Type} (l : List α) : List (α × α) := l.zip l.tail

def planMerges : Except Status StoredState :=
  (neighbours (primariesByRange s)).foldlM (planMerge policy) s

/-- Millionths of the disk in use. -/
def utilization (node : Node) : ℕ :=
  saturatingMul node.capacity.usedDiskBytes.val 1000000 / max node.capacity.diskBytes.val 1

/-- The primary to move off a node: the largest without a copy at the target or an action. -/
def moveCandidate (high low : Node) : Option Replica :=
  lastMax (·.bytes.val) (s.replicas.values.filter fun r =>
    r.role = .primary && r.ready && r.nodeId = high.nodeId &&
      (!s.replicas.values.any fun held => held.shardId = r.shardId && held.nodeId = low.nodeId) &&
      !s.actions.any fun action => action.shardId = r.shardId)

def planMove (high low : Node) : Except Status StoredState :=
  match moveCandidate s high low with
  | none => .ok s
  | some candidate => pushAction s candidate
      ⟨.copyReplica, "", noPeer, low.nodeId, candidate.generation, .capacityRebalance⟩

/-- Move one primary when the disks of the active nodes are filled unevenly. -/
def planRebalance : Except Status StoredState :=
  let active := s.nodes.values.filter fun node => node.state = .active
  match lastMax utilization active, firstMin (fun a b => utilization a < utilization b) active with
  | some high, some low =>
    if high.nodeId ≠ low.nodeId ∧ 150000 ≤ utilization high - utilization low then
      planMove s high low
    else .ok s
  | _, _ => .ok s

def generationOverflow : Status := .failedPrecondition "topology generation overflow"

/-- The history with the current topology, within its limit. -/
def pushHistory : List Topology :=
  let history := s.history ++ [s.topology]
  if policy.historyLimit < history.length then history.tail else history

/-- Publish changed routes under the next generation. -/
def publish : Except Status (StoredState × Bool) :=
  match desiredRoutes s with
  | none => .ok (s, false)
  | some routes =>
    if routes = s.topology.routes then .ok (s, false)
    else do
      let generation ← okOr (U64.ofNat? (s.topology.generation.val + 1)) generationOverflow
      .ok ({ s with
        history := pushHistory policy s
        topology := ⟨max generation ⟨1, U64.one_lt⟩, routes⟩ }, true)

/-- The plans of a reconciliation, before anything is published. -/
def planAll : Except Status StoredState := do
  let s := expireLeases s now
  let s ← (knownShards s).foldlM (reconcileShard policy) s
  let s ← planMerges policy s
  planRebalance s

def reconcileLocked : Except Status (StoredState × Bool) := do
  let revision ← nextRevision s
  let planned ← planAll policy s now
  let (published, changed) ← publish policy planned
  .ok ({ published with revision := revision }, changed)

/-- The place in the history of a requested topology; zero asks for the last. -/
def rollbackPosition : Option ℕ :=
  if requested.val = 0 then
    if s.history.isEmpty then none else some (s.history.length - 1)
  else s.history.findIdx? fun topology => topology.generation = requested

/-- The history entry a rollback publishes again. -/
def rollbackEntry : Option (ℕ × Topology) :=
  (rollbackPosition s requested).bind fun position => (s.history[position]?).map (position, ·)

def rollback : Except Status StoredState := do
  let (position, old) ← okOr (rollbackEntry s requested)
    (.notFound "requested topology is not in durable history")
  let generation ← okOr (U64.ofNat? (s.topology.generation.val + 1)) generationOverflow
  let revision ← nextRevision s
  .ok { s with
    history := s.history.eraseIdx position ++ [s.topology]
    topology := ⟨generation, old.routes⟩
    revision := revision }

/-- The checks of a bootstrap made before the state is locked. -/
def bootstrapRoutes (routes : List Coordinator.TopologyRoute) : Except String (List Route) :=
  routes.zipIdx.mapM fun (route, index) => do
    let range ← okOr route.hashRange s!"control topology route {index} is missing its hash range"
    .ok ⟨route.addr, route.replica, range.1, range.2⟩

/-- Nothing has happened to the store. -/
def isPristine : Bool :=
  s.topology.generation.val = 0 && s.topology.routes.isEmpty && s.history.isEmpty &&
    s.nodes.entries.isEmpty && s.replicas.entries.isEmpty && s.actions.isEmpty &&
      s.completedActions.entries.isEmpty

/-- Seed a pristine store. -/
def bootstrapLocked (generation : U64) (routes : List Route) : StoredState :=
  if isPristine s then { s with topology := ⟨generation, routes⟩ } else s

/-- Bind the store to a collection; `place` is where it is stored. -/
def bindCollection (place : String) (s : StoredState) (name : String) : Except String StoredState :=
  if s.collection.isEmpty then .ok { s with collection := name }
  else if s.collection ≠ name then
    .error (s!"control state {place} governs collection {debug s.collection}, not {debug name}")
  else .ok s

end ProtomoltSearch.ControlPlane
