import ProtomoltSearch.Foundations.OrderedMap
import ProtomoltSearch.Foundations.Overflow
import ProtomoltSearch.Placement.Tree

/-!
# The control plane's state

Nodes hold leases and report the shard copies they serve; the control plane plans actions on them and
publishes a topology (`control_plane.rs`). This is the durable state, the lookups the operations
share, and the validation of a lease and of a reported copy.

A copy carries the two facts every report is checked for: its hash range is not inverted and it has
no more tombstones than rows.
-/

namespace ProtomoltSearch.ControlPlane

structure ControlPolicy where
  leaseMs : U64
  /-- Total ready copies, including the primary. -/
  replicationFactor : ℕ
  splitRows : U64
  mergeRows : U64
  compactSegments : ℕ
  compactTombstonePpm : ℕ
  historyLimit : ℕ

inductive NodeState where
  | active
  | draining
  | expired
  deriving DecidableEq

/-- A node's capacity, as far as placement reads it. -/
structure Capacity where
  diskBytes : U64
  usedDiskBytes : U64
  failureDomain : String
  deriving DecidableEq

structure Node where
  nodeId : String
  addr : String
  state : NodeState
  leaseToken : U64
  expiresUnixMs : U64
  capacity : Capacity
  deriving DecidableEq

inductive Role where
  | primary
  | replica
  deriving DecidableEq

/-- One node's copy of a shard. -/
structure Replica where
  shardId : String
  nodeId : String
  addr : String
  generation : U64
  hashLo : U64
  hashHi : U64
  rows : U64
  bytes : U64
  role : Role
  ready : Bool
  scoringFingerprint : String
  analysisFingerprint : String
  immutableSegments : ℕ
  tombstones : U64
  range_le : hashLo ≤ hashHi
  tombstones_le : tombstones ≤ rows
  deriving DecidableEq

structure Route where
  addr : String
  replica : Option String
  hashLo : U64
  hashHi : U64
  deriving DecidableEq

structure Topology where
  generation : U64
  routes : List Route
  deriving DecidableEq

inductive ActionKind where
  | unspecified
  | copyReplica
  | dropReplica
  | promoteReplica
  | compactShard
  | splitShard
  | mergeShards
  deriving DecidableEq

inductive ActionReason where
  | gracefulDrain
  | replaceExpiredPrimary
  | replicationDeficit
  | capacityRebalance
  | replacementPromoted
  | automaticSplit
  | compactionThreshold
  | belowMergeThreshold
  deriving DecidableEq

structure Action where
  actionId : U64
  kind : ActionKind
  shardId : String
  peerShardId : String
  peerSourceGeneration : U64
  sourceNodeId : String
  targetNodeId : String
  sourceGeneration : U64
  targetGeneration : U64
  hashLo : U64
  hashHi : U64
  reason : ActionReason
  deriving DecidableEq

structure StoredState where
  collection : String
  revision : U64
  nextToken : U64
  nextAction : U64
  topology : Topology
  history : List Topology
  nodes : OrderedMap String Node
  replicas : OrderedMap String Replica
  actions : List Action
  completedActions : OrderedMap U64 Unit
  deriving DecidableEq

def StoredState.default : StoredState where
  collection := ""
  revision := ⟨1, U64.one_lt⟩
  nextToken := ⟨1, U64.one_lt⟩
  nextAction := ⟨1, U64.one_lt⟩
  topology := ⟨⟨0, U64.zero_lt⟩, []⟩
  history := []
  nodes := .empty
  replicas := .empty
  actions := []
  completedActions := .empty

def replicaKey (shardId nodeId : String) : String := shardId ++ "\x00" ++ nodeId

def Replica.key (r : Replica) : String := replicaKey r.shardId r.nodeId

def Replica.liveRows (r : Replica) : ℕ := r.rows.val - r.tombstones.val

variable (s : StoredState) (nodeId : String)

def activeNode : Bool :=
  (s.nodes.get? nodeId).any fun node => node.state = .active

/-- The state of a node; one that is not registered counts as expired. -/
def nodeState : NodeState :=
  ((s.nodes.get? nodeId).map Node.state).getD .expired

lemma activeNode_iff {s : StoredState} {nodeId : String} :
    activeNode s nodeId = true ↔ ∃ node, s.nodes.get? nodeId = some node ∧ node.state = .active := by
  rw [activeNode, Option.any_eq_true]
  simp only [decide_eq_true_eq]

lemma nodeState_eq_active {s : StoredState} {nodeId : String} :
    nodeState s nodeId = .active ↔ activeNode s nodeId = true := by
  rw [activeNode_iff, nodeState]
  cases s.nodes.get? nodeId <;> simp

/-- Make one node's copy the primary of a shard, and every other copy of it a replica. -/
def promote (replicas : OrderedMap String Replica) (shardId nodeId : String) :
    OrderedMap String Replica :=
  replicas.mapValues fun held =>
    if held.shardId = shardId then
      { held with role := if held.nodeId = nodeId then .primary else .replica }
    else held

/-- Only the roles of copies change. -/
lemma mem_values_promote {m : OrderedMap String Replica} {shardId nodeId : String} {r : Replica}
    (h : r ∈ (promote m shardId nodeId).values) : ∃ held ∈ m.values, ∃ role,
      r = { held with role := role } := by
  rw [promote, OrderedMap.values_mapValues] at h
  obtain ⟨held, hheld, rfl⟩ := List.mem_map.1 h
  split
  · exact ⟨held, hheld, _, rfl⟩
  · exact ⟨held, hheld, held.role, rfl⟩

structure NodeLease where
  nodeId : String
  leaseToken : U64
  expiresUnixMs : U64
  controlRevision : U64
  deriving DecidableEq

/-- Only white space. -/
def isBlank (s : String) : Bool := s.toList.all Placement.isWhitespace

def revisionOverflow : Status := .resourceExhausted "control revision overflow"

def leaseExpiryOverflow : Status := .resourceExhausted "lease expiry overflow"

def leaseDuration (policy : ControlPolicy) (requested : U64) : Except Status U64 :=
  let duration := if requested.val = 0 then policy.leaseMs else requested
  if 1000 ≤ duration.val ∧ duration.val ≤ 300000 then .ok duration
  else .error (.invalidArgument "lease_ms must be between 1000 and 300000")

/-- The node a token is a running lease of. -/
def validateLease (token now : U64) : Except Status Node := do
  let node ← okOr (s.nodes.get? nodeId) (.notFound s!"node {debug nodeId} is not registered")
  refuseIf (token.val = 0 || token ≠ node.leaseToken)
    (.failedPrecondition s!"node {debug nodeId} lease token does not match")
  refuseIf (node.expiresUnixMs ≤ now)
    (.failedPrecondition s!"node {debug nodeId} lease expired at {node.expiresUnixMs.val}")
  .ok node

lemma validateLease_ok {s : StoredState} {nodeId : String} {token now : U64} {node : Node} :
    validateLease s nodeId token now = .ok node ↔ s.nodes.get? nodeId = some node ∧
      token.val ≠ 0 ∧ token = node.leaseToken ∧ now < node.expiresUnixMs := by
  simp only [validateLease, bind_ok, okOr_ok, refuseIf_ok, Bool.or_eq_false_iff,
    decide_eq_false_iff_not, not_not, not_le]
  constructor
  · rintro ⟨_, hheld, -, ⟨hzero, htoken⟩, -, hnow, hok⟩
    obtain rfl := Except.ok.inj hok
    exact ⟨hheld, hzero, htoken, hnow⟩
  · rintro ⟨hheld, hzero, htoken, hnow⟩
    exact ⟨node, hheld, ⟨⟩, ⟨hzero, htoken⟩, ⟨⟩, hnow, rfl⟩

/-- A copy as a node reports it. A role that is neither is `none`. -/
structure ShardReplicaState where
  shardId : String
  nodeId : String
  addr : String
  generation : U64
  hashLo : U64
  hashHi : U64
  rows : U64
  bytes : U64
  role : Option Role
  ready : Bool
  scoringFingerprint : String
  analysisFingerprint : String
  immutableSegments : ℕ
  tombstones : U64

/-- The listener a reported copy is served on: the node's own, or one no other node has. -/
def shardAddr (nodeId nodeAddr reported : String) : Except Status String :=
  if reported.isEmpty then .ok nodeAddr
  else
    match s.nodes.values.find? fun other => other.nodeId ≠ nodeId && other.addr = reported with
    | some other => .error (.invalidArgument <|
        s!"shard addr {debug reported} is the registered address of node {debug other.nodeId}, " ++
          s!"not a listener of node {debug nodeId}")
    | none => .ok reported

end ProtomoltSearch.ControlPlane
