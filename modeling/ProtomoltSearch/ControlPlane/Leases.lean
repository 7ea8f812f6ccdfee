import ProtomoltSearch.ControlPlane.State

/-!
# Leases and reports

A node registers and renews its lease, asks to be drained, and reports its shard copies. Each
operation checks its request first, then the state, and answers the state it leaves; a refused
operation leaves none.
-/

namespace ProtomoltSearch.ControlPlane

variable (wire : ShardReplicaState) (policy : ControlPolicy) (s : StoredState)

def nextRevision : Except Status U64 :=
  okOr (U64.ofNat? (s.revision.val + 1)) revisionOverflow

lemma nextRevision_ok {s : StoredState} {revision : U64} :
    nextRevision s = .ok revision ↔ revision.val = s.revision.val + 1 := by
  rw [nextRevision, okOr_ok, U64.ofNat?_eq_some]

def leaseEnd (now duration : U64) : Except Status U64 :=
  okOr (now.checkedAdd duration) leaseExpiryOverflow

structure RegisterNodeRequest where
  nodeId : String
  addr : String
  leaseMs : U64
  capacity : Option Capacity

variable (req : RegisterNodeRequest)

/-- The checks of a registration made before the state is locked. -/
def registerDuration : Except Status U64 := do
  refuseIf (isBlank req.nodeId || isBlank req.addr)
    (.invalidArgument "node registration needs non-empty node_id and addr")
  leaseDuration policy req.leaseMs

/-- A name that is leased elsewhere is not registered again. -/
def checkHeld : Except Status Unit :=
  match s.nodes.get? req.nodeId with
  | none => .ok ()
  | some held =>
    refuseIf (held.state ≠ .expired && held.addr ≠ req.addr)
      (.alreadyExists s!"node {debug req.nodeId} is already leased at {debug held.addr}")

def Capacity.default : Capacity := ⟨⟨0, U64.zero_lt⟩, ⟨0, U64.zero_lt⟩, ""⟩

def registerLocked (duration now : U64) : Except Status (StoredState × NodeLease) := do
  checkHeld s req
  let nextToken ← okOr (U64.ofNat? (s.nextToken.val + 1))
    (.resourceExhausted "lease token space exhausted")
  let revision ← nextRevision s
  let expires ← leaseEnd now duration
  .ok ({ s with
    nextToken := nextToken
    nodes := s.nodes.insert req.nodeId
      ⟨req.nodeId, req.addr, .active, s.nextToken, expires, req.capacity.getD .default⟩
    revision := revision }, ⟨req.nodeId, s.nextToken, expires, revision⟩)

def register (now : U64) : Except Status (StoredState × NodeLease) := do
  let duration ← registerDuration policy req
  registerLocked s req duration now

structure RenewNodeLeaseRequest where
  nodeId : String
  leaseToken : U64
  leaseMs : U64
  capacity : Option Capacity

def renewLocked (req : RenewNodeLeaseRequest) (duration now : U64) :
    Except Status (StoredState × NodeLease) := do
  let revision ← nextRevision s
  let node ← validateLease s req.nodeId req.leaseToken now
  let expires ← leaseEnd now duration
  .ok ({ s with
    nodes := s.nodes.insert req.nodeId
      { node with expiresUnixMs := expires, capacity := req.capacity.getD node.capacity }
    revision := revision }, ⟨node.nodeId, node.leaseToken, expires, revision⟩)

def renew (req : RenewNodeLeaseRequest) (now : U64) : Except Status (StoredState × NodeLease) := do
  let duration ← leaseDuration policy req.leaseMs
  renewLocked s req duration now

structure DrainNodeRequest where
  nodeId : String
  leaseToken : U64

def drain (req : DrainNodeRequest) (now : U64) : Except Status StoredState := do
  let revision ← nextRevision s
  let node ← validateLease s req.nodeId req.leaseToken now
  .ok { s with
    nodes := s.nodes.insert req.nodeId { node with state := .draining }
    revision := revision }

structure ReportShardRequest where
  nodeId : String
  leaseToken : U64
  replica : Option ShardReplicaState

structure CheckedCopy where
  wire : ShardReplicaState
  role : Role
  range_le : wire.hashLo ≤ wire.hashHi
  tombstones_le : wire.tombstones ≤ wire.rows

def CheckedCopy.store (c : CheckedCopy) (nodeId addr : String) (ready : Bool) : Replica where
  shardId := c.wire.shardId
  nodeId := nodeId
  addr := addr
  generation := c.wire.generation
  hashLo := c.wire.hashLo
  hashHi := c.wire.hashHi
  rows := c.wire.rows
  bytes := c.wire.bytes
  role := c.role
  ready := ready
  scoringFingerprint := c.wire.scoringFingerprint
  analysisFingerprint := c.wire.analysisFingerprint
  immutableSegments := c.wire.immutableSegments
  tombstones := c.wire.tombstones
  range_le := c.range_le
  tombstones_le := c.tombstones_le

/-- The counts of a reported copy with its role and range checked. -/
def checkReportedRows (role : Role) (range_le : wire.hashLo ≤ wire.hashHi) :
    Except Status CheckedCopy :=
  if h : wire.tombstones ≤ wire.rows then .ok ⟨wire, role, range_le, h⟩
  else .error (.invalidArgument "shard tombstone count exceeds physical rows")

def checkReportedRange (role : Role) : Except Status CheckedCopy :=
  if h : wire.hashLo ≤ wire.hashHi then checkReportedRows wire role h
  else .error (.invalidArgument "shard report hash range is inverted")

/-- The checks of a report made before the state is locked. -/
def checkReport (replica : Option ShardReplicaState) : Except Status CheckedCopy := do
  let wire ← okOr replica (.invalidArgument "shard report is missing replica state")
  refuseIf (isBlank wire.shardId) (.invalidArgument "shard report needs shard_id")
  let role ← okOr wire.role (.invalidArgument "shard report needs PRIMARY or REPLICA role")
  checkReportedRange wire role

def reportLocked (req : ReportShardRequest) (copy : CheckedCopy) (now : U64) :
    Except Status StoredState := do
  let revision ← nextRevision s
  let node ← validateLease s req.nodeId req.leaseToken now
  refuseIf (!copy.wire.nodeId.isEmpty && copy.wire.nodeId ≠ req.nodeId)
    (.invalidArgument "shard report node_id differs from the lease owner")
  let addr ← shardAddr s req.nodeId node.addr copy.wire.addr
  .ok { s with
    replicas := s.replicas.insert (replicaKey copy.wire.shardId req.nodeId)
      (copy.store req.nodeId addr copy.wire.ready)
    revision := revision }

def report (req : ReportShardRequest) (now : U64) : Except Status StoredState := do
  let copy ← checkReport req.replica
  reportLocked s req copy now

variable {policy : ControlPolicy} {s t : StoredState} {now : U64}

def registeredNode (s : StoredState) (req : RegisterNodeRequest) (expires : U64) : Node :=
  ⟨req.nodeId, req.addr, .active, s.nextToken, expires, req.capacity.getD .default⟩

lemma register_ok {req : RegisterNodeRequest} {lease : NodeLease}
    (h : register policy s req now = .ok (t, lease)) :
    ∃ nextToken revision expires, nextToken.val = s.nextToken.val + 1 ∧
      revision.val = s.revision.val + 1 ∧ t = { s with
        nextToken := nextToken
        nodes := s.nodes.insert req.nodeId (registeredNode s req expires)
        revision := revision } := by
  obtain ⟨duration, -, _, -, nextToken, hnext, h⟩ := bind₃_ok.1 h
  obtain ⟨revision, hrev, expires, -, h⟩ := bind₂_ok.1 h
  obtain ⟨rfl, -⟩ := Prod.mk.inj (Except.ok.inj h)
  exact ⟨nextToken, revision, expires, U64.ofNat?_eq_some.1 (okOr_ok.1 hnext),
    nextRevision_ok.1 hrev, rfl⟩

lemma renew_ok {req : RenewNodeLeaseRequest} {lease : NodeLease}
    (h : renew policy s req now = .ok (t, lease)) :
    ∃ node revision expires, s.nodes.get? req.nodeId = some node ∧
      revision.val = s.revision.val + 1 ∧ t = { s with
        nodes := s.nodes.insert req.nodeId
          { node with expiresUnixMs := expires, capacity := req.capacity.getD node.capacity }
        revision := revision } := by
  obtain ⟨duration, -, revision, hrev, h⟩ := bind₂_ok.1 h
  obtain ⟨node, hnode, expires, -, h⟩ := bind₂_ok.1 h
  obtain ⟨rfl, -⟩ := Prod.mk.inj (Except.ok.inj h)
  exact ⟨node, revision, expires, (validateLease_ok.1 hnode).1, nextRevision_ok.1 hrev, rfl⟩

lemma drain_ok {req : DrainNodeRequest} (h : drain s req now = .ok t) :
    ∃ node revision, s.nodes.get? req.nodeId = some node ∧ revision.val = s.revision.val + 1 ∧
      t = { s with
        nodes := s.nodes.insert req.nodeId { node with state := .draining }
        revision := revision } := by
  obtain ⟨revision, hrev, node, hnode, h⟩ := bind₂_ok.1 h
  cases h
  exact ⟨node, revision, (validateLease_ok.1 hnode).1, nextRevision_ok.1 hrev, rfl⟩

lemma checkReport_ok {replica : Option ShardReplicaState} {copy : CheckedCopy}
    (h : checkReport replica = .ok copy) : replica = some copy.wire ∧
    copy.wire.role = some copy.role ∧ isBlank copy.wire.shardId = false := by
  obtain ⟨wire, hwire, _, hblank, role, hrole, h⟩ := bind₃_ok.1 h
  unfold checkReportedRange checkReportedRows at h
  split at h
  · split at h
    · cases h
      exact ⟨okOr_ok.1 hwire, okOr_ok.1 hrole, refuseIf_ok.1 hblank⟩
    · cases h
  · cases h

lemma report_ok {req : ReportShardRequest} (h : report s req now = .ok t) :
    ∃ copy node addr revision, checkReport req.replica = .ok copy ∧
      s.nodes.get? req.nodeId = some node ∧ revision.val = s.revision.val + 1 ∧
        t = { s with
          replicas := s.replicas.insert (replicaKey copy.wire.shardId req.nodeId)
            (copy.store req.nodeId addr copy.wire.ready)
          revision := revision } := by
  obtain ⟨copy, hcopy, revision, hrev, node, hnode, h⟩ := bind₃_ok.1 h
  obtain ⟨_, -, addr, -, h⟩ := bind₂_ok.1 h
  cases h
  exact ⟨copy, node, addr, revision, hcopy, (validateLease_ok.1 hnode).1,
    nextRevision_ok.1 hrev, rfl⟩

end ProtomoltSearch.ControlPlane
