import ProtomoltSearch.ControlPlane.Leases

/-!
# Completing placement actions

A node completes an action planned for it by submitting the copies it produced. The completion is
checked against the action's source and replaces the records of the kind's own scope: a copy adds a
record and may promote it, a drop removes the source's, a compaction or split replaces every copy of
the source's shard, a merge those of two adjacent shards (`mutate`).

A mutation that fails midway says what it had done to the state by then (`Mutation`).
-/

namespace ProtomoltSearch.ControlPlane

open Except

section Model

variable (s : StoredState) (action : Action) (source : Replica)

/-! ## Planning an action -/

structure ActionSpec where
  kind : ActionKind
  peerShardId : String
  peerSourceGeneration : U64
  targetNodeId : String
  targetGeneration : U64
  reason : ActionReason

/-- An action with the same kind, shard and target is pending. -/
def isPending (shard : Replica) (spec : ActionSpec) : Bool :=
  s.actions.any fun action =>
    action.kind = spec.kind && action.shardId = shard.shardId &&
      action.targetNodeId = spec.targetNodeId

def actionOf (id : U64) (shard : Replica) (spec : ActionSpec) : Action where
  actionId := id
  kind := spec.kind
  shardId := shard.shardId
  peerShardId := spec.peerShardId
  peerSourceGeneration := spec.peerSourceGeneration
  sourceNodeId := shard.nodeId
  targetNodeId := spec.targetNodeId
  sourceGeneration := shard.generation
  targetGeneration := spec.targetGeneration
  hashLo := shard.hashLo
  hashHi := shard.hashHi
  reason := spec.reason

/-- Plan an action on a shard, unless one is pending. -/
def pushAction (shard : Replica) (spec : ActionSpec) : Except Status StoredState :=
  if isPending s shard spec then .ok s
  else do
    let next ← okOr (U64.ofNat? (s.nextAction.val + 1))
      (.resourceExhausted "placement action id space exhausted")
    .ok { s with
      nextAction := next
      actions := s.actions ++ [actionOf s.nextAction shard spec] }

/-! ## The checks of outputs -/

def checkOutputRole (wire : ShardReplicaState) (range_le : wire.hashLo ≤ wire.hashHi)
    (tombstones_le : wire.tombstones ≤ wire.rows) : Except Status CheckedCopy := do
  let role ← okOr wire.role (.invalidArgument "action output needs PRIMARY or REPLICA role")
  .ok ⟨wire, role, range_le, tombstones_le⟩

/-- The target and the role of an output whose range and counts passed. -/
def checkOutputTarget (target : String) (wire : ShardReplicaState)
    (range_le : wire.hashLo ≤ wire.hashHi) (tombstones_le : wire.tombstones ≤ wire.rows) :
    Except Status Replica := do
  refuseIf (!wire.nodeId.isEmpty && wire.nodeId ≠ target)
    (.invalidArgument "action output node_id differs from the assigned target")
  let node ← okOr (s.nodes.get? target)
    (.failedPrecondition "action target is no longer registered")
  let addr ← shardAddr s target node.addr wire.addr
  let copy ← checkOutputRole wire range_le tombstones_le
  .ok (copy.store target addr true)

def checkedOutput (target : String) (wire : ShardReplicaState) : Except Status Replica :=
  if isBlank wire.shardId || !wire.ready then
    .error (.invalidArgument "action outputs need a non-empty shard_id and ready=true")
  else if h : wire.hashLo ≤ wire.hashHi ∧ wire.tombstones ≤ wire.rows then
    checkOutputTarget s target wire h.1 h.2
  else .error (.invalidArgument "action output has an invalid range or tombstone count")

/-- The output has the planned generation and the source's fingerprints. -/
def requireSameContract (output source : Replica) (generation : U64) : Except Status Unit :=
  refuseIf (output.generation ≠ generation || output.scoringFingerprint ≠ source.scoringFingerprint
      || output.analysisFingerprint ≠ source.analysisFingerprint)
    (.failedPrecondition
      "action output generation or scoring/analysis fingerprint differs from the plan")

def notTiled : Status :=
  .failedPrecondition "action outputs do not exactly tile the source hash range"

/-- Each range starts where the one before it ended. The result is the hash expected next. -/
def tileFrom (expected : U64) : List (U64 × U64) → Except Status U64
  | [] => .ok expected
  | (lo, hi) :: rest =>
    if lo ≠ expected ∨ hi < lo then .error notTiled else tileFrom (U64.wrap (hi.val + 1)) rest

def pairLe (a b : U64 × U64) : Bool := a.1 < b.1 || a.1 = b.1 && a.2 ≤ b.2

variable (shardId : String) (nodeId : String) (outputs : List Replica)

def requireRangeTiling (hashLo hashHi : U64) : Except Status Unit := do
  let expected ← tileFrom hashLo
    ((outputs.map fun o => (o.hashLo, o.hashHi)).insertionSort fun a b => pairLe a b)
  refuseIf (outputs.isEmpty || (outputs.map Replica.hashHi).max? ≠ some hashHi ||
    hashHi ≠ U64.max && expected.val ≠ hashHi.val + 1) notTiled

/-! ## The mutations -/

/-- A change of the state under the lock; a refusal comes with the state as changed so far. -/
abbrev Mutation := Except (Status × StoredState) StoredState

/-- A check made before anything else is changed. -/
def refusing {α : Type} (s : StoredState) (x : Except Status α) : Except (Status × StoredState) α :=
  x.mapError (·, s)

def oneOutput (what : String) : List Replica → Except Status Replica
  | [output] => .ok output
  | _ => .error (.invalidArgument (what ++ " completion needs exactly one output"))

def copyDiffers (output source : Replica) : Bool :=
  output.role ≠ .replica || output.shardId ≠ source.shardId || output.hashLo ≠ source.hashLo ||
    output.hashHi ≠ source.hashHi || output.rows ≠ source.rows ||
      output.tombstones ≠ source.tombstones

/-- The drop planned when a replacement is promoted. -/
def dropSpec : ActionSpec where
  kind := .dropReplica
  peerShardId := ""
  peerSourceGeneration := ⟨0, U64.zero_lt⟩
  targetNodeId := source.nodeId
  targetGeneration := source.generation
  reason := .replacementPromoted

def insertReplica (output : Replica) : StoredState :=
  { s with replicas := s.replicas.insert output.key output }

/-- The copy takes over from a source that is not active, or to rebalance. -/
def takesOver : Bool :=
  nodeState s source.nodeId ≠ .active || action.reason = .capacityRebalance

def promoteCopy (source output : Replica) : Mutation :=
  let promoted := { s with replicas := promote s.replicas source.shardId output.nodeId }
  refusing promoted (pushAction promoted source (dropSpec source))

def completeCopy : Mutation := do
  let output ← refusing s (oneOutput "COPY_REPLICA" outputs)
  refusing s (requireSameContract output source action.targetGeneration)
  refusing s (refuseIf (copyDiffers output source)
    (.failedPrecondition "copied replica differs from its source"))
  if takesOver s action source then promoteCopy (insertReplica s output) source output
  else .ok (insertReplica s output)

def completeDrop : Mutation := do
  refusing s (refuseIf (!outputs.isEmpty)
    (.invalidArgument "DROP_REPLICA completion must not carry outputs"))
  .ok { s with replicas := s.replicas.erase source.key }

def completePromote : Mutation := do
  refusing s (refuseIf (!outputs.isEmpty)
    (.invalidArgument "PROMOTE_REPLICA completion must not carry outputs"))
  .ok { s with replicas := promote s.replicas source.shardId nodeId }

/-- The compacted copy does not hold exactly the source's live rows. -/
def compactionDiffers (output source : Replica) : Bool :=
  output.role ≠ .primary || output.shardId ≠ source.shardId || output.hashLo ≠ source.hashLo ||
    output.hashHi ≠ source.hashHi || output.rows.val ≠ source.liveRows ||
      output.tombstones.val ≠ 0

def replaceShard : StoredState :=
  outputs.foldl insertReplica
    { s with replicas := s.replicas.retain fun held => held.shardId ≠ shardId }

def completeCompact : Mutation := do
  let output ← refusing s (oneOutput "COMPACT_SHARD" outputs)
  refusing s (requireSameContract output source action.targetGeneration)
  refusing s (refuseIf (compactionDiffers output source)
    (.failedPrecondition "compaction output does not conserve the source live rows and range"))
  .ok (replaceShard s source.shardId [output])

/-- Count the rows of the children, checking each. -/
def splitRows (rows : U64) (output : Replica) : Except Status U64 := do
  requireSameContract output source action.targetGeneration
  refuseIf (output.role ≠ .primary || output.tombstones.val ≠ 0)
    (.failedPrecondition "split children must be dense primaries")
  okOr (rows.checkedAdd output.rows) (.resourceExhausted "split output row count overflow")

def shardExists : Bool :=
  s.replicas.values.any fun held => held.shardId = shardId

def checkSplit : Except Status Unit := do
  refuseIf (outputs.length < 2)
    (.invalidArgument "SPLIT_SHARD completion needs at least two children")
  requireRangeTiling outputs source.hashLo source.hashHi
  let rows ← outputs.foldlM (splitRows action source) ⟨0, U64.zero_lt⟩
  refuseIf (rows.val ≠ source.liveRows)
    (.failedPrecondition "split children do not conserve source live rows")
  refuseIf (outputs.any fun output =>
      output.shardId ≠ source.shardId && shardExists s output.shardId)
    (.alreadyExists "a split child shard_id already exists")

def completeSplit : Mutation := do
  refusing s (checkSplit s action source outputs)
  .ok (replaceShard s source.shardId outputs)

/-- The primary of the merge's other shard. -/
def mergePeer : Option Replica :=
  s.replicas.values.find? fun r => r.shardId = action.peerShardId && r.role = .primary

/-- The merged copy is not one of two adjacent shards. -/
def mergeDiffers (output source peer : Replica) : Bool :=
  peer.scoringFingerprint ≠ source.scoringFingerprint ||
    peer.analysisFingerprint ≠ source.analysisFingerprint ||
    source.hashHi.val + 1 ≠ peer.hashLo.val || output.role ≠ .primary ||
    output.hashLo ≠ source.hashLo || output.hashHi ≠ peer.hashHi ||
    output.tombstones.val ≠ 0

def mergeNotConserved : Status :=
  .failedPrecondition "merge output does not conserve the adjacent inputs"

def checkMerge (source output : Replica) : Except Status Replica := do
  let peer ← okOr (mergePeer s action) (.failedPrecondition "merge peer is missing")
  refuseIf (peer.generation ≠ action.peerSourceGeneration)
    (.failedPrecondition "merge peer generation changed after planning")
  requireSameContract output source action.targetGeneration
  refuseIf (mergeDiffers output source peer) mergeNotConserved
  let rows ← okOr (U64.ofNat? (source.liveRows + peer.liveRows))
    (.resourceExhausted "merge live row count overflow")
  refuseIf (output.rows ≠ rows) mergeNotConserved
  refuseIf (output.shardId ≠ source.shardId && output.shardId ≠ peer.shardId &&
      shardExists s output.shardId)
    (.alreadyExists "merged output shard_id already exists")
  .ok peer

def completeMerge : Mutation := do
  let output ← refusing s (oneOutput "MERGE_SHARDS" outputs)
  let peer ← refusing s (checkMerge s action source output)
  .ok (insertReplica { s with
    replicas := s.replicas.retain fun held =>
      held.shardId ≠ source.shardId && held.shardId ≠ peer.shardId } output)

/-- The change an action's completion makes. -/
def mutate : Mutation :=
  match action.kind with
  | .copyReplica => completeCopy s action source outputs
  | .dropReplica => completeDrop s source outputs
  | .promoteReplica => completePromote s source nodeId outputs
  | .compactShard => completeCompact s action source outputs
  | .splitShard => completeSplit s action source outputs
  | .mergeShards => completeMerge s action source outputs
  | .unspecified =>
    .error (.failedPrecondition "cannot complete an unspecified placement action", s)

/-! ## The operation -/

structure CompletePlacementActionRequest where
  nodeId : String
  leaseToken : U64
  actionId : U64
  outputs : List ShardReplicaState

variable (req : CompletePlacementActionRequest)

/-- The copy an action works from: the one on its source node, else any primary of its shard. -/
def sourceOf : Option Replica :=
  (s.replicas.get? (replicaKey action.shardId action.sourceNodeId)).or
    (s.replicas.values.find? fun r => r.shardId = action.shardId && r.role = .primary)

def isCompleted (actionId : U64) : Bool := (s.completedActions.get? actionId).isSome

/-- What a completion works with once its request passed the checks. -/
structure CheckedCompletion where
  action : Action
  source : Replica
  outputs : List Replica
  revision : U64

/-- The checks of a completion made before anything is changed. -/
def checkCompletion : Except Status CheckedCompletion := do
  let action ← okOr (s.actions.find? fun action => action.actionId = req.actionId)
    (.notFound "placement action is not pending")
  let revision ← nextRevision s
  refuseIf (action.targetNodeId ≠ req.nodeId)
    (.permissionDenied "placement action belongs to a different target node")
  let source ← okOr (sourceOf s action)
    (.failedPrecondition "placement action source is missing")
  refuseIf (source.generation ≠ action.sourceGeneration)
    (.failedPrecondition "placement action source generation changed after planning")
  let outputs ← req.outputs.mapM (checkedOutput s req.nodeId)
  refuseIf (!(outputs.map Replica.shardId).Nodup)
    (.invalidArgument "placement action repeats an output shard_id")
  .ok ⟨action, source, outputs, revision⟩

/-- The most recent completions are remembered. -/
def completedLimit : ℕ := 4096

def recordCompleted (completed : OrderedMap U64 Unit) (actionId : U64) : OrderedMap U64 Unit :=
  let all := completed.insert actionId ()
  all.drop (all.entries.length - completedLimit)

def finishAction (revision : U64) : StoredState :=
  { s with
    actions := s.actions.filter fun pending => pending.actionId ≠ action.actionId
    completedActions := recordCompleted s.completedActions action.actionId
    revision := revision }

def completePending : Except Status StoredState := do
  let c ← checkCompletion s req
  let t ← (mutate s c.action c.source req.nodeId c.outputs).mapError Prod.fst
  .ok (finishAction t c.action c.revision)

/-- Complete an action; a repeated completion changes nothing. -/
def completeAction (now : U64) : Except Status StoredState := do
  let _ ← validateLease s req.nodeId req.leaseToken now
  if isCompleted s req.actionId then .ok s else completePending s req

end Model

/-! ## What an accepted completion has done -/

section

variable {s t : StoredState} {action : Action} {source : Replica} {outputs : List Replica}

lemma refusing_ok {α : Type} {x : Except Status α} {a : α} :
    refusing s x = .ok a ↔ x = .ok a := mapError_ok

lemma pushAction_ok {shard : Replica} {spec : ActionSpec} (h : pushAction s shard spec = .ok t) :
    t = s ∨ isPending s shard spec = false ∧ ∃ id : U64, id.val = s.nextAction.val + 1 ∧
      t = { s with nextAction := id, actions := s.actions ++ [actionOf s.nextAction shard spec] } := by
  unfold pushAction at h
  split at h
  · exact .inl (ok.inj h).symm
  · rename_i hnew
    obtain ⟨id, hid, h⟩ := bind_ok.1 h
    exact .inr ⟨Bool.eq_false_iff.2 hnew, id, U64.ofNat?_eq_some.1 (okOr_ok.1 hid),
      (ok.inj h).symm⟩

lemma oneOutput_ok {what : String} {output : Replica} (h : oneOutput what outputs = .ok output) :
    outputs = [output] := by
  unfold oneOutput at h
  split at h
  · cases h
    rfl
  · cases h

lemma completeCopy_ok (h : completeCopy s action source outputs = .ok t) :
    ∃ output, outputs = [output] ∧ requireSameContract output source action.targetGeneration = .ok () ∧
      copyDiffers output source = false ∧
        (takesOver s action source = false ∧ t = insertReplica s output ∨
          takesOver s action source = true ∧
            promoteCopy (insertReplica s output) source output = .ok t) := by
  obtain ⟨output, houtput, ⟨⟩, hcontract, _, hsame, h⟩ := bind₃_ok.1 h
  refine ⟨output, oneOutput_ok (refusing_ok.1 houtput), refusing_ok.1 hcontract,
    refuseIf_ok.1 (refusing_ok.1 hsame), ?_⟩
  split at h
  · rename_i htakes
    exact .inr ⟨htakes, h⟩
  · rename_i htakes
    exact .inl ⟨Bool.eq_false_iff.2 htakes, (ok.inj h).symm⟩

lemma completeDrop_ok (h : completeDrop s source outputs = .ok t) :
    outputs = [] ∧ t = { s with replicas := s.replicas.erase source.key } := by
  obtain ⟨_, hnone, h⟩ := bind_ok.1 h
  have hempty := refuseIf_ok.1 (refusing_ok.1 hnone)
  rw [Bool.not_eq_false', List.isEmpty_iff] at hempty
  exact ⟨hempty, (ok.inj h).symm⟩

lemma completePromote_ok {nodeId : String} (h : completePromote s source nodeId outputs = .ok t) :
    t = { s with replicas := promote s.replicas source.shardId nodeId } := by
  obtain ⟨_, h⟩ := rest_ok h
  exact (ok.inj h).symm

lemma completeCompact_ok (h : completeCompact s action source outputs = .ok t) :
    ∃ output, outputs = [output] ∧ requireSameContract output source action.targetGeneration = .ok () ∧
      compactionDiffers output source = false ∧ t = replaceShard s source.shardId [output] := by
  obtain ⟨output, houtput, ⟨⟩, hcontract, _, hsame, h⟩ := bind₃_ok.1 h
  exact ⟨output, oneOutput_ok (refusing_ok.1 houtput), refusing_ok.1 hcontract,
    refuseIf_ok.1 (refusing_ok.1 hsame), (ok.inj h).symm⟩

lemma completeSplit_ok (h : completeSplit s action source outputs = .ok t) :
    checkSplit s action source outputs = .ok () ∧ t = replaceShard s source.shardId outputs := by
  obtain ⟨⟨⟩, hchk, h⟩ := bind_ok.1 h
  exact ⟨refusing_ok.1 hchk, (ok.inj h).symm⟩

lemma completeMerge_ok (h : completeMerge s action source outputs = .ok t) :
    ∃ output peer, outputs = [output] ∧ checkMerge s action source output = .ok peer ∧
      t = insertReplica { s with
        replicas := s.replicas.retain fun held =>
          held.shardId ≠ source.shardId && held.shardId ≠ peer.shardId } output := by
  obtain ⟨output, houtput, peer, hpeer, h⟩ := bind₂_ok.1 h
  exact ⟨output, peer, oneOutput_ok (refusing_ok.1 houtput), refusing_ok.1 hpeer,
    (ok.inj h).symm⟩

lemma copyDiffers_eq_false {output : Replica} (h : copyDiffers output source = false) :
    output.role = .replica ∧ output.shardId = source.shardId ∧ output.hashLo = source.hashLo ∧
      output.hashHi = source.hashHi ∧ output.rows = source.rows ∧
        output.tombstones = source.tombstones := by
  simpa [copyDiffers, and_assoc] using h

lemma compactionDiffers_eq_false {output : Replica} (h : compactionDiffers output source = false) :
    output.role = .primary ∧ output.shardId = source.shardId ∧ output.hashLo = source.hashLo ∧
      output.hashHi = source.hashHi ∧ output.rows.val = source.liveRows ∧
        output.tombstones.val = 0 := by
  simpa [compactionDiffers, and_assoc] using h

lemma mergeDiffers_eq_false {output peer : Replica} (h : mergeDiffers output source peer = false) :
    source.hashHi.val + 1 = peer.hashLo.val ∧ output.role = .primary ∧ output.hashLo = source.hashLo ∧
      output.hashHi = peer.hashHi ∧ output.tombstones.val = 0 := by
  have hall : peer.scoringFingerprint = source.scoringFingerprint ∧
      peer.analysisFingerprint = source.analysisFingerprint ∧
      source.hashHi.val + 1 = peer.hashLo.val ∧ output.role = .primary ∧
      output.hashLo = source.hashLo ∧ output.hashHi = peer.hashHi ∧ output.tombstones.val = 0 := by
    simpa [mergeDiffers, and_assoc] using h
  exact hall.2.2

lemma checkMerge_ok {output peer : Replica} (h : checkMerge s action source output = .ok peer) :
    mergePeer s action = some peer ∧ mergeDiffers output source peer = false ∧
      output.rows.val = source.liveRows + peer.liveRows := by
  obtain ⟨found, hfound, _, -, _, -, h⟩ := bind₃_ok.1 h
  obtain ⟨_, hdiffers, rows, hrows, h⟩ := bind₂_ok.1 h
  obtain ⟨_, hsame, _, -, h⟩ := bind₂_ok.1 h
  cases h
  have heq : output.rows = rows := by simpa using refuseIf_ok.1 hsame
  exact ⟨okOr_ok.1 hfound, refuseIf_ok.1 hdiffers,
    heq ▸ U64.ofNat?_eq_some.1 (okOr_ok.1 hrows)⟩

/-- A change of copies and actions only. -/
structure CopiesOnly (s t : StoredState) : Prop where
  collection : t.collection = s.collection
  revision : t.revision = s.revision
  nextToken : t.nextToken = s.nextToken
  topology : t.topology = s.topology
  history : t.history = s.history
  nodes : t.nodes = s.nodes
  completedActions : t.completedActions = s.completedActions

lemma CopiesOnly.refl (s : StoredState) : CopiesOnly s s := ⟨rfl, rfl, rfl, rfl, rfl, rfl, rfl⟩

lemma CopiesOnly.trans {u : StoredState} (h : CopiesOnly s t) (h' : CopiesOnly t u) :
    CopiesOnly s u where
  collection := h'.collection.trans h.collection
  revision := h'.revision.trans h.revision
  nextToken := h'.nextToken.trans h.nextToken
  topology := h'.topology.trans h.topology
  history := h'.history.trans h.history
  nodes := h'.nodes.trans h.nodes
  completedActions := h'.completedActions.trans h.completedActions

lemma copiesOnly_replicas (s : StoredState) (replicas : OrderedMap String Replica) :
    CopiesOnly s { s with replicas := replicas } := ⟨rfl, rfl, rfl, rfl, rfl, rfl, rfl⟩

lemma copiesOnly_pushAction {shard : Replica} {spec : ActionSpec}
    (h : pushAction s shard spec = .ok t) : CopiesOnly s t := by
  rcases pushAction_ok h with rfl | ⟨-, id, -, rfl⟩
  · exact .refl t
  · exact ⟨rfl, rfl, rfl, rfl, rfl, rfl, rfl⟩

lemma copiesOnly_replaceShard (shardId : String) : CopiesOnly s (replaceShard s shardId outputs) := by
  have hinserts (u : StoredState) : CopiesOnly u (outputs.foldl insertReplica u) := by
    induction outputs generalizing u with
    | nil => exact .refl u
    | cons output outputs ih =>
      exact (copiesOnly_replicas u _).trans (ih (insertReplica u output))
  exact (copiesOnly_replicas s _).trans (hinserts _)

/-- **A completion changes copies and actions only**, besides the record of it. -/
theorem copiesOnly_mutate {nodeId : String} (h : mutate s action source nodeId outputs = .ok t) :
    CopiesOnly s t := by
  unfold mutate at h
  split at h
  · obtain ⟨output, -, -, -, ⟨-, rfl⟩ | ⟨-, hprom⟩⟩ := completeCopy_ok h
    · exact copiesOnly_replicas s _
    · exact ((copiesOnly_replicas s _).trans (copiesOnly_replicas (insertReplica s output) _)).trans
        (copiesOnly_pushAction (refusing_ok.1 hprom))
  · obtain ⟨-, rfl⟩ := completeDrop_ok h
    exact copiesOnly_replicas s _
  · obtain rfl := completePromote_ok h
    exact copiesOnly_replicas s _
  · obtain ⟨output, -, -, -, rfl⟩ := completeCompact_ok h
    exact copiesOnly_replaceShard _
  · obtain ⟨-, rfl⟩ := completeSplit_ok h
    exact copiesOnly_replaceShard _
  · obtain ⟨output, peer, -, -, rfl⟩ := completeMerge_ok h
    exact copiesOnly_replicas s _
  · cases h

/-- An accepted completion repeats an earlier one, or its mutation went through. -/
lemma completeAction_ok {req : CompletePlacementActionRequest} {now : U64}
    (h : completeAction s req now = .ok t) : t = s ∨ ∃ c u, checkCompletion s req = .ok c ∧
      mutate s c.action c.source req.nodeId c.outputs = .ok u ∧
        t = finishAction u c.action c.revision := by
  obtain ⟨_, h⟩ := rest_ok h
  split at h
  · exact .inl (ok.inj h).symm
  · obtain ⟨c, hc, u, hu, h⟩ := bind₂_ok.1 h
    exact .inr ⟨c, u, hc, mapError_ok.1 hu, (ok.inj h).symm⟩

end

end ProtomoltSearch.ControlPlane
