import ProtomoltSearch.ControlPlane.Invariants

/-!
# Actions that can be completed

An action is current when the copy it was planned from is still stored, at the generation it was
planned at, and what its kind needs besides still holds (`Current`). A current action whose target
holds a lease can be completed: some request is accepted (`completable_of_current`).
-/

namespace ProtomoltSearch.ControlPlane

open List U64

/-- The copy an action was planned from is stored at the generation it was planned at. -/
structure SourceHeld (s : StoredState) (action : Action) (held : Replica) : Prop where
  found : s.replicas.get? (replicaKey action.shardId action.sourceNodeId) = some held
  shard : held.shardId = action.shardId
  node : held.nodeId = action.sourceNodeId
  generation : held.generation = action.sourceGeneration

/-- The two sides of a merge fit each other. -/
structure MergesWith (action : Action) (held peer : Replica) : Prop where
  generation : peer.generation = action.peerSourceGeneration
  scoring : peer.scoringFingerprint = held.scoringFingerprint
  analysis : peer.analysisFingerprint = held.analysisFingerprint
  adjacent : held.hashHi.val + 1 = peer.hashLo.val
  rows : held.liveRows + peer.liveRows < 2 ^ 64

/-- What an action needs besides its source. -/
def KindReady (s : StoredState) (action : Action) (held : Replica) : ActionKind → Prop
  | .copyReplica => action.targetNodeId ≠ action.sourceNodeId
  | .dropReplica | .compactShard => True
  | .splitShard => held.hashLo < held.hashHi
  | .mergeShards => ∃ peer, mergePeer s action = some peer ∧ MergesWith action held peer
  | .promoteReplica | .unspecified => False

def Current (s : StoredState) (action : Action) : Prop :=
  ∃ held, SourceHeld s action held ∧ KindReady s action held action.kind

lemma SourceHeld.sourceOf {s : StoredState} {action : Action} {held : Replica}
    (h : SourceHeld s action held) : sourceOf s action = some held := by
  rw [ControlPlane.sourceOf, h.found, Option.some_or]

/-- What a node has made from a copy. -/
structure Output where
  shardId : String
  generation : U64
  hashLo : U64
  hashHi : U64
  rows : U64
  tombstones : U64
  role : Role
  range_le : hashLo ≤ hashHi
  tombstones_le : tombstones ≤ rows

/-- The output as it is reported: ready, on the node's own address. -/
def Output.wire (o : Output) (held : Replica) : ShardReplicaState where
  shardId := o.shardId
  nodeId := ""
  addr := ""
  generation := o.generation
  hashLo := o.hashLo
  hashHi := o.hashHi
  rows := o.rows
  bytes := o.rows
  role := some o.role
  ready := true
  scoringFingerprint := held.scoringFingerprint
  analysisFingerprint := held.analysisFingerprint
  immutableSegments := 1
  tombstones := o.tombstones

def Output.record (o : Output) (held : Replica) (nodeId addr : String) : Replica :=
  (⟨o.wire held, o.role, o.range_le, o.tombstones_le⟩ : CheckedCopy).store nodeId addr true

section Outputs

variable {s : StoredState} {action : Action} {held : Replica} {node : Node} {now : U64}

open Output

lemma checkedOutput_wire (o : Output) {target : String} (hnode : s.nodes.get? target = some node)
    (hnamed : isBlank o.shardId = false) :
    checkedOutput s target (o.wire held) = .ok (o.record held target node.addr) := by
  unfold checkedOutput
  rw [if_neg (by simp [wire, hnamed]), dif_pos ⟨o.range_le, o.tombstones_le⟩, checkOutputTarget,
    hnode]
  rfl

lemma requireSameContract_record (o : Output) (nodeId addr : String) :
    requireSameContract (o.record held nodeId addr) held o.generation = .ok () := by
  refine refuseIf_ok.2 ?_
  simp [record, wire, CheckedCopy.store]

/-- A completion whose mutation goes through is accepted. -/
lemma completeAction_returns (hs : Consistent s) (hact : action ∈ s.actions)
    (hheld : SourceHeld s action held) (hnode : s.nodes.get? action.targetNodeId = some node)
    (hlease : now < node.expiresUnixMs) (hrev : s.revision.val + 1 < 2 ^ 64)
    {wires : List ShardReplicaState} {outputs : List Replica}
    (houts : wires.mapM (checkedOutput s action.targetNodeId) = .ok outputs)
    (hdist : (outputs.map Replica.shardId).Nodup)
    (hmut : ∃ u, mutate s action held action.targetNodeId outputs = .ok u) :
    ∃ t, completeAction s ⟨action.targetNodeId, node.leaseToken, action.actionId, wires⟩ now = .ok t := by
  have hlease := validateLease_ok.2 ⟨hnode, (hs.nodes.of_get? hnode).2, rfl, hlease⟩
  obtain ⟨u, hu⟩ := hmut
  by_cases hdone : isCompleted s action.actionId = true
  · exact ⟨s, bind_ok.2 ⟨node, hlease, if_pos hdone⟩⟩
  have hnext : nextRevision s = .ok ⟨s.revision.val + 1, hrev⟩ := nextRevision_ok.2 rfl
  have hchk : checkCompletion s ⟨action.targetNodeId, node.leaseToken, action.actionId, wires⟩ =
      .ok ⟨action, held, outputs, ⟨s.revision.val + 1, hrev⟩⟩ := by
    refine bind_ok.2 ⟨action, okOr_ok.2 (hs.actions.find?_eq hact), ?_⟩
    refine bind_ok.2 ⟨_, hnext, bind_ok.2 ⟨⟨⟩, refuseIf_ok.2 (by simp), ?_⟩⟩
    refine bind_ok.2 ⟨held, okOr_ok.2 hheld.sourceOf, ?_⟩
    refine bind_ok.2 ⟨⟨⟩, refuseIf_ok.2 (by simp [hheld.generation]), ?_⟩
    exact bind_ok.2 ⟨outputs, houts, bind_ok.2 ⟨⟨⟩, refuseIf_ok.2 (by simp [hdist]), rfl⟩⟩
  refine ⟨finishAction u action ⟨s.revision.val + 1, hrev⟩, bind_ok.2 ⟨node, hlease, ?_⟩⟩
  rw [if_neg hdone]
  exact bind_ok.2 ⟨_, hchk, bind_ok.2 ⟨u, mapError_ok.2 hu, rfl⟩⟩

lemma pushAction_returns {shard : Replica} {spec : ActionSpec} (h : s.nextAction.val + 1 < 2 ^ 64) :
    ∃ t, pushAction s shard spec = .ok t := by
  unfold pushAction
  split
  · exact ⟨s, rfl⟩
  · exact ⟨_, bind_ok.2 ⟨⟨s.nextAction.val + 1, h⟩, okOr_ok.2 (ofNat?_eq_some.2 rfl), rfl⟩⟩

lemma promoteCopy_returns {source output : Replica} (h : s.nextAction.val + 1 < 2 ^ 64) :
    ∃ u, promoteCopy s source output = .ok u := by
  obtain ⟨u, hu⟩ : ∃ u, pushAction { s with
      replicas := promote s.replicas source.shardId output.nodeId } source (dropSpec source) = .ok u :=
    pushAction_returns h
  exact ⟨u, refusing_ok.2 hu⟩

/-- Outputs that pass their checks and go through the mutation. -/
def HasOutputs (s : StoredState) (action : Action) (held : Replica) : Prop :=
  ∃ (wires : List ShardReplicaState) (outputs : List Replica),
    wires.mapM (checkedOutput s action.targetNodeId) = .ok outputs ∧
      (outputs.map Replica.shardId).Nodup ∧
        ∃ u, mutate s action held action.targetNodeId outputs = .ok u

/-- One output that goes through the mutation. -/
lemma hasOutputs_one (o : Output) (hnode : s.nodes.get? action.targetNodeId = some node)
    (hnamed : isBlank o.shardId = false) (hmut : ∃ u,
      mutate s action held action.targetNodeId [o.record held action.targetNodeId node.addr] = .ok u) :
    HasOutputs s action held :=
  ⟨[o.wire held], _, mapM_cons_ok.2 ⟨_, [], checkedOutput_wire o hnode hnamed, rfl, rfl⟩,
    nodup_singleton _, hmut⟩

lemma hasOutputs_copy (hkind : action.kind = .copyReplica)
    (hnode : s.nodes.get? action.targetNodeId = some node) (hnamed : isBlank held.shardId = false)
    (hnext : s.nextAction.val + 1 < 2 ^ 64) : HasOutputs s action held := by
  let o : Output := ⟨held.shardId, action.targetGeneration, held.hashLo, held.hashHi, held.rows,
    held.tombstones, .replica, held.range_le, held.tombstones_le⟩
  refine hasOutputs_one o hnode hnamed ?_
  rw [mutate, hkind]
  have hsame : copyDiffers (o.record held action.targetNodeId node.addr) held = false := by
    simp [copyDiffers, o, record, wire, CheckedCopy.store]
  obtain ⟨u, hu⟩ : ∃ u, (if takesOver s action held then
      promoteCopy (insertReplica s (o.record held action.targetNodeId node.addr)) held
        (o.record held action.targetNodeId node.addr)
      else .ok (insertReplica s (o.record held action.targetNodeId node.addr))) = .ok u := by
    split
    · exact promoteCopy_returns hnext
    · exact ⟨_, rfl⟩
  refine ⟨u, bind_ok.2 ⟨_, refusing_ok.2 rfl, bind_ok.2 ⟨⟨⟩, ?_, bind_ok.2 ⟨⟨⟩, ?_, hu⟩⟩⟩⟩
  · exact refusing_ok.2 (requireSameContract_record o _ _)
  · exact refusing_ok.2 (refuseIf_ok.2 hsame)

lemma hasOutputs_drop (hkind : action.kind = .dropReplica) : HasOutputs s action held := by
  refine ⟨[], [], rfl, nodup_nil, ?_⟩
  rw [mutate, hkind]
  exact ⟨_, rfl⟩

def Replica.liveCount (r : Replica) : U64 := ⟨r.liveRows, (Nat.sub_le _ _).trans_lt r.rows.upper⟩

def noRows : U64 := ⟨0, U64.zero_lt⟩

lemma noRows_le (rows : U64) : noRows ≤ rows := U64.le_iff.2 (Nat.zero_le _)

lemma hasOutputs_compact (hkind : action.kind = .compactShard)
    (hnode : s.nodes.get? action.targetNodeId = some node) (hnamed : isBlank held.shardId = false) :
    HasOutputs s action held := by
  let o : Output := ⟨held.shardId, action.targetGeneration, held.hashLo, held.hashHi, held.liveCount,
    noRows, .primary, held.range_le, noRows_le _⟩
  refine hasOutputs_one o hnode hnamed ?_
  rw [mutate, hkind]
  have hsame : compactionDiffers (o.record held action.targetNodeId node.addr) held = false := by
    simp [compactionDiffers, o, record, wire, CheckedCopy.store, Replica.liveCount, noRows]
  refine ⟨_, bind_ok.2 ⟨_, refusing_ok.2 rfl, bind_ok.2 ⟨⟨⟩, ?_, bind_ok.2 ⟨⟨⟩, ?_, rfl⟩⟩⟩⟩
  · exact refusing_ok.2 (requireSameContract_record o _ _)
  · exact refusing_ok.2 (refuseIf_ok.2 hsame)

lemma hasOutputs_merge {peer : Replica} (hkind : action.kind = .mergeShards)
    (hnode : s.nodes.get? action.targetNodeId = some node) (hnamed : isBlank held.shardId = false)
    (hpeer : mergePeer s action = some peer) (hmerge : MergesWith action held peer) :
    HasOutputs s action held := by
  have hrange : held.hashLo ≤ peer.hashHi := by
    have h₁ : held.hashLo.val ≤ held.hashHi.val := held.range_le
    have h₂ : peer.hashLo.val ≤ peer.hashHi.val := peer.range_le
    have h₃ := hmerge.adjacent
    exact le_iff.2 (by omega)
  let o : Output := ⟨held.shardId, action.targetGeneration, held.hashLo, peer.hashHi,
    ⟨held.liveRows + peer.liveRows, hmerge.rows⟩, noRows, .primary, hrange, noRows_le _⟩
  refine hasOutputs_one o hnode hnamed ?_
  rw [mutate, hkind]
  have hfits : mergeDiffers (o.record held action.targetNodeId node.addr) held peer = false := by
    simp [mergeDiffers, o, record, wire, CheckedCopy.store, noRows, hmerge.scoring,
      hmerge.analysis, hmerge.adjacent]
  have hchk : checkMerge s action held (o.record held action.targetNodeId node.addr) = .ok peer := by
    refine bind_ok.2 ⟨peer, okOr_ok.2 hpeer, ?_⟩
    refine bind_ok.2 ⟨⟨⟩, refuseIf_ok.2 (by simp [hmerge.generation]), ?_⟩
    refine bind_ok.2 ⟨⟨⟩, requireSameContract_record o _ _, ?_⟩
    refine bind_ok.2 ⟨⟨⟩, refuseIf_ok.2 hfits, ?_⟩
    refine bind_ok.2 ⟨o.rows, okOr_ok.2 (ofNat?_eq_some.2 rfl), ?_⟩
    simp [o, record, wire, CheckedCopy.store]
  exact ⟨_, bind_ok.2 ⟨_, refusing_ok.2 rfl, bind_ok.2 ⟨peer, refusing_ok.2 hchk, rfl⟩⟩⟩

/-- A shard may be given a name that no copy has. -/
lemma exists_freshName (s : StoredState) :
    ∃ name, isBlank name = false ∧ ∀ r ∈ s.replicas.values, r.shardId ≠ name := by
  let name (n : ℕ) : String := String.ofList (List.replicate (n + 1) 'x')
  have hinj : Function.Injective name := by
    intro a b h
    simpa using congrArg List.length (String.ofList_injective h)
  obtain ⟨_, ⟨n, rfl⟩, hfresh⟩ := (Set.infinite_range_of_injective hinj).exists_notMem_finset
    (s.replicas.values.map Replica.shardId).toFinset
  refine ⟨name n, ?_, fun r hr heq => hfresh (mem_toFinset.2 (heq ▸ mem_map_of_mem hr))⟩
  rw [isBlank, String.toList_ofList]
  rfl

/-- A range cut after its first hash is tiled. -/
lemma requireRangeTiling_cut {left right : Replica} {lo hi : U64} (hlt : lo < hi)
    (hleft : left.hashLo = lo ∧ left.hashHi = lo) (hright : right.hashLo.val = lo.val + 1)
    (hend : right.hashHi = hi) : requireRangeTiling [left, right] lo hi = .ok () := by
  have hlt : lo.val < hi.val := hlt
  have hhi := hi.upper
  have hsort : ((([left, right].map fun o => (o.hashLo, o.hashHi)).insertionSort
      fun a b => pairLe a b)) = [(lo, lo), (right.hashLo, hi)] := by
    rw [map_cons, map_singleton, hleft.1, hleft.2, hend]
    refine List.Pairwise.insertionSort_eq (pairwise_pair.2 ?_)
    have hstart : lo < right.hashLo := lt_iff.2 (by omega)
    simp [pairLe, hstart]
  have hnext := val_injective ((wrap_val (by omega)).trans hright.symm)
  have hrange : ¬ hi < right.hashLo := not_lt.2 (le_iff.2 (by omega))
  have htile : tileFrom lo [(lo, lo), (right.hashLo, hi)] = .ok (U64.wrap (hi.val + 1)) := by
    rw [tileFrom, if_neg (by simp), tileFrom, hnext, if_neg (by simpa using hrange), tileFrom]
  refine bind_ok.2 ⟨U64.wrap (hi.val + 1), ?_, refuseIf_ok.2 ?_⟩
  · rw [hsort, htile]
  · have hmax : ([left, right].map Replica.hashHi).max? = some hi := by
      rw [map_cons, map_singleton, hleft.2, hend, max?_eq_some_iff]
      refine ⟨by simp, fun b hb => ?_⟩
      rcases mem_cons.1 hb with rfl | hb
      · exact le_iff.2 hlt.le
      · exact (mem_singleton.1 hb).le
    have hfits : hi ≠ U64.max → (U64.wrap (hi.val + 1)).val = hi.val + 1 := by
      intro hne
      refine wrap_val ?_
      by_contra hover
      exact hne (val_injective (show hi.val = 2 ^ 64 - 1 by omega))
    rw [hmax]
    simpa using hfits

/-- A dense primary adds its rows to the count of a split. -/
lemma splitRows_record {o : Output} {rows total : U64} {nodeId addr : String} (hrole : o.role = .primary)
    (hgen : o.generation = action.targetGeneration) (hdense : o.tombstones = noRows)
    (htotal : total.val = rows.val + o.rows.val) :
    splitRows action held rows (o.record held nodeId addr) = .ok total := by
  refine bind_ok.2 ⟨⟨⟩, hgen ▸ requireSameContract_record o nodeId addr, ?_⟩
  refine bind_ok.2 ⟨⟨⟩, refuseIf_ok.2 ?_, okOr_ok.2 (ofNat?_eq_some.2 htotal)⟩
  simp [record, wire, CheckedCopy.store, hrole, hdense, noRows]

lemma hasOutputs_split (hkind : action.kind = .splitShard)
    (hnode : s.nodes.get? action.targetNodeId = some node) (hnamed : isBlank held.shardId = false)
    (hheld : held ∈ s.replicas.values) (hlt : held.hashLo < held.hashHi) :
    HasOutputs s action held := by
  obtain ⟨name, hname, hfresh⟩ := exists_freshName s
  have hlt' : held.hashLo.val < held.hashHi.val := hlt
  have hupper := held.hashHi.upper
  let left : Output := ⟨held.shardId, action.targetGeneration, held.hashLo, held.hashLo, held.liveCount,
    noRows, .primary, le_rfl, noRows_le _⟩
  let right : Output := ⟨name, action.targetGeneration, ⟨held.hashLo.val + 1, by omega⟩, held.hashHi,
    noRows, noRows, .primary, le_iff.2 hlt', le_rfl⟩
  let children := [left.record held action.targetNodeId node.addr,
    right.record held action.targetNodeId node.addr]
  have hchecked : [left.wire held, right.wire held].mapM (checkedOutput s action.targetNodeId) =
      .ok children :=
    mapM_cons_ok.2 ⟨_, _, checkedOutput_wire left hnode hnamed,
      mapM_cons_ok.2 ⟨_, [], checkedOutput_wire right hnode hname, rfl, rfl⟩, rfl⟩
  have hdist := nodup_cons.2 ⟨fun h => hfresh held hheld (mem_singleton.1 h), nodup_singleton _⟩
  refine ⟨_, children, hchecked, hdist, ?_⟩
  rw [mutate, hkind]
  have htiling : requireRangeTiling children held.hashLo held.hashHi = .ok () :=
    requireRangeTiling_cut hlt ⟨rfl, rfl⟩ rfl rfl
  have hrows : children.foldlM (splitRows action held) noRows = .ok held.liveCount := by
    refine foldlM_cons_ok.2 ⟨held.liveCount, ?_, foldlM_cons_ok.2 ⟨held.liveCount, ?_, rfl⟩⟩
    · exact splitRows_record rfl rfl rfl (Nat.zero_add _).symm
    · exact splitRows_record rfl rfl rfl (Nat.add_zero _).symm
  have hchk : checkSplit s action held children = .ok () := by
    refine bind_ok.2 ⟨⟨⟩, rfl, bind_ok.2 ⟨⟨⟩, htiling, bind_ok.2 ⟨held.liveCount, hrows, ?_⟩⟩⟩
    refine bind_ok.2 ⟨⟨⟩, refuseIf_ok.2 (by simp [Replica.liveCount]), refuseIf_ok.2 ?_⟩
    refine any_eq_false.2 (forall_mem_cons.2 ⟨by simp [left, record, wire,
      CheckedCopy.store], forall_mem_cons.2 ⟨?_, fun _ h => absurd h not_mem_nil⟩⟩)
    have hnew : shardExists s name = false :=
      any_eq_false.2 fun r hr => by simpa using hfresh r hr
    simp [right, record, wire, CheckedCopy.store, hnew]
  exact ⟨_, bind_ok.2 ⟨⟨⟩, refusing_ok.2 hchk, rfl⟩⟩

/-- **A current action can be completed** by its target, while its lease runs. -/
theorem completable_of_current (hs : Consistent s) (hact : action ∈ s.actions)
    (hcur : Current s action) (hnode : s.nodes.get? action.targetNodeId = some node)
    (hlease : now < node.expiresUnixMs) (hrev : s.revision.val + 1 < 2 ^ 64)
    (hnext : s.nextAction.val + 1 < 2 ^ 64) :
    ∃ req t, req.actionId = action.actionId ∧ completeAction s req now = .ok t := by
  obtain ⟨held, hheld, hready⟩ := hcur
  have hmem := OrderedMap.mem_values_of_get? hheld.found
  have hnamed := hs.copies.named hmem
  have houts : HasOutputs s action held := by
    cases hkind : action.kind with
    | copyReplica => exact hasOutputs_copy hkind hnode hnamed hnext
    | dropReplica => exact hasOutputs_drop hkind
    | compactShard => exact hasOutputs_compact hkind hnode hnamed
    | splitShard =>
      rw [hkind] at hready
      exact hasOutputs_split hkind hnode hnamed hmem hready
    | mergeShards =>
      rw [hkind] at hready
      obtain ⟨peer, hpeer, hmerge⟩ := hready
      exact hasOutputs_merge hkind hnode hnamed hpeer hmerge
    | promoteReplica | unspecified =>
      rw [hkind] at hready
      exact hready.elim
  obtain ⟨wires, outputs, hchk, hdist, hmut⟩ := houts
  obtain ⟨t, ht⟩ :=
    completeAction_returns hs hact hheld hnode hlease hrev hchk hdist hmut
  exact ⟨_, t, rfl, ht⟩

end Outputs

end ProtomoltSearch.ControlPlane
