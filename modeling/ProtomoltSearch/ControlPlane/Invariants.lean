import ProtomoltSearch.ControlPlane.Runs

/-!
# What every run keeps

Copies are stored under their own keys and have names, nodes are stored under their names and hold
tokens, and pending actions are numbered in the order they were planned (`Consistent`). These hold in
every state of every run from an empty store, whatever the operations are (`consistent_run`).
-/

namespace ProtomoltSearch.ControlPlane

open List OrderedMap

/-! ## Copies -/

/-- Every copy is stored under its own key, and its shard has a name. -/
def WellStored (m : OrderedMap String Replica) : Prop :=
  ∀ e ∈ m.entries, e.1 = e.2.key ∧ isBlank e.2.shardId = false

namespace WellStored

variable {m : OrderedMap String Replica} {r : Replica}

section

variable (h : WellStored m)

include h

lemma insert (hr : isBlank r.shardId = false) : WellStored (m.insert r.key r) := by
  intro e he
  rcases mem_insert.1 he with rfl | ⟨he, -⟩
  · exact ⟨rfl, hr⟩
  · exact h e he

lemma erase (k : String) : WellStored (m.erase k) :=
  fun e he => h e (mem_erase.1 he).1

lemma retain (p : Replica → Bool) : WellStored (m.retain p) :=
  fun e he => h e (mem_retain.1 he).1

lemma promote (shardId nodeId : String) : WellStored (promote m shardId nodeId) := by
  intro e he
  obtain ⟨_, hheld, hrole⟩ := mem_mapValues.1 he
  obtain ⟨hkey, hblank⟩ := h _ hheld
  rw [← hrole]
  split
  · exact ⟨hkey, hblank⟩
  · exact ⟨hkey, hblank⟩

lemma get?_key (hr : r ∈ m.values) : m.get? r.key = some r := by
  obtain ⟨k, hk⟩ := mem_values.1 hr
  obtain rfl : k = r.key := (h _ hk).1
  exact get?_eq_some.2 hk

lemma key_of_get? {k : String} (hr : m.get? k = some r) : r.key = k :=
  (h _ (get?_eq_some.1 hr)).1.symm

lemma named (hr : r ∈ m.values) : isBlank r.shardId = false := by
  obtain ⟨k, hk⟩ := mem_values.1 hr
  exact (h _ hk).2

end

end WellStored

lemma replicaKey_inj_left {shardId shardId' nodeId : String}
    (h : replicaKey shardId nodeId = replicaKey shardId' nodeId) : shardId = shardId' := by
  exact (String.append_left_inj _).1 ((String.append_left_inj _).1 h)

lemma replicaKey_inj_right {shardId nodeId nodeId' : String}
    (h : replicaKey shardId nodeId = replicaKey shardId nodeId') : nodeId = nodeId' := by
  exact (String.append_right_inj _).1 h

variable {s : StoredState}

/-- An accepted output is the record of a ready copy with a name, on the target's node. -/
lemma checkedOutput_ok {target : String} {wire : ShardReplicaState} {output : Replica}
    (h : checkedOutput s target wire = .ok output) : isBlank wire.shardId = false ∧
    ∃ (c : CheckedCopy) (addr : String), c.wire = wire ∧ output = c.store target addr true := by
  unfold checkedOutput at h
  split at h
  · cases h
  rename_i hnamed
  split at h
  · obtain ⟨_, -, node, -, h⟩ := bind₂_ok.1 h
    obtain ⟨addr, -, copy, hcopy, h⟩ := bind₂_ok.1 h
    obtain ⟨role, -, hcopy⟩ := bind_ok.1 hcopy
    cases hcopy
    refine ⟨?_, _, addr, rfl, (Except.ok.inj h).symm⟩
    exact (Bool.or_eq_false_iff.1 (Bool.eq_false_iff.2 hnamed)).1
  · cases h

structure GoodOutputs (nodeId : String) (outputs : List Replica) : Prop where
  named : ∀ output ∈ outputs, isBlank output.shardId = false
  placed : ∀ output ∈ outputs, output.nodeId = nodeId ∧ output.ready = true
  distinct : (outputs.map Replica.shardId).Nodup

variable {outputs : List Replica}

/-- Every output is one the request carries. -/
lemma exists_wire {nodeId : String} {wires : List ShardReplicaState}
    (h : wires.mapM (checkedOutput s nodeId) = .ok outputs) {output : Replica}
    (houtput : output ∈ outputs) : ∃ wire ∈ wires, checkedOutput s nodeId wire = .ok output := by
  obtain ⟨i, hi⟩ := mem_iff_getElem?.1 houtput
  obtain ⟨wire, hwire, hchk⟩ := (mapM_getElem? h).2 i output hi
  exact ⟨wire, mem_of_getElem? hwire, hchk⟩

lemma checkCompletion_ok {req : CompletePlacementActionRequest}
    {c : CheckedCompletion} (h : checkCompletion s req = .ok c) :
    (s.actions.find? fun action => action.actionId = req.actionId) = some c.action ∧
      c.action.targetNodeId = req.nodeId ∧ sourceOf s c.action = some c.source ∧
      c.source.generation = c.action.sourceGeneration ∧
      req.outputs.mapM (checkedOutput s req.nodeId) = .ok c.outputs ∧
      GoodOutputs req.nodeId c.outputs ∧ c.revision.val = s.revision.val + 1 := by
  obtain ⟨action, hact, revision, hrev, _, htarget, h⟩ := bind₃_ok.1 h
  obtain ⟨source, hsrc, _, hgen, h⟩ := bind₂_ok.1 h
  obtain ⟨outputs, houts, _, hdist, h⟩ := bind₂_ok.1 h
  cases h
  refine ⟨okOr_ok.1 hact, ?_, okOr_ok.1 hsrc, ?_, houts, ⟨?_, ?_, ?_⟩,
    nextRevision_ok.1 hrev⟩
  · simpa using refuseIf_ok.1 htarget
  · simpa using refuseIf_ok.1 hgen
  · intro output hmem
    obtain ⟨wire, -, hwire⟩ := exists_wire houts hmem
    obtain ⟨hnamed, c, addr, rfl, rfl⟩ := checkedOutput_ok hwire
    exact hnamed
  · intro output hmem
    obtain ⟨wire, -, hwire⟩ := exists_wire houts hmem
    obtain ⟨-, c, addr, -, rfl⟩ := checkedOutput_ok hwire
    exact ⟨rfl, rfl⟩
  · simpa using refuseIf_ok.1 hdist

section

variable {s t : StoredState} {action : Action} {source : Replica} {nodeId : String}
  {outputs : List Replica}

lemma WellStored.inserts (h : WellStored s.replicas)
    (hnamed : ∀ output ∈ outputs, isBlank output.shardId = false) :
    WellStored (outputs.foldl insertReplica s).replicas := by
  induction outputs generalizing s with
  | nil => exact h
  | cons output outputs ih =>
    obtain ⟨hhead, htail⟩ := forall_mem_cons.1 hnamed
    exact ih (WellStored.insert h hhead) htail

lemma pushAction_replicas {shard : Replica} {spec : ActionSpec}
    (h : pushAction s shard spec = .ok t) : t.replicas = s.replicas := by
  rcases pushAction_ok h with rfl | ⟨-, id, -, rfl⟩
  · rfl
  · rfl

/-- A completion stores its copies under their keys. -/
lemma WellStored.mutate (h : WellStored s.replicas)
    (hnamed : ∀ output ∈ outputs, isBlank output.shardId = false)
    (ht : mutate s action source nodeId outputs = .ok t) : WellStored t.replicas := by
  unfold ControlPlane.mutate at ht
  split at ht
  · obtain ⟨output, rfl, -, -, ⟨-, rfl⟩ | ⟨-, hprom⟩⟩ := completeCopy_ok ht
    · exact h.insert (hnamed output mem_cons_self)
    · rw [pushAction_replicas (refusing_ok.1 hprom)]
      exact (h.insert (hnamed output mem_cons_self)).promote _ _
  · obtain ⟨-, rfl⟩ := completeDrop_ok ht
    exact h.erase _
  · obtain rfl := completePromote_ok ht
    exact h.promote _ _
  · obtain ⟨output, rfl, -, -, rfl⟩ := completeCompact_ok ht
    exact WellStored.inserts (h.retain _) hnamed
  · obtain ⟨-, rfl⟩ := completeSplit_ok ht
    exact WellStored.inserts (h.retain _) hnamed
  · obtain ⟨output, peer, rfl, -, rfl⟩ := completeMerge_ok ht
    exact (h.retain _).insert (hnamed output mem_cons_self)
  · cases ht

end

/-! ## Actions -/

lemma replaceShard_actions (s : StoredState) (shardId : String) (outputs : List Replica) :
    (replaceShard s shardId outputs).actions = s.actions ∧
      (replaceShard s shardId outputs).nextAction = s.nextAction := by
  have hinserts (u : StoredState) : (outputs.foldl insertReplica u).actions = u.actions ∧
      (outputs.foldl insertReplica u).nextAction = u.nextAction := by
    induction outputs generalizing u with
    | nil => exact ⟨rfl, rfl⟩
    | cons output outputs ih => exact ih (insertReplica u output)
  exact hinserts _

/-- A completion plans no action, but for the drop of the copy that is taken over from. -/
lemma mutate_actions {s t : StoredState} {action : Action} {source : Replica} {nodeId : String}
    (h : mutate s action source nodeId outputs = .ok t) :
    (t.actions = s.actions ∧ t.nextAction = s.nextAction) ∨ ∃ output, action.kind = .copyReplica ∧
    outputs = [output] ∧ promoteCopy (insertReplica s output) source output = .ok t := by
  unfold mutate at h
  split at h
  · rename_i hkind
    obtain ⟨output, rfl, -, -, ⟨-, rfl⟩ | ⟨-, hprom⟩⟩ := completeCopy_ok h
    · exact .inl ⟨rfl, rfl⟩
    · exact .inr ⟨output, hkind, rfl, hprom⟩
  · obtain ⟨-, rfl⟩ := completeDrop_ok h
    exact .inl ⟨rfl, rfl⟩
  · obtain rfl := completePromote_ok h
    exact .inl ⟨rfl, rfl⟩
  · obtain ⟨output, -, -, -, rfl⟩ := completeCompact_ok h
    exact .inl (replaceShard_actions _ _ _)
  · obtain ⟨-, rfl⟩ := completeSplit_ok h
    exact .inl (replaceShard_actions _ _ _)
  · obtain ⟨output, peer, -, -, rfl⟩ := completeMerge_ok h
    exact .inl ⟨rfl, rfl⟩
  · cases h

/-- Pending actions are numbered in the order they were planned. -/
structure Numbered (s : StoredState) : Prop where
  sorted : s.actions.Pairwise fun a b => a.actionId < b.actionId
  fresh : ∀ a ∈ s.actions, a.actionId < s.nextAction

namespace Numbered

variable {s t : StoredState}

section

variable (h : Numbered s)

include h

lemma push {shard : Replica} {spec : ActionSpec} {id : U64} (hid : id.val = s.nextAction.val + 1) :
    Numbered { s with
      nextAction := id
      actions := s.actions ++ [actionOf s.nextAction shard spec] } := by
  have hlt : s.nextAction < id := U64.lt_iff.2 (by omega)
  refine ⟨pairwise_append.2 ⟨h.sorted, pairwise_singleton _ _, fun a ha b hb => ?_⟩, ?_⟩
  · obtain rfl := mem_singleton.1 hb
    exact h.fresh a ha
  · intro a ha
    rcases mem_append.1 ha with ha | ha
    · exact (h.fresh a ha).trans hlt
    · obtain rfl := mem_singleton.1 ha
      exact hlt

lemma pushAction {shard : Replica} {spec : ActionSpec} (ht : pushAction s shard spec = .ok t) :
    Numbered t := by
  rcases pushAction_ok ht with rfl | ⟨-, id, hid, rfl⟩
  · exact h
  · exact h.push hid

lemma of_eq (hacts : t.actions = s.actions) (hnext : t.nextAction = s.nextAction) : Numbered t :=
  ⟨hacts ▸ h.sorted, hacts ▸ hnext ▸ h.fresh⟩

lemma finish (action : Action) (revision : U64) : Numbered (finishAction s action revision) :=
  ⟨h.sorted.filter _, fun a ha => h.fresh a (mem_of_mem_filter ha)⟩

/-- A pending action is found under its number. -/
lemma find?_eq {a : Action} (ha : a ∈ s.actions) :
    (s.actions.find? fun action => action.actionId = a.actionId) = some a := by
  cases hfind : s.actions.find? fun action => action.actionId = a.actionId with
  | none => exact absurd (decide_eq_true rfl) (find?_eq_none.1 hfind a ha)
  | some b =>
    have hid : b.actionId = a.actionId := by simpa using find?_some hfind
    have hb : b ∈ s.actions := mem_of_find?_eq_some hfind
    have hnd := pairwise_map.2 (h.sorted.imp fun hlt => hlt.ne)
    exact congrArg some (inj_on_of_nodup_map hnd hb ha hid)

end

end Numbered

/-! ## Nodes -/

/-- Every node is stored under its name and holds a token. -/
def WellLeased (m : OrderedMap String Node) : Prop :=
  ∀ e ∈ m.entries, e.1 = e.2.nodeId ∧ e.2.leaseToken.val ≠ 0

namespace WellLeased

variable {m : OrderedMap String Node} {node : Node} {nodeId : String}

lemma insert (h : WellLeased m) (hname : nodeId = node.nodeId)
    (htoken : node.leaseToken.val ≠ 0) : WellLeased (m.insert nodeId node) := by
  intro e he
  rcases mem_insert.1 he with rfl | ⟨he, -⟩
  · exact ⟨hname, htoken⟩
  · exact h e he

lemma get?_eq (h : WellLeased m) (hnode : node ∈ m.values) : m.get? node.nodeId = some node := by
  obtain ⟨k, hk⟩ := mem_values.1 hnode
  obtain rfl : k = node.nodeId := (h _ hk).1
  exact get?_eq_some.2 hk

lemma of_get? (h : WellLeased m) (hnode : m.get? nodeId = some node) :
    nodeId = node.nodeId ∧ node.leaseToken.val ≠ 0 := h _ (get?_eq_some.1 hnode)

end WellLeased

lemma expireLeases_wellLeased (h : WellLeased s.nodes) (now : U64) :
    WellLeased (expireLeases s now).nodes := by
  intro e he
  obtain ⟨node, hnode, hst⟩ := mem_mapValues.1 he
  obtain ⟨hname, htoken⟩ := h _ hnode
  rw [← hst]
  split
  · exact ⟨hname, htoken⟩
  · exact ⟨hname, htoken⟩

/-! ## Runs -/

/-- What holds in every state. -/
structure Consistent (s : StoredState) : Prop where
  copies : WellStored s.replicas
  actions : Numbered s
  nodes : WellLeased s.nodes
  token : s.nextToken.val ≠ 0

lemma consistent_default : Consistent .default where
  copies := fun _ he => absurd he not_mem_nil
  actions := ⟨List.Pairwise.nil, fun _ ha => absurd ha not_mem_nil⟩
  nodes := fun _ he => absurd he not_mem_nil
  token := Nat.one_ne_zero

namespace Consistent

variable {policy : ControlPolicy} {s t : StoredState}

section

variable (h : Consistent s)

include h

lemma planStep {phase : Phase} (hstep : PlanStep policy phase s t) : Consistent t := by
  cases hstep with
  | promote _ => exact { h with copies := h.copies.promote _ _, actions := ⟨h.actions.1, h.actions.2⟩ }
  | push _ _ hid => exact ⟨h.copies, h.actions.push hid, h.nodes, h.token⟩

lemma planAll {now : U64} (ht : planAll policy s now = .ok t) : Consistent t :=
  planAll_keeps
    ⟨h.copies, ⟨h.actions.1, h.actions.2⟩, expireLeases_wellLeased h.nodes now, h.token⟩
    (fun _ _ _ hu hstep => hu.planStep hstep) ht

lemma publish {changed : Bool} (ht : publish policy s = .ok (t, changed)) : Consistent t := by
  rcases publish_ok ht with rfl | ⟨routes, generation, -, -, rfl⟩
  · exact h
  · exact ⟨h.copies, ⟨h.actions.1, h.actions.2⟩, h.nodes, h.token⟩

lemma mutate {action : Action} {source : Replica} {nodeId : String} {outputs : List Replica}
    (hnamed : ∀ output ∈ outputs, isBlank output.shardId = false)
    (ht : mutate s action source nodeId outputs = .ok t) : Consistent t := by
  have hsame : CopiesOnly s t := copiesOnly_mutate ht
  refine ⟨h.copies.mutate hnamed ht, ?_, hsame.nodes ▸ h.nodes, hsame.nextToken ▸ h.token⟩
  rcases mutate_actions ht with ⟨hacts, hnext⟩ | ⟨output, -, -, hprom⟩
  · exact h.actions.of_eq hacts hnext
  · refine Numbered.pushAction ?_ (refusing_ok.1 hprom)
    exact h.actions.of_eq rfl rfl

lemma finish (action : Action) (revision : U64) : Consistent (finishAction s action revision) :=
  ⟨h.copies, h.actions.finish action revision, h.nodes, h.token⟩

lemma completeAction {req : CompletePlacementActionRequest} {now : U64}
    (ht : completeAction s req now = .ok t) : Consistent t := by
  rcases completeAction_ok ht with rfl | ⟨c, u, hc, hu, rfl⟩
  · exact h
  · obtain ⟨-, -, -, -, -, hgood, -⟩ := checkCompletion_ok hc
    exact (h.mutate hgood.named hu).finish c.action c.revision

lemma report {req : ReportShardRequest} {now : U64}
    (ht : report s req now = .ok t) : Consistent t := by
  obtain ⟨copy, node, addr, revision, hcopy, -, -, rfl⟩ := report_ok ht
  obtain ⟨-, -, hnamed⟩ := checkReport_ok hcopy
  have hstored :=
    WellStored.insert (r := copy.store req.nodeId addr copy.wire.ready) h.copies hnamed
  exact ⟨hstored, ⟨h.actions.1, h.actions.2⟩, h.nodes, h.token⟩

/-- An accepted operation keeps the state consistent. -/
lemma apply {op : Op} (ht : apply policy s op = some t) : Consistent t := by
  cases op with
  | withCollection name =>
    have hok := toOption_eq_some.1 ht
    unfold bindCollection at hok
    split at hok
    · cases hok
      exact ⟨h.copies, ⟨h.actions.1, h.actions.2⟩, h.nodes, h.token⟩
    · split at hok
      · cases hok
      · cases hok
        exact h
  | bootstrapTopology generation wire =>
    obtain ⟨routes, -, rfl⟩ := toOption_map_eq_some.1 ht
    unfold bootstrapLocked
    split
    · exact ⟨h.copies, ⟨h.actions.1, h.actions.2⟩, h.nodes, h.token⟩
    · exact h
  | register req now =>
    obtain ⟨⟨_, lease⟩, hok, rfl⟩ := toOption_map_eq_some.1 ht
    obtain ⟨nextToken, revision, expires, htoken, -, rfl⟩ := register_ok hok
    exact ⟨h.copies, ⟨h.actions.1, h.actions.2⟩, h.nodes.insert rfl h.token, by
      show nextToken.val ≠ 0
      omega⟩
  | renew req now =>
    obtain ⟨⟨_, lease⟩, hok, rfl⟩ := toOption_map_eq_some.1 ht
    obtain ⟨node, revision, expires, hnode, -, rfl⟩ := renew_ok hok
    obtain ⟨hname, htoken⟩ := h.nodes.of_get? hnode
    exact ⟨h.copies, ⟨h.actions.1, h.actions.2⟩, h.nodes.insert hname htoken, h.token⟩
  | drain req now =>
    obtain ⟨node, revision, hnode, -, rfl⟩ := drain_ok (toOption_eq_some.1 ht)
    obtain ⟨hname, htoken⟩ := h.nodes.of_get? hnode
    exact ⟨h.copies, ⟨h.actions.1, h.actions.2⟩, h.nodes.insert hname htoken, h.token⟩
  | report req now => exact h.report (toOption_eq_some.1 ht)
  | completeAction req now => exact h.completeAction (toOption_eq_some.1 ht)
  | reconcile dryRun now =>
    obtain ⟨⟨after, changed⟩, hok, rfl⟩ := toOption_map_eq_some.1 ht
    cases dryRun with
    | true => exact h
    | false =>
      obtain ⟨revision, planned, published, -, hplan, hpub, rfl⟩ := reconcileLocked_ok hok
      have hcons := (h.planAll hplan).publish hpub
      exact ⟨hcons.copies, ⟨hcons.actions.1, hcons.actions.2⟩, hcons.nodes, hcons.token⟩
  | rollback requested =>
    obtain ⟨position, old, generation, revision, -, -, -, -, rfl⟩ :=
      rollback_ok (toOption_eq_some.1 ht)
    exact ⟨h.copies, ⟨h.actions.1, h.actions.2⟩, h.nodes, h.token⟩
  | plan =>
    cases ht
    exact h

lemma next (op : Op) : Consistent (next policy s op) :=
  next_keeps h fun _ ht => h.apply ht

end

end Consistent

/-- **Every state of every run from an empty store is consistent.** -/
theorem consistent_run (policy : ControlPolicy) (ops : List Op) :
    Consistent (run policy .default ops) :=
  Runs.run_past (I := fun _ => Consistent) consistent_default fun _ op h => h.next op

end ProtomoltSearch.ControlPlane
