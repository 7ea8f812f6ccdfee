import ProtomoltSearch.ControlPlane.Invariants

/-!
# Completing a drop

A drop is planned when a replacement is promoted and completed later. In between the old copy may be
promoted again; the completion removes it all the same (`not_drop_keeps_copies`). It keeps every
primary, and an available copy of every shard that has one, when the old copy is still a replica and
its shard still has a ready primary on an active node (`drop_keeps_copies`).
-/

namespace ProtomoltSearch.ControlPlane

open OrderedMap

variable {policy : ControlPolicy} {s t : StoredState}

/-- A ready copy of the shard is on an active node. -/
def HasAvailableCopy (s : StoredState) (shardId : String) : Prop :=
  ∃ r ∈ s.replicas.values, r.shardId = shardId ∧ r.ready = true ∧ activeNode s r.nodeId = true

def CompletesDrop (s : StoredState) (req : CompletePlacementActionRequest) : Prop :=
  ∃ action ∈ s.actions, action.actionId = req.actionId ∧ action.kind = .dropReplica

instance (s : StoredState) (shardId : String) : Decidable (HasAvailableCopy s shardId) :=
  inferInstanceAs (Decidable (∃ r ∈ s.replicas.values, _))

instance (s : StoredState) (req : CompletePlacementActionRequest) : Decidable (CompletesDrop s req) :=
  inferInstanceAs (Decidable (∃ action ∈ s.actions, _))

/-- Every primary stays, and every shard with an available copy keeps one. -/
structure KeepsCopies (s t : StoredState) : Prop where
  primaries : ∀ r ∈ s.replicas.values, r.role = .primary → r ∈ t.replicas.values
  available : ∀ shardId, HasAvailableCopy s shardId → HasAvailableCopy t shardId

/-- The old copy is still a replica, and its shard has a ready primary on an active node. -/
def Replaced (s : StoredState) (action : Action) : Prop :=
  ∃ held ∈ s.replicas.get? (replicaKey action.shardId action.sourceNodeId), held.role = .replica ∧
    ∃ r ∈ s.replicas.values, r.shardId = held.shardId ∧ r.role = .primary ∧ r.ready = true ∧
      activeNode s r.nodeId = true

/-- What a completion must find: the copy that a drop removes has been replaced. -/
def DropCondition (s : StoredState) : Op → Prop
  | .completeAction req _ => ∀ action ∈ s.actions, action.actionId = req.actionId →
      action.kind = .dropReplica → Replaced s action
  | _ => True

instance (s : StoredState) (action : Action) : Decidable (Replaced s action) :=
  inferInstanceAs (Decidable (∃ held ∈ s.replicas.get? _, _))

instance decidableDropCondition (s : StoredState) : ∀ op, Decidable (DropCondition s op)
  | .completeAction _ _ => inferInstanceAs (Decidable (∀ action ∈ s.actions, _))
  | .reconcile _ _ | .rollback _ | .bootstrapTopology _ _ | .withCollection _ | .register _ _
  | .renew _ _ | .drain _ _ | .report _ _ | .plan => isTrue trivial

lemma KeepsCopies.refl (s : StoredState) : KeepsCopies s s := ⟨fun _ h _ => h, fun _ h => h⟩

/-- Removing a copy that has been replaced. -/
lemma keepsCopies_erase {held r : Replica}
    (hheld : s.replicas.get? held.key = some held) (hrole : held.role = .replica)
    (hr : r ∈ s.replicas.values) (hshard : r.shardId = held.shardId) (hprim : r.role = .primary)
    (hready : r.ready = true) (hactive : activeNode s r.nodeId = true) (hnodes : t.nodes = s.nodes)
    (ht : t.replicas = s.replicas.erase held.key) : KeepsCopies s t := by
  -- only the entry of the old copy goes
  have hstays {q : Replica} (hq : q ∈ s.replicas.values) (hne : q ≠ held) : q ∈ t.replicas.values := by
    obtain ⟨k, hk⟩ := mem_values.1 hq
    rw [ht]
    refine mem_values.2 ⟨k, mem_erase.2 ⟨hk, fun hkey => hne ?_⟩⟩
    subst hkey
    exact eq_of_mem hk (get?_eq_some.1 hheld)
  have hne {q : Replica} (hq : q.role = .primary) : q ≠ held := by
    rintro rfl
    rw [hrole] at hq
    cases hq
  have hsame (nodeId : String) : activeNode t nodeId = activeNode s nodeId := by
    rw [activeNode, activeNode, hnodes]
  refine ⟨fun q hq hqrole => hstays hq (hne hqrole), ?_⟩
  rintro shardId ⟨q, hq, rfl, hqready, hqactive⟩
  by_cases hqheld : q = held
  · subst hqheld
    exact ⟨r, hstays hr (hne hprim), hshard, hready, (hsame _).trans hactive⟩
  · exact ⟨q, hstays hq hqheld, rfl, hqready, (hsame _).trans hqactive⟩

lemma keepsCopies_completeAction {req : CompletePlacementActionRequest} {now : U64}
    (hs : Consistent s) (hdrop : CompletesDrop s req)
    (hC : DropCondition s (.completeAction req now)) (h : completeAction s req now = .ok t) :
    KeepsCopies s t := by
  rcases completeAction_ok h with rfl | ⟨c, u, hc, hu, rfl⟩
  · exact .refl t
  obtain ⟨hfind, -, hsrc, -, -, -, -⟩ := checkCompletion_ok hc
  obtain ⟨action, hact, hid, hkind⟩ := hdrop
  have hfound : c.action = action := by
    rw [← hid, hs.actions.find?_eq hact] at hfind
    exact (Option.some.inj hfind).symm
  subst hfound
  obtain ⟨held, hheld, hrole, r, hr, hshard, hprim, hready, hactive⟩ :=
    hC c.action hact hid hkind
  have hkey := hs.copies.key_of_get? hheld
  have heq : held = c.source := by
    rw [sourceOf, hheld] at hsrc
    exact Option.some.inj hsrc
  rw [mutate, hkind] at hu
  obtain ⟨-, rfl⟩ := completeDrop_ok hu
  rw [← heq]
  exact keepsCopies_erase (hkey.symm ▸ hheld) hrole hr hshard hprim hready hactive rfl rfl

/-- **Completing a drop keeps every primary and the availability of every shard**, in every run whose
drops are completed when the copy has been replaced. -/
theorem drop_keeps_copies (policy : ControlPolicy) (ops : List Op)
    (hops : Meets policy DropCondition .default ops) (pre suf : List Op)
    (req : CompletePlacementActionRequest) (now : U64)
    (hsplit : ops = pre ++ .completeAction req now :: suf)
    (hdrop : CompletesDrop (run policy .default pre) req) :
    KeepsCopies (run policy .default pre) (run policy .default (pre ++ [.completeAction req now])) := by
  subst hsplit
  obtain ⟨-, hC, -⟩ := Runs.meets_append.1 hops
  rw [run, Runs.run_append]
  refine next_keeps (.refl _) fun t ht => ?_
  exact keepsCopies_completeAction (consistent_run policy pre) hdrop hC (toOption_eq_some.1 ht)

def Op.completes (nodeId : String) (token now action : ℕ) (outputs : List ShardReplicaState) : Op :=
  .completeAction ⟨nodeId, U64.wrap token, U64.wrap action, outputs⟩ (U64.wrap now)

/-- A shard moves off a draining node to another, which is promoted; the old copy is to be dropped. -/
def movesShard : List Op :=
  [.joins "A" 0, .reports "A" 1 1 (smallCopy "a" 1 10 1 fullRange .primary), .joins "B" 1,
    .drain ⟨"A", U64.wrap 1⟩ (U64.wrap 1), .reconcile false (U64.wrap 2),
    .completes "B" 2 3 1 [smallCopy "a" 1 10 1 fullRange .replica]]

theorem drop_keeps_copies_movesShard :
    KeepsCopies (run smallPolicy .default movesShard)
      (run smallPolicy .default (movesShard ++ [.completes "A" 1 4 2 []])) :=
  drop_keeps_copies smallPolicy (movesShard ++ [.completes "A" 1 4 2 []]) (by decide +kernel) movesShard
    [] _ _ rfl (by decide +kernel)

/-- The node of the new copy loses its lease before the old copy is dropped, and the old copy, on a node
that has joined again, is promoted. -/
def promotesBack : List Op := movesShard ++ [.joins "A" 9000, .reconcile false (U64.wrap 12000)]

/-- **Without the condition a drop may remove the primary and the last available copy.** -/
theorem not_drop_keeps_copies :
    ∃ (ops : List Op) (req : CompletePlacementActionRequest) (now : U64),
      let before := run smallPolicy .default ops
      let after := run smallPolicy .default (ops ++ [.completeAction req now])
      CompletesDrop before req ∧
        (∃ r ∈ before.replicas.values, r.role = .primary ∧ r ∉ after.replicas.values) ∧
        ∃ shardId, HasAvailableCopy before shardId ∧ ¬ HasAvailableCopy after shardId := by
  refine ⟨promotesBack, ⟨"A", U64.wrap 3, U64.wrap 2, []⟩, U64.wrap 12001, ?_, ?_, "a", ?_⟩
  · decide +kernel
  · decide +kernel
  · decide +kernel

end ProtomoltSearch.ControlPlane
