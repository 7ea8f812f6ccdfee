import ProtomoltSearch.ControlPlane.Drops
import ProtomoltSearch.ControlPlane.StaysCurrent

/-!
# Pending actions stay current

An action is planned at the generation its source has. When the source moves on, by a report of a
later generation say, the pending action can no longer be completed and keeps its replacement from
being planned (`not_pending_completable`).

Runs in which nothing happens to the shards of pending actions but their own completions, in which the
targets keep their leases and primaries are unique, keep every pending action current; after every
reconciliation those of shards with an available primary can be completed (`pending_completable`).
-/

namespace ProtomoltSearch.ControlPlane

open List OrderedMap Nat U64 Option Bool

/-! ## Reconciliations -/

def UniquePrimaries (s : StoredState) : Prop :=
  ∀ r ∈ s.replicas.values, ∀ q ∈ s.replicas.values, r.role = .primary → q.role = .primary →
    q.shardId = r.shardId → q = r

/-- The node holds a lease past the time. -/
def Leased (s : StoredState) (now : U64) (nodeId : String) : Prop :=
  ∃ node ∈ s.nodes.get? nodeId, now < node.expiresUnixMs

section Reconciling

variable {policy : ControlPolicy} {s t u : StoredState} {now : U64} {shard : Replica}
  {spec : ActionSpec} {shardId nodeId : String}

lemma UniquePrimaries.promote (h : UniquePrimaries s) (hs : WellStored s.replicas) :
    UniquePrimaries { s with replicas := promote s.replicas shardId nodeId } := by
  intro r hr q hq hrole hqrole hshard
  simp only [ControlPlane.promote, values_mapValues] at hr hq
  obtain ⟨held, hheld, rfl⟩ := mem_map.1 hr
  obtain ⟨held', hheld', rfl⟩ := mem_map.1 hq
  have hroleOf {x : Replica} (hx : x.shardId = shardId) (hprim : (if x.shardId = shardId then
      { x with role := if x.nodeId = nodeId then .primary else .replica } else x).role = .primary) :
      x.nodeId = nodeId := by
    rw [if_pos hx] at hprim
    by_contra hne
    rw [if_neg hne] at hprim
    cases hprim
  have hshards (x : Replica) : (if x.shardId = shardId then
      { x with role := if x.nodeId = nodeId then .primary else .replica } else x).shardId =
      x.shardId := by
    split
    · rfl
    · rfl
  rw [hshards, hshards] at hshard
  by_cases hprom : held.shardId = shardId
  · -- the primaries are on the promoted node, where the shard has one copy
    have hkey : held'.key = held.key := by
      rw [Replica.key, Replica.key, hshard, hroleOf hprom hrole,
        hroleOf (hshard.trans hprom) hqrole]
    have heq := hs.get?_key hheld'
    rw [hkey, hs.get?_key hheld] at heq
    rw [some.inj heq]
  · rw [if_neg hprom] at hrole
    have hprom' : ¬ held'.shardId = shardId := fun heq => hprom (hshard ▸ heq)
    rw [if_neg hprom'] at hqrole
    rw [h held hheld held' hheld' hrole hqrole hshard]

/-- A node that is active after leases are expired holds a lease past the time. -/
lemma leased_of_active (hnodes : u.nodes = (expireLeases s now).nodes) {node : Node}
    (hnode : u.nodes.get? nodeId = some node) (hactive : node.state = .active) : Leased u now nodeId := by
  refine ⟨node, hnode, ?_⟩
  rw [hnodes] at hnode
  obtain ⟨_, -, hst⟩ := mem_mapValues.1 (get?_eq_some.1 hnode)
  by_contra hover
  split at hst
  · subst hst
    cases hactive
  · rename_i hkept
    subst hst
    simp [hover, hactive] at hkept

/-- The peer of a merge is its shard's only primary. -/
lemma mergePeer_eq_some {action : Action} {peer : Replica} (huniq : UniquePrimaries u)
    (hpeer : IsReadyPrimary u peer) (hshard : action.peerShardId = peer.shardId := by rfl) :
    mergePeer u action = some peer := by
  cases hfound : mergePeer u action with
  | none =>
    refine absurd ?_ (find?_eq_none.1 hfound peer hpeer.1)
    simp [hshard, hpeer.2.1]
  | some found =>
    have hfoundIs := find?_some hfound
    rw [and_eq_true, decide_eq_true_eq, decide_eq_true_eq] at hfoundIs
    exact congrArg some (huniq peer hpeer.1 found (mem_of_find?_eq_some hfound) hpeer.2.1
      hfoundIs.2 (hfoundIs.1.trans hshard))

/-- A planned action is current. -/
lemma current_actionOf (hs : Consistent u) (huniq : UniquePrimaries u)
    (hmergeRows : policy.mergeRows ≠ max) (h : Plans policy u shard spec) (id : U64) :
    Current u (actionOf id shard spec) := by
  have hheld {primary : Replica} {spec : ActionSpec} (hprim : IsReadyPrimary u primary) :
      SourceHeld u (actionOf id primary spec) primary :=
    ⟨hs.copies.get?_key hprim.1, rfl, rfl, rfl⟩
  cases h with
  | copy hprim htarget hactive hother => exact ⟨_, hheld hprim, hother⟩
  | upkeep hprim hactive hkind hgen =>
    refine ⟨_, hheld hprim, ?_⟩
    rcases hkind with ⟨rfl, hlt⟩ | rfl
    · exact hlt
    · trivial
  | @merge right generation hleft hright hmerge hgen =>
    refine ⟨shard, hheld hleft, right, mergePeer_eq_some huniq hright, ?_⟩
    simp only [mergeable, and_eq_true, decide_eq_true_eq] at hmerge
    obtain ⟨⟨⟨⟨hadjacent, _⟩, hscoring⟩, hanalysis⟩, -⟩ := hmerge
    refine ⟨rfl, hscoring.symm, hanalysis.symm, hadjacent, ?_⟩
    -- the sum of the rows saturates, but the threshold is below the largest count
    have hmax : policy.mergeRows.val < 2 ^ 64 - 1 := by
      have hupper := policy.mergeRows.upper
      by_contra hover
      exact hmergeRows (val_injective (show _ = 2 ^ 64 - 1 by omega))
    have hleftRows : shard.liveRows ≤ shard.rows.val := sub_le _ _
    have hrightRows : right.liveRows ≤ right.rows.val := sub_le _ _
    omega

/-- What planning needs of the state it works on and leaves. -/
structure Kept (s : StoredState) (now : U64) (u : StoredState) : Prop where
  consistent : Consistent u
  current : ∀ action ∈ u.actions, Current u action
  unique : UniquePrimaries u
  nodes : u.nodes = (expireLeases s now).nodes

lemma Kept.push {phase : Phase} {id : U64} (h : Kept s now u) (hmergeRows : policy.mergeRows ≠ max)
    (hplans : Plans policy u shard spec) (hphase : phase = .shards → spec.kind ≠ .mergeShards)
    (hid : id.val = u.nextAction.val + 1) : Kept s now { u with
      nextAction := id
      actions := u.actions ++ [actionOf u.nextAction shard spec] } where
  consistent := h.consistent.planStep (.push hplans hphase hid)
  current action hact := by
    refine Current.of_eq (s := u) ?_ rfl
    rcases mem_append.1 hact with hold | hnew
    · exact h.current action hold
    · obtain rfl := mem_singleton.1 hnew
      exact current_actionOf h.consistent h.unique hmergeRows hplans _
  unique := h.unique
  nodes := h.nodes

lemma leased_of_activeNode (h : Kept s now u) (hactive : activeNode u nodeId = true) :
    Leased u now nodeId := by
  obtain ⟨node, hnode, hst⟩ := activeNode_iff.1 hactive
  exact leased_of_active h.nodes hnode hst

lemma leased_of_plans (h : Kept s now u) (hplans : Plans policy u shard spec)
    (hkind : spec.kind ≠ .mergeShards) : Leased u now spec.targetNodeId := by
  cases hplans with
  | copy hprim htarget hactive hother =>
    exact leased_of_active h.nodes (h.consistent.nodes.get?_eq htarget) hactive
  | upkeep hprim hactive _ _ => exact leased_of_activeNode h (nodeState_eq_active.1 hactive)
  | merge => exact absurd rfl hkind

/-- A promoted copy is alike. -/
lemma Current.promote {action : Action} (h : Current s action)
    (hpeer : action.kind = .mergeShards → shardId ≠ action.peerShardId) :
    Current { s with replicas := promote s.replicas shardId nodeId } action := by
  refine h.of_alike (fun held hheld => ?_) fun hkind peer hfound => ⟨peer, ?_, .refl peer⟩
  · refine ⟨if held.shardId = shardId then
      { held with role := if held.nodeId = nodeId then .primary else .replica } else held, ?_⟩
    have hfound : (ControlPlane.promote s.replicas shardId nodeId).get?
        (replicaKey action.shardId action.sourceNodeId) = some (if held.shardId = shardId then
          { held with role := if held.nodeId = nodeId then .primary else .replica } else held) := by
      rw [ControlPlane.promote, get?_mapValues, hheld.found, map_some]
    by_cases hshard : held.shardId = shardId
    · rw [if_pos hshard] at hfound ⊢
      exact ⟨⟨hfound, hheld.shard, hheld.node, hheld.generation⟩, ⟨rfl, rfl, rfl, rfl, rfl, rfl⟩⟩
    · rw [if_neg hshard] at hfound ⊢
      exact ⟨⟨hfound, hheld.shard, hheld.node, hheld.generation⟩, .refl held⟩
  · rw [mergePeer_sameCopies (SameCopies.promote (hpeer hkind)), hfound]

/-- Promoting a copy of another shard leaves the next promotion of this one. -/
lemma promotion_promote {other : String} (hother : other ≠ shardId) :
    promotion { s with replicas := promote s.replicas other nodeId } shardId = promotion s shardId := by
  have hready : readyCopies { s with replicas := promote s.replicas other nodeId } shardId =
      readyCopies s shardId := by
    refine SameCopies.filter_eq (SameCopies.promote hother) fun r hr => ?_
    rw [and_eq_true, decide_eq_true_eq] at hr
    exact hr.1
  unfold promotion
  rw [hready]
  rfl

/-- What planning shard by shard keeps: no copy of a pending merge's peer is to be promoted, and new
actions have leased targets. -/
structure ShardsKept (s : StoredState) (now : U64) (u : StoredState) : Prop extends Kept s now u where
  settled : ∀ action ∈ u.actions, action.kind = .mergeShards →
    promotion u action.peerShardId = none
  leased : ∀ action ∈ u.actions, action ∈ s.actions ∨ Leased u now action.targetNodeId

lemma ShardsKept.planStep (h : ShardsKept s now u) (hmergeRows : policy.mergeRows ≠ max)
    (hstep : PlanStep policy .shards u t) : ShardsKept s now t := by
  cases hstep with
  | @promote _ shardId r hpromotion =>
    have hpeer : ∀ action ∈ u.actions, action.kind = .mergeShards → shardId ≠ action.peerShardId := by
      rintro action hact hkind rfl
      rw [h.settled action hact hkind] at hpromotion
      cases hpromotion
    have hprom : PlanStep policy .shards u _ := .promote hpromotion
    refine ⟨⟨h.consistent.planStep hprom, fun action hact => ?_, ?_, h.nodes⟩, ?_, h.leased⟩
    · exact (h.current action hact).promote (hpeer action hact)
    · exact h.unique.promote h.consistent.copies
    · intro action hact hkind
      rw [promotion_promote (hpeer action hact hkind)]
      exact h.settled action hact hkind
  | @push _ _ shard spec id hplans hphase hid =>
    refine ⟨h.toKept.push hmergeRows hplans hphase hid, fun action hact hkind => ?_,
      fun action hact => ?_⟩
    · rcases mem_append.1 hact with hold | hnew
      · exact h.settled action hold hkind
      · obtain rfl := mem_singleton.1 hnew
        exact absurd hkind (hphase rfl)
    · rcases mem_append.1 hact with hold | hnew
      · exact h.leased action hold
      · obtain rfl := mem_singleton.1 hnew
        have hleased := leased_of_plans h.toKept hplans (hphase rfl)
        exact .inr hleased

/-- What planning for pairs keeps: the target of a new merge has its shard's primary. -/
structure PairsKept (s : StoredState) (now : U64) (u : StoredState) : Prop extends Kept s now u where
  targeted : ∀ action ∈ u.actions, action ∈ s.actions ∨ Leased u now action.targetNodeId ∨
    ∃ left, IsReadyPrimary u left ∧ left.shardId = action.shardId ∧ left.nodeId = action.targetNodeId

lemma ShardsKept.pairsKept (h : ShardsKept s now u) : PairsKept s now u :=
  ⟨h.toKept, fun action hact => (h.leased action hact).imp_right .inl⟩

lemma PairsKept.planStep (h : PairsKept s now u) (hmergeRows : policy.mergeRows ≠ max)
    (hstep : PlanStep policy .pairs u t) : PairsKept s now t := by
  cases hstep with
  | @push _ _ shard spec id hplans hphase hid =>
    refine ⟨h.toKept.push hmergeRows hplans hphase hid, fun action hact => ?_⟩
    rcases mem_append.1 hact with hold | hnew
    · exact h.targeted action hold
    · obtain rfl := mem_singleton.1 hnew
      by_cases hkind : spec.kind = .mergeShards
      · cases hplans with
        | copy => cases hkind
        | upkeep _ _ hkinds _ =>
          rcases hkinds with ⟨rfl, -⟩ | rfl
          · cases hkind
          · cases hkind
        | merge hleft hright _ _ => exact .inr (.inr ⟨shard, hleft, rfl, rfl⟩)
      · have hleased := leased_of_plans h.toKept hplans hkind
        exact .inr (.inl hleased)

/-! ## How many actions a reconciliation plans -/

lemma pushAction_nextAction (h : pushAction s shard spec = .ok t) :
    t.nextAction.val ≤ s.nextAction.val + 1 := by
  rcases pushAction_ok h with rfl | ⟨-, id, hid, rfl⟩
  · exact le_succ _
  · exact hid.le

lemma planCopy_nextAction (h : planCopy policy s shard = .ok t) :
    t.nextAction.val ≤ s.nextAction.val + 1 := by
  unfold planCopy at h
  dsimp only at h
  split at h
  · split at h
    · cases h
      exact le_succ _
    · exact pushAction_nextAction h
  · cases h
    exact le_succ _

lemma planNext_nextAction {kind : ActionKind} {reason : ActionReason}
    (h : planNext s shard kind reason = .ok t) : t.nextAction.val ≤ s.nextAction.val + 1 := by
  unfold planNext at h
  split at h
  · cases h
    exact le_succ _
  · exact pushAction_nextAction h

lemma planUpkeep_nextAction (h : planUpkeep policy s shard = .ok t) :
    t.nextAction.val ≤ s.nextAction.val + 1 := by
  unfold planUpkeep at h
  dsimp only at h
  split at h
  · split at h
    · exact planNext_nextAction h
    · split at h
      · exact planNext_nextAction h
      · cases h
        exact le_succ _
  · cases h
    exact le_succ _

lemma reconcileShard_nextAction (h : reconcileShard policy s shardId = .ok t) :
    t.nextAction.val ≤ s.nextAction.val + 2 := by
  have hsame : (promoteAvailable s shardId).nextAction = s.nextAction := by
    unfold promoteAvailable
    split
    · rfl
    · rfl
  unfold reconcileShard planShard at h
  split at h
  · cases h
    rw [hsame]
    omega
  · obtain ⟨copied, hcopied, h⟩ := bind_ok.1 h
    have h₁ := planCopy_nextAction hcopied
    have h₂ := planUpkeep_nextAction h
    rw [hsame] at h₁
    omega

lemma planMerge_nextAction {pair : Replica × Replica} (h : planMerge policy s pair = .ok t) :
    t.nextAction.val ≤ s.nextAction.val + 1 := by
  unfold planMerge at h
  split at h
  · split at h
    · cases h
      exact le_succ _
    · exact pushAction_nextAction h
  · cases h
    exact le_succ _

lemma planRebalance_nextAction (h : planRebalance s = .ok t) :
    t.nextAction.val ≤ s.nextAction.val + 1 := by
  unfold planRebalance at h
  dsimp only at h
  split at h
  · split at h
    · unfold planMove at h
      split at h
      · cases h
        exact le_succ _
      · exact pushAction_nextAction h
    · cases h
      exact le_succ _
  · cases h
    exact le_succ _

/-- A loop whose every step plans at most so many actions. -/
lemma foldlM_nextAction {γ : Type} {f : StoredState → γ → Except Status StoredState} {l : List γ}
    {n : ℕ} (step : ∀ x ∈ l, ∀ s t, f s x = .ok t → t.nextAction.val ≤ s.nextAction.val + n)
    (h : l.foldlM f s = .ok t) : t.nextAction.val ≤ s.nextAction.val + n * l.length := by
  induction l generalizing s with
  | nil =>
    obtain rfl := Except.ok.inj h
    exact le_add_right _ _
  | cons x l ih =>
    obtain ⟨v, hv, h⟩ := foldlM_cons_ok.1 h
    have h₁ := step x mem_cons_self s v hv
    have h₂ := ih (fun y hy => step y (mem_cons_of_mem _ hy)) h
    rw [length_cons, mul_succ]
    omega

lemma length_values_planSteps {phase : Phase} (h : PlanSteps policy phase s t) :
    t.replicas.values.length = s.replicas.values.length := by
  refine planSteps_keeps (I := fun u => u.replicas.values.length = s.replicas.values.length) rfl
    (fun u v hu hstep => ?_) h
  cases hstep with
  | promote _ =>
    rw [← hu, promote, values_mapValues, length_map]
  | push _ _ _ => exact hu

/-- A reconciliation plans at most three actions for each copy, and one move. -/
lemma planAll_nextAction (h : planAll policy s now = .ok t) :
    t.nextAction.val ≤ s.nextAction.val + 3 * s.replicas.values.length + 1 := by
  obtain ⟨shards, hshards, merged, hmerged, h⟩ := bind₂_ok.1 h
  have h₁ := foldlM_nextAction (fun _ _ _ _ hv => reconcileShard_nextAction hv) hshards
  have h₂ := foldlM_nextAction (fun _ _ _ _ hv => planMerge_nextAction hv) hmerged
  have h₃ := planRebalance_nextAction h
  have hsteps : PlanSteps policy .shards (expireLeases s now) shards :=
    foldlM_inv (fun _ _ u v hu hv => hu.trans (reconcileShard_steps hv)) .refl hshards
  have hlen : shards.replicas.values.length = s.replicas.values.length :=
    (length_values_planSteps hsteps).trans rfl
  have hknown : (knownShards (expireLeases s now)).length ≤ s.replicas.values.length := by
    rw [knownShards, distinctNames, length_insertionSort]
    exact (dedup_sublist _).length_le.trans (length_map _).le
  have hpairs : (neighbours (primariesByRange shards)).length ≤ s.replicas.values.length := by
    rw [← hlen, neighbours, length_zip]
    refine (min_le_left _ _).trans ?_
    rw [primariesByRange, length_insertionSort]
    exact length_filter_le _ _
  have hstart : (expireLeases s now).nextAction = s.nextAction := rfl
  rw [hstart] at h₁
  omega

/-! ## Runs -/

structure ReconcileCondition (policy : ControlPolicy) (s : StoredState) (now : U64) : Prop where
  unique : UniquePrimaries s
  /-- The targets of pending actions hold their leases, where the shard has an available copy. -/
  leased : ∀ action ∈ s.actions, HasAvailableCopy (expireLeases s now) action.shardId →
    Leased s now action.targetNodeId
  settled : ∀ action ∈ s.actions, action.kind = .mergeShards →
    promotion (expireLeases s now) action.peerShardId = none
  mergeRows : policy.mergeRows ≠ max
  revisions : s.revision.val + 2 < 2 ^ 64
  ids : s.nextAction.val + 3 * s.replicas.values.length + 2 < 2 ^ 64

def PendingCondition (policy : ControlPolicy) (s : StoredState) : Op → Prop
  | .report req _ => ReportCondition s req
  | .completeAction req _ => CompletionCondition s req
  | .reconcile false now => ReconcileCondition policy s now
  | _ => True

/-- The shard has a ready primary on an active node. -/
def HasAvailablePrimary (s : StoredState) (shardId : String) : Prop :=
  ∃ r ∈ s.replicas.values, r.shardId = shardId ∧ r.role = .primary ∧ r.ready = true ∧
    activeNode s r.nodeId = true

/-- Some request for the action, at the generation it was planned at, is accepted. -/
def Completable (s : StoredState) (now : U64) (action : Action) : Prop :=
  (∃ source, sourceOf s action = some source ∧ source.generation = action.sourceGeneration) ∧
    ∃ req t, req.actionId = action.actionId ∧ completeAction s req now = .ok t

lemma pairsKept_planAll (hs : Consistent s) (hcur : ∀ action ∈ s.actions, Current s action)
    (hC : ReconcileCondition policy s now) (h : planAll policy s now = .ok t) : PairsKept s now t := by
  have hstart : ShardsKept s now (expireLeases s now) :=
    ⟨⟨⟨hs.copies, ⟨hs.actions.1, hs.actions.2⟩, expireLeases_wellLeased hs.nodes now, hs.token⟩,
      fun action hact => (hcur action hact).of_eq rfl, hC.unique, rfl⟩, hC.settled,
      fun action hact => .inl hact⟩
  obtain ⟨mid, hshards, hpairs⟩ := planAll_steps h
  have hmid := planSteps_keeps hstart (fun _ _ hu hstep => hu.planStep hC.mergeRows hstep) hshards
  exact planSteps_keeps hmid.pairsKept (fun _ _ hu hstep => hu.planStep hC.mergeRows hstep) hpairs

/-- The copies and nodes of an available primary were there before the reconciliation. -/
lemma hasAvailableCopy_of_planAll (h : planAll policy s now = .ok t)
    (hnodes : t.nodes = (expireLeases s now).nodes) (hprim : HasAvailablePrimary t shardId) :
    HasAvailableCopy (expireLeases s now) shardId := by
  have hcopies : ∀ r ∈ t.replicas.values, ∃ held ∈ (expireLeases s now).replicas.values, ∃ role,
      r = { held with role := role } := by
    refine planAll_keeps (I := fun u => ∀ r ∈ u.replicas.values,
      ∃ held ∈ (expireLeases s now).replicas.values, ∃ role, r = { held with role := role })
      (fun r hr => ⟨r, hr, r.role, rfl⟩) (fun phase u v hu hstep => ?_) h
    cases hstep with
    | promote _ =>
      intro r hr
      obtain ⟨held, hheld, role, rfl⟩ := mem_values_promote hr
      obtain ⟨first, hfst, role', rfl⟩ := hu held hheld
      exact ⟨first, hfst, role, rfl⟩
    | push _ _ _ => exact hu
  obtain ⟨r, hr, hshard, -, hready, hactive⟩ := hprim
  obtain ⟨held, hheld, role, rfl⟩ := hcopies r hr
  refine ⟨held, hheld, hshard, hready, ?_⟩
  rwa [activeNode, hnodes] at hactive

/-- **After a reconciliation the pending actions of shards with available primaries can be completed.** -/
theorem completable_of_reconcile {changed : Bool} (hs : Consistent s)
    (hcur : ∀ action ∈ s.actions, Current s action) (hC : ReconcileCondition policy s now)
    (h : reconcileLocked policy s now = .ok (t, changed)) :
    (∀ action ∈ t.actions, Current t action) ∧
      ∀ action ∈ t.actions, HasAvailablePrimary t action.shardId → Completable t now action := by
  obtain ⟨revision, planned, published, _, hplan, hpublished, rfl⟩ := reconcileLocked_ok h
  have hkept := pairsKept_planAll hs hcur hC hplan
  have hcnt := planAll_nextAction hplan
  -- publication leaves the copies, the nodes and the actions
  obtain ⟨hreps, hnodes, hacts, hnext⟩ : published.replicas = planned.replicas ∧
      published.nodes = planned.nodes ∧ published.actions = planned.actions ∧
        published.nextAction = planned.nextAction := by
    rcases publish_ok hpublished with rfl | ⟨routes, generation, -, -, rfl⟩
    · exact ⟨rfl, rfl, rfl, rfl⟩
    · exact ⟨rfl, rfl, rfl, rfl⟩
  have hall : ∀ action ∈ published.actions,
      Current { published with revision := revision } action := fun action hact =>
    (hkept.current action (hacts ▸ hact)).of_eq hreps
  refine ⟨hall, fun action hact hprim => ?_⟩
  have hcons : Consistent { published with revision := revision } := by
    have hpub := hkept.consistent.publish hpublished
    exact ⟨hpub.copies, ⟨hpub.actions.1, hpub.actions.2⟩, hpub.nodes, hpub.token⟩
  have hprim : HasAvailablePrimary planned action.shardId := by
    obtain ⟨r, hr, hshard, hrole, hready, hactive⟩ := hprim
    rw [hnodes] at hactive
    exact ⟨r, hreps ▸ hr, hshard, hrole, hready, hactive⟩
  have hleased : Leased planned now action.targetNodeId := by
    rcases hkept.targeted action (hacts ▸ hact) with hold | hleased | ⟨left, hleft, hshard, hnode⟩
    · obtain ⟨node, hnode, hlt⟩ := hC.leased action hold
        (hasAvailableCopy_of_planAll hplan hkept.nodes hprim)
      refine ⟨if node.expiresUnixMs ≤ now && node.state ≠ .expired then
        { node with state := .expired } else node, ?_, ?_⟩
      · show planned.nodes.get? action.targetNodeId = _
        rw [hkept.nodes, expireLeases, get?_mapValues, hnode, map_some]
      · split
        · exact hlt
        · exact hlt
    · exact hleased
    · -- the only primary of the shard is the one the merge works from
      obtain ⟨r, hr, hrshard, hrrole, -, hactive⟩ := hprim
      have heq : r = left := hkept.unique left hleft.1 r hr hleft.2.1 hrrole (hrshard.trans hshard.symm)
      rw [← hnode, ← heq]
      exact leased_of_activeNode hkept.toKept hactive
  obtain ⟨node, hnode, hlt⟩ := hleased
  obtain ⟨held, hheld, -⟩ := hall action hact
  refine ⟨⟨held, hheld.sourceOf, hheld.generation⟩, ?_⟩
  refine completable_of_current hcons hact (hall action hact) (hnodes ▸ hnode) hlt ?_ ?_
  · show revision.val + 1 < 2 ^ 64
    have := hC.revisions
    omega
  · rw [hnext]
    have := hC.ids
    omega

def AllCurrent (s : StoredState) : Prop := Consistent s ∧ ∀ action ∈ s.actions, Current s action

lemma AllCurrent.of_eq (h : AllCurrent s) (ht : Consistent t) (hreps : t.replicas = s.replicas)
    (hacts : t.actions = s.actions) : AllCurrent t :=
  ⟨ht, fun action hact => (h.2 action (hacts ▸ hact)).of_eq hreps⟩

lemma AllCurrent.apply {op : Op} (h : AllCurrent s) (hC : PendingCondition policy s op)
    (ht : apply policy s op = some t) : AllCurrent t := by
  have hcons : Consistent t := h.1.apply ht
  cases op with
  | withCollection name =>
    have hok := toOption_eq_some.1 ht
    unfold bindCollection at hok
    split at hok
    · cases hok
      exact h.of_eq hcons rfl rfl
    · split at hok
      · cases hok
      · cases hok
        exact h
  | bootstrapTopology generation wire =>
    obtain ⟨routes, -, rfl⟩ := toOption_map_eq_some.1 ht
    unfold bootstrapLocked at hcons ⊢
    split
    · rename_i hpristine
      rw [if_pos hpristine] at hcons
      exact h.of_eq hcons rfl rfl
    · exact h
  | register req now =>
    obtain ⟨⟨_, lease⟩, hok, rfl⟩ := toOption_map_eq_some.1 ht
    obtain ⟨nextToken, revision, expires, -, -, rfl⟩ := register_ok hok
    exact h.of_eq hcons rfl rfl
  | renew req now =>
    obtain ⟨⟨_, lease⟩, hok, rfl⟩ := toOption_map_eq_some.1 ht
    obtain ⟨node, revision, expires, -, -, rfl⟩ := renew_ok hok
    exact h.of_eq hcons rfl rfl
  | drain req now =>
    obtain ⟨node, revision, -, -, rfl⟩ := drain_ok (toOption_eq_some.1 ht)
    exact h.of_eq hcons rfl rfl
  | report req now =>
    have hok := toOption_eq_some.1 ht
    refine ⟨hcons, fun action hact => ?_⟩
    have hacts : t.actions = s.actions := by
      obtain ⟨copy, node, addr, revision, -, -, -, rfl⟩ := report_ok hok
      rfl
    rw [hacts] at hact
    exact (h.2 action hact).report hact hC hok
  | completeAction req now =>
    exact ⟨hcons, current_completeAction h.1 h.2 hC (toOption_eq_some.1 ht)⟩
  | reconcile dryRun now =>
    obtain ⟨⟨after, changed⟩, hok, rfl⟩ := toOption_map_eq_some.1 ht
    cases dryRun with
    | true => exact h
    | false => exact ⟨hcons, (completable_of_reconcile h.1 h.2 hC hok).1⟩
  | rollback requested =>
    obtain ⟨position, old, generation, revision, -, -, -, -, rfl⟩ :=
      rollback_ok (toOption_eq_some.1 ht)
    exact h.of_eq hcons rfl rfl
  | plan =>
    cases ht
    exact h

lemma allCurrent_run {ops : List Op} (hops : Meets policy (PendingCondition policy) .default ops) :
    AllCurrent (run policy .default ops) :=
  Runs.run_keeps ⟨consistent_default, fun _ hact => absurd hact not_mem_nil⟩
    (fun _ _ h hC => next_keeps h fun _ ht => h.apply hC ht) hops

end Reconciling

/-- **After every reconciliation every pending action of a shard with an available primary can be
completed**, in every run from an empty store whose steps meet the condition. -/
theorem pending_completable (policy : ControlPolicy) (ops : List Op)
    (hops : Meets policy (PendingCondition policy) .default ops) (pre suf : List Op) (now : U64)
    (hsplit : ops = pre ++ .reconcile false now :: suf) (t : StoredState)
    (ht : apply policy (run policy .default pre) (.reconcile false now) = some t) :
    ∀ action ∈ t.actions, HasAvailablePrimary t action.shardId → Completable t now action := by
  subst hsplit
  obtain ⟨hpre, hC, -⟩ := Runs.meets_append.1 hops
  obtain ⟨hconsistent, hcurrent⟩ := allCurrent_run hpre
  obtain ⟨⟨after, changed⟩, hok, rfl⟩ := toOption_map_eq_some.1 ht
  exact (completable_of_reconcile hconsistent hcurrent hC hok).2

/-! ## Small runs -/

section

variable (policy : ControlPolicy) (s : StoredState)

instance (held : Replica) (wire : ShardReplicaState) : Decidable (Repeats held wire) :=
  decidable_of_iff (_ ∧ _ ∧ _ ∧ _ ∧ _ ∧ _ ∧ _ ∧ _ ∧ _)
    ⟨fun ⟨h₁, h₂, h₃, h₄, h₅, h₆, h₇, h₈, h₉⟩ => ⟨h₁, h₂, h₃, h₄, h₅, h₆, h₇, h₈, h₉⟩,
      fun ⟨h₁, h₂, h₃, h₄, h₅, h₆, h₇, h₈, h₉⟩ => ⟨h₁, h₂, h₃, h₄, h₅, h₆, h₇, h₈, h₉⟩⟩

instance (nodeId : String) (wire : ShardReplicaState) (shardId : String) :
    Decidable (ReportTouches s nodeId wire shardId) :=
  inferInstanceAs (Decidable (_ ∨ ∃ held ∈ s.replicas.get? _, _))

instance (req : ReportShardRequest) : Decidable (ReportCondition s req) :=
  inferInstanceAs (Decidable (∀ wire ∈ req.replica, ∀ action ∈ s.actions, ∀ shardId ∈ action.shards,
    ReportTouches s req.nodeId wire shardId → ∃ held ∈ s.replicas.get? _, Repeats held wire))

instance (req : CompletePlacementActionRequest) : Decidable (CompletionCondition s req) :=
  inferInstanceAs (Decidable (∀ done ∈ s.actions, _ → ∀ other ∈ s.actions, _ →
    ∀ shardId ∈ other.shards, shardId ∉ done.shards ∧ ∀ wire ∈ req.outputs, _ ∧
      ∀ held ∈ s.replicas.get? _, _))

instance : Decidable (UniquePrimaries s) :=
  inferInstanceAs (Decidable (∀ r ∈ s.replicas.values, ∀ q ∈ s.replicas.values, _ → _ → _ → _))

instance (now : U64) (nodeId : String) : Decidable (Leased s now nodeId) :=
  inferInstanceAs (Decidable (∃ node ∈ s.nodes.get? nodeId, _))

instance (shardId : String) : Decidable (HasAvailablePrimary s shardId) :=
  inferInstanceAs (Decidable (∃ r ∈ s.replicas.values, _))

instance (now : U64) : Decidable (ReconcileCondition policy s now) :=
  decidable_of_iff (_ ∧ _ ∧ _ ∧ _ ∧ _ ∧ _)
    ⟨fun ⟨h₁, h₂, h₃, h₄, h₅, h₆⟩ => ⟨h₁, h₂, h₃, h₄, h₅, h₆⟩,
      fun ⟨h₁, h₂, h₃, h₄, h₅, h₆⟩ => ⟨h₁, h₂, h₃, h₄, h₅, h₆⟩⟩

instance decidablePendingCondition : ∀ op, Decidable (PendingCondition policy s op)
  | .report req _ => inferInstanceAs (Decidable (ReportCondition s req))
  | .completeAction req _ => inferInstanceAs (Decidable (CompletionCondition s req))
  | .reconcile false now => inferInstanceAs (Decidable (ReconcileCondition policy s now))
  | .reconcile true _ | .rollback _ | .bootstrapTopology _ _ | .withCollection _ | .register _ _
  | .renew _ _ | .drain _ _ | .plan => isTrue trivial

end

/-- A shard with enough segments to be compacted. -/
def wantsCompaction : List Op :=
  [.joins "A" 0, .reports "A" 1 1 (smallCopy "a" 1 10 4 fullRange .primary)]

theorem pending_completable_wantsCompaction :
    ∃ t action, apply smallPolicy (run smallPolicy .default wantsCompaction)
        (.reconcile false (wrap 2)) = some t ∧ action ∈ t.actions ∧
      action.kind = .compactShard ∧ Completable t (wrap 2) action := by
  have hplanned : ((apply smallPolicy (run smallPolicy .default wantsCompaction)
      (.reconcile false (wrap 2))).any fun t => t.actions.any fun action =>
        action.kind = .compactShard && decide (HasAvailablePrimary t action.shardId)) = true := by
    decide +kernel
  obtain ⟨t, ht, hactions⟩ := (any_eq_true _ _).1 hplanned
  obtain ⟨action, haction, his⟩ := any_eq_true.1 hactions
  rw [and_eq_true, decide_eq_true_eq, decide_eq_true_eq] at his
  exact ⟨t, action, ht, haction, his.1, pending_completable smallPolicy
    (wantsCompaction ++ [.reconcile false (wrap 2)]) (by decide +kernel) wantsCompaction [] _ rfl t ht
    action haction his.2⟩

/-- An action whose source has moved on is not completed by any request. -/
lemma completeAction_ne_ok {s t : StoredState} {action : Action} {now : U64}
    {req : CompletePlacementActionRequest} (hnew : isCompleted s req.actionId = false)
    (hfind : (s.actions.find? fun a => a.actionId = req.actionId) = some action)
    (hstale : ∀ source ∈ sourceOf s action, source.generation ≠ action.sourceGeneration) :
    completeAction s req now ≠ .ok t := by
  intro h
  obtain ⟨_, h⟩ := rest_ok h
  rw [if_neg (eq_false_iff.1 hnew)] at h
  obtain ⟨c, hc, -⟩ := bind_ok.1 h
  obtain ⟨hfound, -, hsrc, hgen, -⟩ := checkCompletion_ok hc
  obtain rfl := some.inj (hfind.symm.trans hfound)
  exact hstale c.source hsrc hgen

/-- **Without the condition a pending action may be stuck**: the shard is reported at a later generation,
and the reconciliation neither withdraws the action nor plans another. -/
theorem not_pending_completable : ∃ (ops : List Op) (now : U64) (t : StoredState) (action : Action),
      apply smallPolicy (run smallPolicy .default ops) (.reconcile false now) = some t ∧
      action ∈ t.actions ∧ HasAvailablePrimary t action.shardId ∧
      (∀ source ∈ sourceOf t action, source.generation ≠ action.sourceGeneration) ∧
      ∀ req later after, req.actionId = action.actionId → completeAction t req later ≠ .ok after := by
  have hstuck : ((apply smallPolicy (run smallPolicy .default (wantsCompaction ++
      [.reconcile false (wrap 2),
        .reports "A" 1 3 (smallCopy "a" 2 10 4 fullRange .primary)]))
      (.reconcile false (wrap 4))).any fun t => t.actions.any fun action =>
        decide (HasAvailablePrimary t action.shardId) &&
          (decide (∀ source ∈ sourceOf t action, source.generation ≠ action.sourceGeneration) &&
            (!isCompleted t action.actionId &&
              decide ((t.actions.find? fun a => a.actionId = action.actionId) = some action)))) =
      true := by decide +kernel
  obtain ⟨t, ht, hactions⟩ := (any_eq_true _ _).1 hstuck
  obtain ⟨action, haction, his⟩ := any_eq_true.1 hactions
  simp only [and_eq_true, decide_eq_true_eq, not_eq_true'] at his
  obtain ⟨hprimary, hstale, hnew, hfind⟩ := his
  refine ⟨_, _, t, action, ht, haction, hprimary, hstale, fun req later after hid => ?_⟩
  exact completeAction_ne_ok (hid.symm ▸ hnew) (hid.symm ▸ hfind) hstale

end ProtomoltSearch.ControlPlane
