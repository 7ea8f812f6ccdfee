import ProtomoltSearch.ControlPlane.Persistence
import ProtomoltSearch.Foundations.Runs

/-!
# Runs of the control plane

The states an instance goes through are those of runs of accepted operations (`runPlane_state`): a
refused operation, and one whose write fails, leaves the state as it was (`exec_state`).

A reconciliation is a sequence of two kinds of steps, a promotion and a planned action
(`PlanStep`, `planAll_steps`), between the expiry of leases and the publication.
-/

namespace ProtomoltSearch.ControlPlane

open List U64

/-- The state after an operation, accepted or not. -/
def next (policy : ControlPolicy) (s : StoredState) (op : Op) : StoredState :=
  (apply policy s op).getD s

abbrev run (policy : ControlPolicy) := Runs.run (next policy)

/-- Every operation of the run meets the condition in the state it runs in. -/
abbrev Meets (policy : ControlPolicy) := Runs.Meets (next policy)

section

variable {policy : ControlPolicy} {s : StoredState}

/-- **An instance goes through the states of runs**: those of the operations that took effect. -/
theorem runPlane_state (plane : Plane) (ops : List (Op × WriteOutcome)) :
    ∃ done, done.Sublist (ops.map Prod.fst) ∧
      (runPlane policy plane ops).state = run policy plane.state done := by
  induction ops generalizing plane with
  | nil => exact ⟨[], .slnil, rfl⟩
  | cons op ops ih =>
    obtain ⟨done, hdone, hstate⟩ := ih (exec policy plane op.1 op.2).1
    rcases exec_state policy plane op.1 op.2 with h | h
    · exact ⟨done, hdone.cons _, by rw [← h]; exact hstate⟩
    · refine ⟨op.1 :: done, hdone.cons_cons _, hstate.trans ?_⟩
      change _ = run policy (next policy plane.state op.1) done
      rw [next, h]
      rfl

lemma next_keeps {I : StoredState → Prop} {op : Op} (hI : I s)
    (h : ∀ t, apply policy s op = some t → I t) : I (next policy s op) := by
  unfold next
  cases ht : apply policy s op with
  | some t => exact h t ht
  | none => exact hI

end

section

variable {ε α β : Type} {policy : ControlPolicy} {s t : StoredState} {now : U64}

lemma toOption_eq_some {x : Except ε α} {a : α} : x.toOption = some a ↔ x = .ok a := by
  cases x <;> simp [Except.toOption]

lemma toOption_map_eq_some {x : Except ε α} {f : α → β} {b : β} :
    x.toOption.map f = some b ↔ ∃ a, x = .ok a ∧ f a = b := by
  simp [toOption_eq_some]

lemma reconcileLocked_ok {changed : Bool} (h : reconcileLocked policy s now = .ok (t, changed)) :
    ∃ revision planned published, revision.val = s.revision.val + 1 ∧
      planAll policy s now = .ok planned ∧ publish policy planned = .ok (published, changed) ∧
        t = { published with revision := revision } := by
  obtain ⟨revision, hrev, planned, hplan, ⟨published, changed'⟩, hpub, h⟩ := bind₃_ok.1 h
  cases h
  exact ⟨revision, planned, published, nextRevision_ok.1 hrev, hplan, hpub, rfl⟩

/-- Publication installs the desired routes under a larger generation, or changes nothing. -/
lemma publish_ok {changed : Bool} (h : publish policy s = .ok (t, changed)) :
    t = s ∨ ∃ routes generation, desiredRoutes s = some routes ∧
      s.topology.generation < generation ∧
        t = { s with history := pushHistory policy s, topology := ⟨generation, routes⟩ } := by
  unfold publish at h
  split at h
  · exact .inl (Prod.mk.inj (Except.ok.inj h)).1.symm
  · rename_i routes hroutes
    split at h
    · exact .inl (Prod.mk.inj (Except.ok.inj h)).1.symm
    · obtain ⟨generation, hgen, h⟩ := bind_ok.1 h
      have hval := ofNat?_eq_some.1 (okOr_ok.1 hgen)
      have hlt : s.topology.generation < generation := lt_iff.2 (by omega)
      exact .inr ⟨routes, _, hroutes, hlt.trans_le (le_max_left _ _),
        (Prod.mk.inj (Except.ok.inj h)).1.symm⟩

lemma rollback_ok {requested : U64} (h : rollback s requested = .ok t) :
    ∃ position old generation revision, rollbackEntry s requested = some (position, old) ∧
      old ∈ s.history ∧ s.topology.generation < generation ∧ revision.val = s.revision.val + 1 ∧
        t = { s with
          history := s.history.eraseIdx position ++ [s.topology]
          topology := ⟨generation, old.routes⟩
          revision := revision } := by
  obtain ⟨⟨position, old⟩, hent, generation, hgen, revision, hrev, h⟩ := bind₃_ok.1 h
  have hval := ofNat?_eq_some.1 (okOr_ok.1 hgen)
  obtain ⟨p, -, hold⟩ := Option.bind_eq_some_iff.1 (okOr_ok.1 hent)
  obtain ⟨old', hmem, heq⟩ := Option.map_eq_some_iff.1 hold
  obtain ⟨rfl, rfl⟩ := Prod.mk.inj heq
  exact ⟨p, old', generation, revision, okOr_ok.1 hent, mem_of_getElem? hmem,
    lt_iff.2 (by omega), nextRevision_ok.1 hrev, (Except.ok.inj h).symm⟩

end

def IsReadyPrimary (s : StoredState) (r : Replica) : Prop :=
  r ∈ s.replicas.values ∧ r.role = .primary ∧ r.ready = true

inductive Plans (policy : ControlPolicy) (s : StoredState) : Replica → ActionSpec → Prop
  | copy {primary : Replica} {target : Node} {reason : ActionReason}
      (hprimary : IsReadyPrimary s primary) (htarget : target ∈ s.nodes.values)
      (hactive : target.state = .active) (hother : target.nodeId ≠ primary.nodeId) :
      Plans policy s primary
        ⟨.copyReplica, "", noPeer, target.nodeId, primary.generation, reason⟩
  | upkeep {primary : Replica} {kind : ActionKind} {generation : U64} {reason : ActionReason}
      (hprimary : IsReadyPrimary s primary) (hactive : nodeState s primary.nodeId = .active)
      (hkind : kind = .splitShard ∧ primary.hashLo < primary.hashHi ∨ kind = .compactShard)
      (hgeneration : generation.val = primary.generation.val + 1) :
      Plans policy s primary ⟨kind, "", noPeer, primary.nodeId, generation, reason⟩
  /-- A merge of two ready primaries next to each other, on the first one's node. -/
  | merge {left right : Replica} {generation : U64} (hleft : IsReadyPrimary s left)
      (hright : IsReadyPrimary s right) (hmergeable : mergeable policy s left right = true)
      (hgeneration : generation.val = max left.generation.val right.generation.val + 1) :
      Plans policy s left
        ⟨.mergeShards, right.shardId, right.generation, left.nodeId, generation, .belowMergeThreshold⟩

/-- A reconciliation plans shard by shard, then for pairs of shards and of nodes. -/
inductive Phase where
  | shards
  | pairs

/-- One step of a reconciliation's planning. No merge is planned while it goes shard by shard. -/
inductive PlanStep (policy : ControlPolicy) : Phase → StoredState → StoredState → Prop
  | promote {s : StoredState} {shardId : String} {r : Replica} (h : promotion s shardId = some r) :
      PlanStep policy .shards s { s with replicas := promote s.replicas shardId r.nodeId }
  | push {phase : Phase} {s : StoredState} {shard : Replica} {spec : ActionSpec} {id : U64}
      (hplans : Plans policy s shard spec) (hphase : phase = .shards → spec.kind ≠ .mergeShards)
      (hid : id.val = s.nextAction.val + 1) :
      PlanStep policy phase s { s with
        nextAction := id
        actions := s.actions ++ [actionOf s.nextAction shard spec] }

abbrev PlanSteps (policy : ControlPolicy) (phase : Phase) := Relation.ReflTransGen (PlanStep policy phase)

section

variable {policy : ControlPolicy} {phase : Phase} {s t : StoredState} {shard primary : Replica}
  {spec : ActionSpec}

/-- Pushing an action plans it or changes nothing; the copies stay. -/
lemma pushAction_steps (phase : Phase) (hplans : Plans policy s shard spec)
    (hphase : phase = .shards → spec.kind ≠ .mergeShards) (h : pushAction s shard spec = .ok t) :
    PlanSteps policy phase s t ∧ t.replicas = s.replicas := by
  rcases pushAction_ok h with rfl | ⟨-, id, hid, rfl⟩
  · exact ⟨.refl, rfl⟩
  · exact ⟨.single (.push hplans hphase hid), rfl⟩

lemma readyPrimary_eq_some {shardId : String} (h : readyPrimary s shardId = some primary) :
    IsReadyPrimary s primary ∧ primary.shardId = shardId := by
  have hp := find?_some h
  simp only [Bool.and_eq_true, decide_eq_true_eq] at hp
  exact ⟨⟨mem_of_find?_eq_some h, hp.1.2, hp.2⟩, hp.1.1⟩

lemma chooseTarget_eq_some {excluded : List String} {domain target : String}
    (h : chooseTarget s excluded domain = some target) :
    ∃ node ∈ s.nodes.values, node.nodeId = target ∧ node.state = .active ∧ target ∉ excluded := by
  obtain ⟨node, hnode, rfl⟩ := Option.map_eq_some_iff.1 h
  obtain ⟨hmem, hp⟩ := mem_filter.1 (firstMin_mem hnode)
  simp only [Bool.and_eq_true, decide_eq_true_eq, Bool.not_eq_true', contains_eq_mem,
    decide_eq_false_iff_not] at hp
  exact ⟨node, hmem, rfl, hp.1, hp.2⟩

section

variable (hprimary : IsReadyPrimary s primary)

include hprimary

lemma planCopy_steps (h : planCopy policy s primary = .ok t) :
    PlanSteps policy .shards s t ∧ t.replicas = s.replicas := by
  unfold planCopy at h
  dsimp only at h
  split at h
  · split at h
    · cases h
      exact ⟨.refl, rfl⟩
    · rename_i target htarget
      obtain ⟨node, hnode, rfl, hactive, hexcluded⟩ := chooseTarget_eq_some htarget
      refine pushAction_steps .shards (.copy hprimary hnode hactive fun heq => hexcluded ?_)
        (fun _ => nofun) h
      -- the primary stands in for itself, so its own node is excluded
      rw [heq]
      refine mem_map_of_mem (mem_filter.2 ⟨mem_filter.2 ⟨hprimary.1, ?_⟩, ?_⟩)
      · simp [hprimary.2.2]
      · simp [standsIn]
  · cases h
    exact ⟨.refl, rfl⟩

lemma planNext_steps {kind : ActionKind} {reason : ActionReason}
    (hactive : nodeState s primary.nodeId = .active)
    (hkind : kind = .splitShard ∧ primary.hashLo < primary.hashHi ∨ kind = .compactShard)
    (h : planNext s primary kind reason = .ok t) : PlanSteps policy .shards s t := by
  unfold planNext at h
  split at h
  · cases h
    exact .refl
  · rename_i generation hgen
    refine (pushAction_steps .shards
      (.upkeep hprimary hactive hkind (ofNat?_eq_some.1 hgen)) (fun _ => ?_) h).1
    rcases hkind with ⟨rfl, -⟩ | rfl
    · exact nofun
    · exact nofun

lemma planUpkeep_steps (h : planUpkeep policy s primary = .ok t) :
    PlanSteps policy .shards s t := by
  unfold planUpkeep at h
  dsimp only at h
  split at h
  · rename_i hidle
    split at h
    · rename_i hsplit
      exact planNext_steps hprimary hidle.1 (.inl ⟨rfl, hsplit.2⟩) h
    · split at h
      · exact planNext_steps hprimary hidle.1 (.inr rfl) h
      · cases h
        exact .refl
  · cases h
    exact .refl

end

lemma planShard_steps {shardId : String} (h : planShard policy s shardId = .ok t) :
    PlanSteps policy .shards s t := by
  unfold planShard at h
  split at h
  · cases h
    exact .refl
  · rename_i primary hfound
    obtain ⟨hprimary, -⟩ := readyPrimary_eq_some hfound
    obtain ⟨copied, hcopied, h⟩ := bind_ok.1 h
    obtain ⟨hsteps, hreps⟩ := planCopy_steps hprimary hcopied
    have hstill : IsReadyPrimary copied primary := ⟨hreps ▸ hprimary.1, hprimary.2⟩
    exact hsteps.trans (planUpkeep_steps hstill h)

lemma reconcileShard_steps {shardId : String} (h : reconcileShard policy s shardId = .ok t) :
    PlanSteps policy .shards s t := by
  have hprom : PlanSteps policy .shards s (promoteAvailable s shardId) := by
    unfold promoteAvailable
    split
    · exact .refl
    · rename_i r hr
      exact .single (.promote hr)
  exact hprom.trans (planShard_steps h)

lemma mem_primariesByRange {r : Replica} : r ∈ primariesByRange s ↔ IsReadyPrimary s r := by
  rw [primariesByRange, mem_insertionSort, mem_filter, Bool.and_eq_true,
    decide_eq_true_eq, IsReadyPrimary]

lemma mem_of_mem_neighbours {α : Type} {l : List α} {p : α × α} (h : p ∈ neighbours l) :
    p.1 ∈ l ∧ p.2 ∈ l :=
  ⟨(of_mem_zip h).1, mem_of_mem_tail (of_mem_zip h).2⟩

lemma planMerge_steps {pair : Replica × Replica} (hleft : IsReadyPrimary s pair.1)
    (hright : IsReadyPrimary s pair.2) (h : planMerge policy s pair = .ok t) :
    PlanSteps policy .pairs s t ∧ t.replicas = s.replicas := by
  unfold planMerge at h
  split at h
  · rename_i hmerge
    split at h
    · cases h
      exact ⟨.refl, rfl⟩
    · rename_i generation hgen
      exact pushAction_steps .pairs (.merge hleft hright hmerge (ofNat?_eq_some.1 hgen)) nofun h
  · cases h
    exact ⟨.refl, rfl⟩

lemma planMerges_steps (h : planMerges policy s = .ok t) : PlanSteps policy .pairs s t := by
  -- the pairs are those of the state at the start; merges leave the copies as they are
  have hkeeps : PlanSteps policy .pairs s t ∧ t.replicas = s.replicas := by
    refine foldlM_inv (P := fun u => PlanSteps policy .pairs s u ∧ u.replicas = s.replicas)
      (fun pair hpair u v hu hv => ?_) ⟨.refl, rfl⟩ h
    obtain ⟨hleft, hright⟩ := mem_of_mem_neighbours hpair
    have hready {r : Replica} (hr : r ∈ primariesByRange s) : IsReadyPrimary u r := by
      obtain ⟨hmem, hrole⟩ := mem_primariesByRange.1 hr
      exact ⟨hu.2.symm ▸ hmem, hrole⟩
    obtain ⟨hsteps, hreps⟩ := planMerge_steps (hready hleft) (hready hright) hv
    exact ⟨hu.1.trans hsteps, hreps.trans hu.2⟩
  exact hkeeps.1

lemma moveCandidate_eq_some {high low : Node} {r : Replica}
    (h : moveCandidate s high low = some r) : IsReadyPrimary s r ∧ r.nodeId = high.nodeId := by
  obtain ⟨hmem, hp⟩ := mem_filter.1 (lastMax_mem h)
  simp only [Bool.and_eq_true, decide_eq_true_eq] at hp
  exact ⟨⟨hmem, hp.1.1.1.1, hp.1.1.1.2⟩, hp.1.1.2⟩

lemma planRebalance_steps (h : planRebalance s = .ok t) : PlanSteps policy .pairs s t := by
  unfold planRebalance at h
  dsimp only at h
  split at h
  · rename_i high low hhigh hlow
    split at h
    · rename_i huneven
      unfold planMove at h
      split at h
      · cases h
        exact .refl
      · rename_i candidate hcandidate
        obtain ⟨hprimary, hnode⟩ := moveCandidate_eq_some hcandidate
        obtain ⟨hmem, hactive⟩ := mem_filter.1 (firstMin_mem hlow)
        have hother := hnode ▸ huneven.1.symm
        exact (pushAction_steps .pairs (.copy hprimary hmem (of_decide_eq_true hactive) hother)
          nofun h).1
    · cases h
      exact .refl
  · cases h
    exact .refl

/-- **A reconciliation plans by promotions and pushed actions**, after the leases are expired. -/
theorem planAll_steps {now : U64} (h : planAll policy s now = .ok t) :
    ∃ mid, PlanSteps policy .shards (expireLeases s now) mid ∧ PlanSteps policy .pairs mid t := by
  obtain ⟨shards, hshards, merged, hmerged, h⟩ := bind₂_ok.1 h
  exact ⟨shards, foldlM_inv (fun _ _ u v hu hv => hu.trans (reconcileShard_steps hv)) .refl hshards,
    (planMerges_steps hmerged).trans (planRebalance_steps h)⟩

lemma planSteps_keeps {I : StoredState → Prop} (hI : I s)
    (step : ∀ u v, I u → PlanStep policy phase u v → I v) (h : PlanSteps policy phase s t) : I t := by
  induction h with
  | refl => exact hI
  | tail _ hstep ih => exact step _ _ ih hstep

/-- What the expiry of leases and every planning step keep, planning keeps. -/
lemma planAll_keeps {I : StoredState → Prop} {now : U64} (hI : I (expireLeases s now))
    (step : ∀ phase u v, I u → PlanStep policy phase u v → I v) (h : planAll policy s now = .ok t) :
    I t := by
  obtain ⟨mid, hshards, hpairs⟩ := planAll_steps h
  exact planSteps_keeps (planSteps_keeps hI (step .shards) hshards) (step .pairs) hpairs

end

/-- Leases of ten seconds, one copy of a shard, splits over a hundred rows, compaction of four
segments. -/
def smallPolicy : ControlPolicy where
  leaseMs := wrap 10000
  replicationFactor := 1
  splitRows := wrap 100
  mergeRows := wrap 0
  compactSegments := 4
  compactTombstonePpm := 1000000
  historyLimit := 4

def Op.joins (nodeId : String) (now : ℕ) : Op :=
  .register ⟨nodeId, nodeId ++ ":1", wrap 0, none⟩ (wrap now)

def smallCopy (shardId : String) (generation rows segments : ℕ) (range : U64 × U64) (role : Role) :
    ShardReplicaState where
  shardId := shardId
  nodeId := ""
  addr := ""
  generation := wrap generation
  hashLo := range.1
  hashHi := range.2
  rows := wrap rows
  bytes := wrap rows
  role := some role
  ready := true
  scoringFingerprint := "s"
  analysisFingerprint := "a"
  immutableSegments := segments
  tombstones := wrap 0

def fullRange : U64 × U64 := (wrap 0, max)

def Op.reports (nodeId : String) (token now : ℕ) (copy : ShardReplicaState) : Op :=
  .report ⟨nodeId, wrap token, some copy⟩ (wrap now)

end ProtomoltSearch.ControlPlane
