import ProtomoltSearch.ControlPlane.Runs

/-!
# The published topology

Reconciliation publishes the routes of the available primaries when each starts where the one before
it ended. The check counts over past the last hash, so a shard over the whole hash space may be
followed by a second one (`not_routes_assign_once`), and a rollback may bring back the empty
topology. Apart from these two, an installed topology assigns every hash to one route along every
run, and its generation only grows (`routes_assign_once`).
-/

namespace ProtomoltSearch.ControlPlane

open List Runs Bool

/-- Every hash lies in the range of exactly one route. -/
def AssignsOnce (routes : List Route) : Prop :=
  ∀ hash : U64, ∃! i : ℕ, ∃ route, routes[i]? = some route ∧ route.hashLo ≤ hash ∧ hash ≤ route.hashHi

def Route.range (route : Route) : ℕ × ℕ := (route.hashLo.val, route.hashHi.val)

variable {policy : ControlPolicy} {s t : StoredState} {routes : List Route}

lemma assignsOnce_of_tiles (h : Tiles 0 (routes.map Route.range) (2 ^ 64)) : AssignsOnce routes := by
  intro hash
  have hcnt : routes.countP (fun route => covers hash.val route.range) = 1 := by
    have hcovers := h.countP_covers hash.val
    rw [countP_map, if_pos ⟨Nat.zero_le _, hash.upper⟩] at hcovers
    exact hcovers
  have huniq := countP_eq_one_iff.1 hcnt
  simp only [covers_iff] at huniq
  exact huniq

/-- The range covers the whole hash space. -/
def IsFull (lo hi : U64) : Prop := lo.val = 0 ∧ hi = U64.max

instance (lo hi : U64) : Decidable (IsFull lo hi) := inferInstanceAs (Decidable (_ ∧ _))

/-- A chain over sorted routes, none of them over the whole hash space, tiles up to the last hash. -/
lemma tiles_of_chainFrom {expected : U64} (hchain : chainFrom expected routes = true)
    (hsort : routes.Pairwise fun a b => a.hashLo ≤ b.hashLo)
    (hranges : ∀ route ∈ routes, route.hashLo ≤ route.hashHi)
    (hfull : ∀ route ∈ routes, ¬ IsFull route.hashLo route.hashHi)
    (hlast : routes.getLast?.any fun r => r.hashHi = U64.max) :
    Tiles expected.val (routes.map Route.range) (2 ^ 64) := by
  induction routes generalizing expected with
  | nil => cases hlast
  | cons route rest ih =>
    obtain ⟨hlo, hrest⟩ := and_eq_true_iff.1 hchain
    obtain rfl := of_decide_eq_true hlo
    obtain ⟨hfst, hsort⟩ := pairwise_cons.1 hsort
    obtain ⟨hrange, hranges⟩ := forall_mem_cons.1 hranges
    obtain ⟨hnotFull, hfull⟩ := forall_mem_cons.1 hfull
    refine ⟨rfl, hrange, ?_⟩
    cases rest with
    | nil =>
      have hhi : route.hashHi = U64.max := by simpa using hlast
      show route.hashHi.val + 1 = 2 ^ 64
      rw [hhi]
      rfl
    | cons after rest =>
      -- a route that ends at the last hash would be followed by one that starts at zero
      have hhi : route.hashHi.val + 1 < 2 ^ 64 := by
        by_contra hmax
        have hupper := route.hashHi.upper
        refine hnotFull ⟨?_, U64.val_injective (show _ = 2 ^ 64 - 1 by omega)⟩
        have haft := of_decide_eq_true (and_eq_true_iff.1 hrest).1
        have hle := hfst after mem_cons_self
        rw [haft, show route.hashHi.val + 1 = 2 ^ 64 by omega] at hle
        exact Nat.le_zero.1 hle
      have htiles := ih hrest hsort hranges hfull hlast
      rwa [U64.wrap_val hhi] at htiles

/-- A shard with a ready copy over the whole hash space is the only shard with a ready copy. -/
def FullIsSole (s : StoredState) : Prop :=
  ∀ r ∈ s.replicas.values, ∀ other ∈ s.replicas.values, r.ready = true → other.ready = true →
    IsFull r.hashLo r.hashHi → other.shardId = r.shardId

instance (s : StoredState) : Decidable (FullIsSole s) :=
  inferInstanceAs (Decidable (∀ r ∈ s.replicas.values, ∀ other ∈ s.replicas.values, _))

/-- A route is that of a ready copy of its shard. -/
lemma routeOf_eq_some {shardId : String} {route : Route} (h : routeOf s shardId = some route) :
    ∃ r ∈ s.replicas.values, r.shardId = shardId ∧ r.ready = true ∧ r.hashLo = route.hashLo ∧
      r.hashHi = route.hashHi := by
  obtain ⟨r, hr, rfl⟩ := Option.map_eq_some_iff.1 h
  obtain ⟨hmem, hcopy⟩ := mem_filter.1 (mem_of_find?_eq_some hr)
  rw [and_eq_true, decide_eq_true_eq] at hcopy
  exact ⟨r, hmem, hcopy.1, hcopy.2, rfl, rfl⟩

lemma nodup_readyShards (s : StoredState) : (readyShards s).Nodup :=
  (perm_insertionSort _ _).nodup_iff.2 (nodup_dedup _)

lemma mem_sortedRoutes {route : Route} :
    route ∈ sortedRoutes s ↔ ∃ shardId ∈ readyShards s, routeOf s shardId = some route := by
  rw [sortedRoutes, mem_insertionSort, mem_filterMap]

lemma sortedRoutes_pairwise (s : StoredState) :
    (sortedRoutes s).Pairwise fun a b => a.hashLo ≤ b.hashLo :=
  pairwise_insertionSort (fun a b : Route => a.hashLo ≤ b.hashLo) _

/-- Names that must all be one give at most one image. -/
lemma length_filterMap_le_one {α β : Type} {f : α → Option β} {l : List α} (hl : l.Nodup)
    {a : α} (h : ∀ b ∈ l, (f b).isSome → b = a) : (l.filterMap f).length ≤ 1 := by
  induction l with
  | nil => exact Nat.zero_le _
  | cons b l ih =>
    obtain ⟨hb, hl⟩ := nodup_cons.1 hl
    obtain ⟨hhead, htail⟩ := forall_mem_cons.1 h
    cases hf : f b with
    | none =>
      rw [filterMap_cons_none hf]
      exact ih hl htail
    | some c =>
      obtain rfl := hhead (hf ▸ rfl)
      have hnone : l.filterMap f = [] := by
        refine filterMap_eq_nil_iff.2 fun b' hb' => Option.not_isSome_iff_eq_none.1 fun hsome => ?_
        exact hb (htail b' hb' hsome ▸ hb')
      rw [filterMap_cons_some hf, hnone]
      exact le_rfl

/-- A route over the whole hash space is alone. -/
lemma sortedRoutes_length_of_full (hsole : FullIsSole s) {route : Route}
    (hroute : route ∈ sortedRoutes s) (hfull : IsFull route.hashLo route.hashHi) :
    (sortedRoutes s).length ≤ 1 := by
  obtain ⟨shardId, -, hof⟩ := mem_sortedRoutes.1 hroute
  obtain ⟨r, hr, rfl, hready, hlo, hhi⟩ := routeOf_eq_some hof
  rw [sortedRoutes, length_insertionSort]
  refine length_filterMap_le_one (a := r.shardId) (nodup_readyShards s) fun other _ hother => ?_
  obtain ⟨route', hroute'⟩ := Option.isSome_iff_exists.1 hother
  obtain ⟨r', hr', rfl, hready', -, -⟩ := routeOf_eq_some hroute'
  exact hsole r hr r' hr' hready hready' (hlo.symm ▸ hhi.symm ▸ hfull)

/-- **The routes to publish assign every hash once.** -/
theorem assignsOnce_of_desiredRoutes (hsole : FullIsSole s) (h : desiredRoutes s = some routes) :
    AssignsOnce routes := by
  unfold desiredRoutes at h
  dsimp only at h
  split at h
  · cases h
  split at h
  · rename_i hne hchk
    cases h
    obtain ⟨hchain, hlast⟩ := and_eq_true_iff.1 hchk
    refine assignsOnce_of_tiles ?_
    have hranges : ∀ route ∈ sortedRoutes s, route.hashLo ≤ route.hashHi := by
      intro route hroute
      obtain ⟨shardId, -, hof⟩ := mem_sortedRoutes.1 hroute
      obtain ⟨r, -, -, -, hlo, hhi⟩ := routeOf_eq_some hof
      exact hlo ▸ hhi ▸ r.range_le
    by_cases hfull : ∃ route ∈ sortedRoutes s, IsFull route.hashLo route.hashHi
    · obtain ⟨route, hroute, hlo, hhi⟩ := hfull
      have hone : sortedRoutes s = [route] := by
        have hlen := sortedRoutes_length_of_full hsole hroute ⟨hlo, hhi⟩
        match hroutes : sortedRoutes s, hlen with
        | [], _ => exact absurd (hroutes ▸ hroute) not_mem_nil
        | [only], _ =>
          rw [hroutes, mem_singleton] at hroute
          rw [hroute]
        | _ :: _ :: _, hlen => exact absurd hlen (by simp)
      rw [hone]
      refine ⟨hlo, hranges route hroute, ?_⟩
      show route.hashHi.val + 1 = 2 ^ 64
      rw [hhi]
      rfl
    · refine tiles_of_chainFrom hchain (sortedRoutes_pairwise s) hranges (fun route hroute => ?_) hlast
      exact fun h => hfull ⟨route, hroute, h⟩
  · cases h

lemma FullIsSole.planStep {phase : Phase} (h : FullIsSole s) (hstep : PlanStep policy phase s t) :
    FullIsSole t := by
  cases hstep with
  | promote hprom =>
    intro r hr other hother
    obtain ⟨held, hheld, role, rfl⟩ := mem_values_promote hr
    obtain ⟨held', hheld', role', rfl⟩ := mem_values_promote hother
    exact h held hheld held' hheld'
  | push _ _ _ => exact h

/-- The topology and the history, before and after planning. -/
lemma planAll_topology {now : U64} (h : planAll policy s now = .ok t) :
    t.topology = s.topology ∧ t.history = s.history := by
  refine planAll_keeps (I := fun u => u.topology = s.topology ∧ u.history = s.history)
    ⟨rfl, rfl⟩ (fun phase u v hu hstep => ?_) h
  cases hstep with
  | promote _ => exact hu
  | push _ _ _ => exact hu

/-- The routes are not installed yet, or assign every hash once. -/
def Sound (topology : Topology) : Prop := topology.routes = [] ∨ AssignsOnce topology.routes

/-- The current topology and every one a rollback may bring back. -/
def RoutesSound (s : StoredState) : Prop := Sound s.topology ∧ ∀ old ∈ s.history, Sound old

/-- What keeps the topology sound: a reconciliation, but for a dry run, finds no ready copy over the
whole hash space next to a ready copy of another shard, a rollback brings back routes, and a bootstrap
comes first. -/
def RoutesCondition (s : StoredState) : Op → Prop
  | .reconcile dryRun _ => dryRun = true ∨ FullIsSole s
  | .rollback requested => ∀ entry ∈ rollbackEntry s requested, entry.2.routes ≠ []
  | .bootstrapTopology _ _ => isPristine s = false
  | _ => True

instance (s : StoredState) : ∀ op, Decidable (RoutesCondition s op)
  | .reconcile dryRun _ => inferInstanceAs (Decidable (dryRun = true ∨ FullIsSole s))
  | .rollback requested =>
    inferInstanceAs (Decidable (∀ entry ∈ rollbackEntry s requested, entry.2.routes ≠ []))
  | .bootstrapTopology _ _ => inferInstanceAs (Decidable (isPristine s = false))
  | .withCollection _ | .register _ _ | .renew _ _ | .drain _ _ | .report _ _ | .completeAction _ _
  | .plan => isTrue trivial

structure TopologyStep (s t : StoredState) : Prop where
  sound : RoutesSound s → RoutesSound t
  installed : s.topology.routes ≠ [] → t.topology.routes ≠ []
  generation : t.topology = s.topology ∨ s.topology.generation < t.topology.generation

lemma TopologyStep.of_eq (h : t.topology = s.topology) (hhist : t.history = s.history) :
    TopologyStep s t :=
  ⟨fun hs => by rwa [RoutesSound, h, hhist], fun hs => by rwa [h], .inl h⟩

lemma mem_pushHistory {old : Topology} (h : old ∈ pushHistory policy s) :
    old ∈ s.history ∨ old = s.topology := by
  unfold pushHistory at h
  dsimp only at h
  split at h
  · exact (mem_append.1 (mem_of_mem_tail h)).imp_right mem_singleton.1
  · exact (mem_append.1 h).imp_right mem_singleton.1

open TopologyStep

lemma reconcileLocked_topologyStep {now : U64} {changed : Bool} (hsole : FullIsSole s)
    (h : reconcileLocked policy s now = .ok (t, changed)) : TopologyStep s t := by
  obtain ⟨revision, planned, published, -, hplan, hpub, rfl⟩ := reconcileLocked_ok h
  obtain ⟨htop, hhist⟩ := planAll_topology hplan
  rcases publish_ok hpub with rfl | ⟨routes, generation, hroutes, hlt, rfl⟩
  · exact of_eq htop hhist
  · have hsolePlanned : FullIsSole planned :=
      planAll_keeps hsole (fun _ _ _ hu hstep => hu.planStep hstep) hplan
    have honce := assignsOnce_of_desiredRoutes hsolePlanned hroutes
    refine ⟨fun hs => ⟨.inr honce, fun old hold => ?_⟩, fun _ hempty => ?_, .inr (htop ▸ hlt)⟩
    · rcases mem_pushHistory hold with hold | rfl
      · exact hs.2 old (hhist ▸ hold)
      · exact htop ▸ hs.1
    · obtain ⟨i, ⟨route, hroute, -⟩, -⟩ := honce U64.max
      have hroutes : routes = [] := hempty
      rw [hroutes] at hroute
      cases hroute

lemma rollback_topologyStep {requested : U64}
    (hold : ∀ entry ∈ rollbackEntry s requested, entry.2.routes ≠ [])
    (h : rollback s requested = .ok t) : TopologyStep s t := by
  obtain ⟨position, old, generation, revision, hent, hmem, hlt, -, rfl⟩ := rollback_ok h
  refine ⟨fun hs => ⟨hs.2 old hmem, fun kept hkept => ?_⟩, fun _ => hold (position, old) hent,
    .inr hlt⟩
  rcases mem_append.1 hkept with hkept | hkept
  · exact hs.2 kept (mem_of_mem_eraseIdx hkept)
  · exact mem_singleton.1 hkept ▸ hs.1

lemma bindCollection_topologyStep {place name : String} (h : bindCollection place s name = .ok t) :
    TopologyStep s t := by
  unfold bindCollection at h
  split at h
  · cases h
    exact of_eq rfl rfl
  · split at h
    · cases h
    · cases h
      exact of_eq rfl rfl

lemma apply_topologyStep {op : Op} (hC : RoutesCondition s op) (h : apply policy s op = some t) :
    TopologyStep s t := by
  cases op with
  | withCollection name => exact bindCollection_topologyStep (toOption_eq_some.1 h)
  | bootstrapTopology generation wire =>
    obtain ⟨routes, -, rfl⟩ := toOption_map_eq_some.1 h
    rw [bootstrapLocked, if_neg (eq_false_iff.1 hC)]
    exact of_eq rfl rfl
  | register req now =>
    obtain ⟨⟨_, lease⟩, hok, rfl⟩ := toOption_map_eq_some.1 h
    obtain ⟨nextToken, revision, expires, -, -, rfl⟩ := register_ok hok
    exact of_eq rfl rfl
  | renew req now =>
    obtain ⟨⟨_, lease⟩, hok, rfl⟩ := toOption_map_eq_some.1 h
    obtain ⟨node, revision, expires, -, -, rfl⟩ := renew_ok hok
    exact of_eq rfl rfl
  | drain req now =>
    obtain ⟨node, revision, -, -, rfl⟩ := drain_ok (toOption_eq_some.1 h)
    exact of_eq rfl rfl
  | report req now =>
    obtain ⟨copy, node, addr, revision, -, -, -, rfl⟩ := report_ok (toOption_eq_some.1 h)
    exact of_eq rfl rfl
  | completeAction req now =>
    rcases completeAction_ok (toOption_eq_some.1 h) with rfl | ⟨c, u, -, hu, rfl⟩
    · exact of_eq rfl rfl
    · have hsame : CopiesOnly s u := copiesOnly_mutate hu
      exact of_eq hsame.topology hsame.history
  | reconcile dryRun now =>
    obtain ⟨⟨after, changed⟩, hok, rfl⟩ := toOption_map_eq_some.1 h
    cases dryRun with
    | true => exact of_eq rfl rfl
    | false => exact reconcileLocked_topologyStep (hC.resolve_left nofun) hok
  | rollback requested => exact rollback_topologyStep hC (toOption_eq_some.1 h)
  | plan =>
    cases h
    exact of_eq rfl rfl

lemma next_topologyStep {op : Op} (hC : RoutesCondition s op) : TopologyStep s (next policy s op) :=
  next_keeps (of_eq rfl rfl) fun _ h => apply_topologyStep hC h

/-- An empty store, bound to a collection, or one bootstrapped then with a topology that assigns every
hash once. -/
def Starts (s : StoredState) : Prop :=
  ∃ collection, s = { StoredState.default with collection } ∨
    ∃ generation routes, AssignsOnce routes ∧
      s = bootstrapLocked { StoredState.default with collection } generation routes

lemma Starts.routesSound (h : Starts s) : RoutesSound s := by
  rcases h with ⟨collection, rfl | ⟨generation, routes, honce, rfl⟩⟩
  · exact ⟨.inl rfl, fun old hold => absurd hold not_mem_nil⟩
  · exact ⟨.inr honce, fun old hold => absurd hold not_mem_nil⟩

section

variable {ops : List Op} (hC : Meets policy RoutesCondition s ops)

include hC

/-- Once routes are installed they stay installed. -/
lemma installed_run (hs : s.topology.routes ≠ []) : (run policy s ops).topology.routes ≠ [] :=
  run_keeps (I := fun u : StoredState => u.topology.routes ≠ []) hs
    (fun _ _ hu hC => (next_topologyStep hC).installed hu) hC

lemma routesSound_run (hs : RoutesSound s) : RoutesSound (run policy s ops) :=
  run_keeps hs (fun _ _ hu hC => (next_topologyStep hC).sound hu) hC

end

/-- **An installed topology assigns every hash to one route**, in every run from an empty or a
bootstrapped store whose reconciliations and rollbacks meet the condition; and every change of the
topology raises its generation. -/
theorem routes_assign_once (policy : ControlPolicy) (start : StoredState) (hstart : Starts start)
    (ops : List Op) (hops : Meets policy RoutesCondition start ops) :
    (∀ pre suf, ops = pre ++ suf → (run policy start pre).topology.routes ≠ [] →
      AssignsOnce (run policy start ops).topology.routes) ∧
    ∀ pre op suf, ops = pre ++ op :: suf →
      (run policy start (pre ++ [op])).topology = (run policy start pre).topology ∨
        (run policy start pre).topology.generation <
          (run policy start (pre ++ [op])).topology.generation := by
  refine ⟨?_, ?_⟩
  · rintro pre suf rfl hinstalled
    obtain ⟨hpre, hsuf⟩ := meets_append.1 hops
    have hsound := routesSound_run hops hstart.routesSound
    rw [run, run_append] at hsound ⊢
    exact hsound.1.resolve_left (installed_run hsuf hinstalled)
  · rintro pre op suf rfl
    obtain ⟨-, hop, -⟩ := meets_append.1 hops
    rw [run, run_append]
    exact (next_topologyStep hop).generation

def lowerHalf : U64 × U64 := (U64.wrap 0, U64.wrap (2 ^ 63 - 1))

def upperHalf : U64 × U64 := (U64.wrap (2 ^ 63), U64.max)

/-- A node joins, reports two shards, and they are published. -/
def publishesHalves : List Op :=
  [.joins "A" 0, .reports "A" 1 1 (smallCopy "a" 1 10 1 lowerHalf .primary),
    .reports "A" 1 1 (smallCopy "b" 1 10 1 upperHalf .primary), .reconcile false (U64.wrap 2)]

theorem routes_assign_once_publishesHalves :
    AssignsOnce (run smallPolicy .default publishesHalves).topology.routes :=
  (routes_assign_once smallPolicy .default ⟨"", .inl rfl⟩ publishesHalves (by decide +kernel)).1
    publishesHalves [] (append_nil _).symm (by decide +kernel)

/-- Two shards, each over the whole hash space. -/
def publishesTwo : List Op :=
  [.joins "A" 0, .reports "A" 1 1 (smallCopy "a" 1 10 1 fullRange .primary),
    .reports "A" 1 1 (smallCopy "b" 1 10 1 fullRange .primary), .reconcile false (U64.wrap 2)]

/-- **Without the condition a hash may have two routes.** -/
theorem not_routes_assign_once :
    ¬ ∀ ops : List Op, (run smallPolicy .default ops).topology.routes ≠ [] →
      AssignsOnce (run smallPolicy .default ops).topology.routes := by
  intro h
  obtain ⟨i, -, hunique⟩ := h publishesTwo (by decide +kernel) U64.max
  have hroutes : (run smallPolicy .default publishesTwo).topology.routes =
      [⟨"A:1", none, U64.wrap 0, U64.max⟩, ⟨"A:1", none, U64.wrap 0, U64.max⟩] := by decide +kernel
  rw [hroutes] at hunique
  have h0 : 0 = i := hunique 0 ⟨_, rfl, by decide, by decide⟩
  have h1 : 1 = i := hunique 1 ⟨_, rfl, by decide, by decide⟩
  omega

end ProtomoltSearch.ControlPlane
