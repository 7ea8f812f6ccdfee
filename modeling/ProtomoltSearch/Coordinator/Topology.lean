import ProtomoltSearch.Foundations.Overflow
import ProtomoltSearch.Foundations.Tiling
import ProtomoltSearch.Placement.Tree

/-!
# Topologies and who owns a hash

A topology is a list of shard routes. Routes may carry inclusive ranges of the stable-key hash; then
all of them do, and the ranges tile the hash space, per leaf when there is a placement tree
(`buildTopology`, `checkHashTiling`). A stable key belongs to the shard whose range holds its hash
(`Owns`).

* `checkHashTiling_ok_iff`: the check passes exactly when every hash lies in exactly one range.
* `buildTopology_scope`: in an accepted topology with ranges every hash of a scope has one owner.
-/

namespace ProtomoltSearch.Coordinator

open Placement ProtomoltSearch.Filter List

structure TopologyRoute where
  addr : String
  replica : Option String
  /-- The inclusive range of stable-key hashes. -/
  hashRange : Option (U64 × U64)
  placement : Option I64

structure CoordinatorTopology where
  generation : ℕ
  routes : List TopologyRoute
  placement : Option PlacementTree

structure HashShare where
  lo : U64
  hi : U64
  shard : ℕ

/-- The ranges, in order, continue at the expected hash and end at the last. -/
def checkTilingFrom (scope : String) (expected : U64) : List HashShare → Except String Unit
  | [] => .ok ()
  | r :: rest => do
    refuseIf (r.lo ≠ expected)
      ("topology hash space" ++ scope ++ " has a gap or overlap before shard " ++ toString r.shard ++
        ": expected " ++ toString expected.val ++ ", got " ++ toString r.lo.val)
    if rest.isEmpty then
      refuseIf (r.hi ≠ U64.max)
        ("topology hash space" ++ scope ++ " ends at " ++ toString r.hi.val ++ ", not " ++
          toString U64.max.val)
    else do
      let expected ← okOr (U64.ofNat? (r.hi.val + 1))
        ("topology shard " ++ toString r.shard ++ " reaches the hash-space end too early")
      checkTilingFrom scope expected rest

/-- The ranges tile the hash space, in the order of their starts. -/
def checkHashTiling (ranges : List HashShare) (scope : String) : Except String Unit :=
  checkTilingFrom scope ⟨0, U64.zero_lt⟩ (ranges.insertionSort fun a b => a.lo ≤ b.lo)

def HashShare.range (r : HashShare) : ℕ × ℕ := (r.lo.val, r.hi.val)

lemma checkTilingFrom_ok_iff {scope : String} {expected : U64} {rs : List HashShare}
    (hrs : rs ≠ []) (hne : ∀ r ∈ rs, r.lo ≤ r.hi) : checkTilingFrom scope expected rs = .ok () ↔
      Tiles expected.val (rs.map HashShare.range) (2 ^ 64) := by
  induction rs generalizing expected with
  | nil => exact absurd rfl hrs
  | cons r rest ih =>
    obtain ⟨hr, hne⟩ := forall_mem_cons.1 hne
    have hlo : (decide (r.lo ≠ expected) = false) ↔ r.lo.val = expected.val := by
      rw [decide_eq_false_iff_not, not_not, U64.val_injective.eq_iff]
    rw [checkTilingFrom, bind_ok]
    simp only [refuseIf_ok, hlo, exists_and_left, exists_const, map_cons, Tiles]
    refine and_congr Iff.rfl ((and_iff_right (U64.le_iff.1 hr)).trans ?_).symm
    cases rest with
    | nil =>
      rw [isEmpty_nil, if_pos rfl, refuseIf_ok, decide_eq_false_iff_not, not_not, ← U64.val_injective.eq_iff]
      simp only [map_nil, Tiles, HashShare.range, U64.max]
      omega
    | cons s rest =>
      rw [isEmpty_cons, if_neg Bool.false_ne_true, bind_ok]
      simp only [okOr_ok, U64.ofNat?_eq_some]
      constructor
      · intro htiles
        have hfits : r.hi.val + 1 < 2 ^ 64 := by
          have := htiles.range_le s.range mem_cons_self
          simp only [HashShare.range] at this
          omega
        exact ⟨⟨_, hfits⟩, rfl, (ih (cons_ne_nil _ _) hne).2 htiles⟩
      · rintro ⟨next, hnext, hrec⟩
        have htiles := (ih (cons_ne_nil _ _) hne).1 hrec
        rwa [hnext] at htiles

/-- The number of ranges a hash lies in. -/
def owners (ranges : List HashShare) (hash : ℕ) : ℕ :=
  ranges.countP fun r => decide (r.lo.val ≤ hash ∧ hash ≤ r.hi.val)

lemma owners_eq_countP (ranges : List HashShare) (hash : ℕ) :
    owners ranges hash = (ranges.map HashShare.range).countP (covers hash) := by
  rw [countP_map]
  rfl

instance : Std.Total fun a b : HashShare => a.lo ≤ b.lo := ⟨fun a b => le_total a.lo b.lo⟩

instance : IsTrans HashShare fun a b => a.lo ≤ b.lo := ⟨fun _ _ _ => le_trans⟩

/-- The check passes exactly when every hash lies in exactly one range. -/
lemma checkHashTiling_ok_iff {ranges : List HashShare} {scope : String} (hranges : ranges ≠ [])
    (hne : ∀ r ∈ ranges, r.lo ≤ r.hi) :
    checkHashTiling ranges scope = .ok () ↔ ∀ hash : U64, owners ranges hash.val = 1 := by
  have hperm := perm_insertionSort (fun a b : HashShare => a.lo ≤ b.lo) ranges
  have hsort : ((ranges.insertionSort fun a b => a.lo ≤ b.lo).map HashShare.range).Pairwise
      fun r s => r.1 ≤ s.1 :=
    pairwise_map.2 (pairwise_insertionSort (fun a b : HashShare => a.lo ≤ b.lo) ranges)
  have hsort' : ranges.insertionSort (fun a b => a.lo ≤ b.lo) ≠ [] := fun h =>
    hranges (perm_nil.1 (h ▸ hperm.symm))
  have hne' : ∀ r ∈ ranges.insertionSort fun a b => a.lo ≤ b.lo, r.lo ≤ r.hi := fun r hr =>
    hne r (hperm.mem_iff.1 hr)
  have hrange : ∀ r ∈ (ranges.insertionSort fun a b => a.lo ≤ b.lo).map HashShare.range,
      r.1 ≤ r.2 := forall_mem_map.2 hne'
  rw [checkHashTiling, checkTilingFrom_ok_iff hsort' hne',
    tiles_iff_countP (Nat.zero_le _) hsort hrange]
  have hcnt (x : ℕ) : ((ranges.insertionSort fun a b => a.lo ≤ b.lo).map HashShare.range).countP
      (covers x) = owners ranges x := by
    rw [owners_eq_countP]
    exact (hperm.map _).countP_eq _
  simp only [hcnt]
  constructor
  · intro h hash
    rw [h, if_pos ⟨Nat.zero_le _, hash.upper⟩]
  · intro h x
    split
    · rename_i hx
      exact h ⟨x, hx.2⟩
    · refine countP_eq_zero.2 fun r _ hcov => ?_
      have hlt := r.hi.upper
      rw [decide_eq_true_iff] at hcov
      omega

section

/-- A loop of checks, each with the index of its item. -/
def checkEach {α : Type} (check : α → ℕ → Except String Unit) (l : List α) : Except String Unit :=
  l.zipIdx.forM fun (a, i) => check a i

/-- A shard's code names a leaf. -/
def checkCode (leaves : List Leaf) (route : TopologyRoute) (shard : ℕ) : Except String Unit :=
  match route.placement with
  | none =>
    .error ("topology shard " ++ toString shard ++ " has no placement code; the map has a " ++
      "placement tree, so every shard names the leaf it serves")
  | some code =>
    refuseIf (!leaves.any fun leaf => leaf.code = code)
      ("topology shard " ++ toString shard ++ " names placement code " ++ toString code.val ++
        ", which is no leaf of the tree")

/-- The leaf a route counts for: the first with its code. -/
def servedLeaf (leaves : List Leaf) (route : TopologyRoute) : Option ℕ :=
  route.placement.bind fun code => leaves.findIdx? fun leaf => leaf.code = code

variable (routes : List TopologyRoute)

/-- The codes of the routes fit the tree, or there are none. -/
def checkPlacement : Option PlacementTree → Except String Unit
  | none => checkEach (fun route shard => refuseIf route.placement.isSome
      ("topology shard " ++ toString shard ++
        " carries a placement code but the map has no placement tree")) routes
  | some placement => do
    checkEach (checkCode placement.leaves) routes
    checkEach (fun leaf i => refuseIf (!(routes.map (servedLeaf placement.leaves)).contains (some i))
      ("placement leaf " ++ debug leaf.name ++ " (code " ++ toString leaf.code.val ++ ") has no shard"))
      placement.leaves

/-- A new address; none repeats, a replica's included. -/
def checkAddress (seen : List String) (addr empty : String) : Except String (List String) := do
  refuseIf addr.isEmpty empty
  refuseIf (seen.contains addr) ("duplicate topology endpoint " ++ debug addr)
  .ok (addr :: seen)

def checkReplica (seen : List String) (route : TopologyRoute) (shard : ℕ) :
    Except String (List String) :=
  match route.replica with
  | none => .ok seen
  | some replica =>
    checkAddress seen replica ("topology shard " ++ toString shard ++ " has an empty replica address")

def checkRange (route : TopologyRoute) (shard : ℕ) : Except String Unit :=
  match route.hashRange with
  | none => .ok ()
  | some (lo, hi) =>
    refuseIf (hi < lo)
      ("topology shard " ++ toString shard ++ " has inverted hash range " ++ toString lo.val ++
        "..=" ++ toString hi.val)

def checkRoute (seen : List String) (route : TopologyRoute × ℕ) : Except String (List String) := do
  let seen ← checkAddress seen route.1.addr
    ("topology shard " ++ toString route.2 ++ " has an empty primary address")
  let seen ← checkReplica seen route.1 route.2
  checkRange route.1 route.2
  .ok seen

/-- The route serves the code; every route serves no code. -/
def TopologyRoute.serves (code : Option I64) (route : TopologyRoute) : Bool :=
  code.isNone || route.placement = code

def rangesOf (code : Option I64) : List HashShare :=
  (routes.zipIdx.filter fun r => r.1.serves code).filterMap fun r =>
    r.1.hashRange.map fun range => ⟨range.1, range.2, r.2⟩

def checkTilings : Option PlacementTree → Except String Unit
  | none => checkHashTiling (rangesOf routes none) ""
  | some placement => placement.leaves.forM fun leaf =>
      checkHashTiling (rangesOf routes (some leaf.code)) (" of placement leaf " ++ debug leaf.name)

/-- Every route has a range, or none does; ranges tile. -/
def checkRanges (placement : Option PlacementTree) : Except String Unit :=
  let ranged := routes.countP fun route => route.hashRange.isSome
  if ranged = 0 then .ok ()
  else if ranged ≠ routes.length then
    .error "topology must provide hash ranges for every shard or none"
  else checkTilings routes placement

variable (parse : String → Except Status FilterExpr)

def validateTree : Option PlacementTreeConfig → Except String (Option PlacementTree)
  | none => .ok none
  | some tree => (validate parse tree).map some

def buildTopology (generation : ℕ) (routes : List TopologyRoute) (tree : Option PlacementTreeConfig) :
    Except String CoordinatorTopology := do
  refuseIf routes.isEmpty "topology requires at least one primary shard"
  let placement ← validateTree parse tree
  checkPlacement routes placement
  let _ ← routes.zipIdx.foldlM checkRoute []
  checkRanges routes placement
  .ok ⟨generation, routes, placement⟩

end

/-- The route serves the code and its range holds the hash. -/
def TopologyRoute.owns (code : Option I64) (hash : U64) (route : TopologyRoute) : Bool :=
  route.serves code && route.hashRange.any fun range => range.1 ≤ hash && hash ≤ range.2

/-- The shard owns the hash, among those that serve the code. -/
def Owns (routes : List TopologyRoute) (code : Option I64) (hash : U64) (shard : ℕ) : Prop :=
  ∃ route, routes[shard]? = some route ∧ route.owns code hash = true

/-- The scopes hashes are owned in: the leaves of the tree, or the whole fleet. -/
def scopes : Option PlacementTree → List (Option I64)
  | none => [none]
  | some placement => placement.leaves.map fun leaf => some leaf.code

def Ranged (routes : List TopologyRoute) : Prop := ∃ route ∈ routes, route.hashRange ≠ none

variable {parse : String → Except Status FilterExpr} {generation : ℕ} {routes : List TopologyRoute}
  {tree : Option PlacementTreeConfig} {topology : CoordinatorTopology} {code : Option I64}
  {hash : U64}

lemma owners_rangesOf (routes : List TopologyRoute) (code : Option I64) (hash : U64) :
    owners (rangesOf routes code) hash.val = routes.countP (TopologyRoute.owns code hash) := by
  have hfst : routes.countP (TopologyRoute.owns code hash) =
      routes.zipIdx.countP fun r => r.1.owns code hash := by
    nth_rewrite 1 [← zipIdx_map_fst 0 routes]
    rw [countP_map]
    rfl
  rw [hfst, owners, rangesOf, countP_filterMap, countP_filter]
  refine countP_congr fun r _ => ?_
  rw [TopologyRoute.owns]
  cases r.1.hashRange with
  | none => simp
  | some range => simp [U64.le_iff, and_comm]

lemma owners_eq_one_iff :
    owners (rangesOf routes code) hash.val = 1 ↔ ∃! shard, Owns routes code hash shard := by
  rw [owners_rangesOf, countP_eq_one_iff]
  rfl

/-- What the checks of an accepted topology have passed. -/
lemma buildTopology_ok (h : buildTopology parse generation routes tree = .ok topology) :
    routes ≠ [] ∧ topology = ⟨generation, routes, topology.placement⟩ ∧
      validateTree parse tree = .ok topology.placement ∧
      checkPlacement routes topology.placement = .ok () ∧
      (∀ route ∈ routes, ∃ shard, checkRange route shard = .ok ()) ∧
      checkRanges routes topology.placement = .ok () := by
  obtain ⟨_, hempty, placement, hplace, _, hcodes, h⟩ := bind₃_ok.1 h
  obtain ⟨seen, hroutes, _, hranges, h⟩ := bind₂_ok.1 h
  obtain rfl := Except.ok.inj h
  refine ⟨fun hnil => ?_, rfl, hplace, hcodes, fun route hroute => ?_, hranges⟩
  · rw [hnil] at hempty
    cases hempty
  · obtain ⟨shard, hshard⟩ := mem_iff_getElem?.1 hroute
    have hmem : (route, shard) ∈ routes.zipIdx := mem_zipIdx_iff_getElem?.2 hshard
    obtain ⟨before, after, hstep⟩ := foldlM_steps hroutes _ hmem
    obtain ⟨_, _, hstep⟩ := rest₂_ok hstep
    obtain ⟨_, hrange, -⟩ := bind_ok.1 hstep
    exact ⟨shard, hrange⟩

lemma checkRange_ok {route : TopologyRoute} {shard : ℕ} (h : checkRange route shard = .ok ())
    {range : U64 × U64} (hrange : route.hashRange = some range) : range.1 ≤ range.2 := by
  rw [checkRange, hrange] at h
  exact not_lt.1 (of_decide_eq_false (refuseIf_ok.1 h))

/-- Ranges that passed their check: every route has one, and each scope is tiled. -/
lemma checkRanges_ok {placement : Option PlacementTree} (hranged : Ranged routes)
    (h : checkRanges routes placement = .ok ()) : (∀ route ∈ routes, route.hashRange.isSome) ∧
      ∀ code ∈ scopes placement, ∃ text, checkHashTiling (rangesOf routes code) text = .ok () := by
  obtain ⟨route, hroute, hsome⟩ := hranged
  unfold checkRanges at h
  rw [if_neg fun hzero => countP_eq_zero.1 hzero route hroute (Option.isSome_iff_ne_none.2 hsome)]
    at h
  split at h
  · cases h
  · rename_i hall
    refine ⟨countP_eq_length.1 (not_not.1 hall), fun code hcode => ?_⟩
    cases placement with
    | none =>
      obtain rfl := mem_singleton.1 hcode
      exact ⟨_, h⟩
    | some placement =>
      obtain ⟨leaf, hleaf, rfl⟩ := mem_map.1 hcode
      exact ⟨_, forM_ok.1 h leaf hleaf⟩

/-- Every scope of a placement that passed its check has a shard. -/
lemma checkPlacement_ok {placement : Option PlacementTree} (hroutes : routes ≠ [])
    (h : checkPlacement routes placement = .ok ()) :
    ∀ code ∈ scopes placement, ∃ route ∈ routes, route.serves code = true := by
  cases placement with
  | none =>
    intro code hcode
    obtain rfl := mem_singleton.1 hcode
    obtain ⟨route, hroute⟩ := exists_mem_of_ne_nil routes hroutes
    exact ⟨route, hroute, rfl⟩
  | some placement =>
    obtain ⟨-, -, hserved⟩ := bind_ok.1 h
    intro code hcode
    obtain ⟨leaf, hleaf, rfl⟩ := mem_map.1 hcode
    obtain ⟨i, hi⟩ := mem_iff_getElem?.1 hleaf
    have hchk := forM_ok.1 hserved (leaf, i) (mem_zipIdx_iff_getElem?.2 hi)
    rw [refuseIf_ok, Bool.not_eq_false', contains_iff_mem] at hchk
    obtain ⟨route, hroute, hserves⟩ := mem_map.1 hchk
    refine ⟨route, hroute, ?_⟩
    obtain ⟨c, hc, hidx⟩ := Option.bind_eq_some_iff.1 hserves
    obtain ⟨hlt, hfound, -⟩ := findIdx?_eq_some_iff_getElem.1 hidx
    obtain rfl := Option.some.inj ((getElem?_eq_getElem hlt).symm.trans hi)
    rw [TopologyRoute.serves, hc, of_decide_eq_true hfound, decide_eq_true rfl, Bool.or_true]

/-- **An accepted topology with ranges tiles each scope**: every hash has one owner there. -/
theorem buildTopology_scope (h : buildTopology parse generation routes tree = .ok topology)
    (hranged : Ranged routes) (hcode : code ∈ scopes topology.placement) (hash : U64) :
    ∃! shard, Owns routes code hash shard := by
  obtain ⟨hroutes, -, -, hplace, hchecked, hranges⟩ := buildTopology_ok h
  obtain ⟨hall, htiled⟩ := checkRanges_ok hranged hranges
  obtain ⟨text, htiling⟩ := htiled code hcode
  refine owners_eq_one_iff.1 ((checkHashTiling_ok_iff ?_ ?_).1 htiling hash)
  · obtain ⟨route, hroute, hserves⟩ := checkPlacement_ok hroutes hplace code hcode
    obtain ⟨range, hrange⟩ := Option.isSome_iff_exists.1 (hall route hroute)
    obtain ⟨shard, hshard⟩ := mem_iff_getElem?.1 hroute
    refine ne_nil_of_mem (a := ⟨range.1, range.2, shard⟩) (mem_filterMap.2
      ⟨(route, shard), mem_filter.2 ⟨mem_zipIdx_iff_getElem?.2 hshard, hserves⟩, ?_⟩)
    rw [hrange, Option.map_some]
  · intro r hr
    obtain ⟨⟨route, shard⟩, hmem, hr⟩ := mem_filterMap.1 hr
    obtain ⟨range, hrange, rfl⟩ := Option.map_eq_some_iff.1 hr
    have hroute : route ∈ routes :=
      mem_of_getElem? (mem_zipIdx_iff_getElem?.1 (mem_filter.1 hmem).1)
    obtain ⟨shard, hchk⟩ := hchecked route hroute
    exact checkRange_ok hchk hrange

/-- The scopes of a configuration: those of its tree, when the tree is valid. -/
def configScopes (parse : String → Except Status FilterExpr) (tree : Option PlacementTreeConfig) :
    List (Option I64) :=
  match validateTree parse tree with
  | .ok placement => scopes placement
  | .error _ => []

/-- **Every accepted configuration with hash ranges owns each hash once in each scope**, and one
whose ranges overlap, leave a gap or leave an end uncovered in some scope is refused. -/
theorem buildTopology_owns_once (parse : String → Except Status FilterExpr) (generation : ℕ)
    (routes : List TopologyRoute) (tree : Option PlacementTreeConfig) (hranged : Ranged routes) :
    (∀ topology, buildTopology parse generation routes tree = .ok topology →
      ∀ code ∈ scopes topology.placement, ∀ hash, ∃! shard, Owns routes code hash shard) ∧
    ∀ code ∈ configScopes parse tree, ∀ hash, (¬∃! shard, Owns routes code hash shard) →
      ∃ message, buildTopology parse generation routes tree = .error message := by
  refine ⟨fun topology h code hcode hash => buildTopology_scope h hranged hcode hash,
    fun code hcode hash hnot => ?_⟩
  cases h : buildTopology parse generation routes tree with
  | error message => exact ⟨message, rfl⟩
  | ok topology =>
    obtain ⟨-, -, hvalid, -⟩ := buildTopology_ok h
    rw [configScopes, hvalid] at hcode
    exact absurd (buildTopology_scope h hranged hcode hash) hnot

/-- Two shards that halve the hash space. -/
def halves : List TopologyRoute :=
  [⟨"a", none, some (⟨0, U64.zero_lt⟩, ⟨2 ^ 63 - 1, by norm_num⟩), none⟩,
    ⟨"b", some "c", some (⟨2 ^ 63, by norm_num⟩, U64.max), none⟩]

theorem buildTopology_owns_once_halves :
    Ranged halves ∧ ∀ hash, ∃! shard, Owns halves none hash shard := by
  have hranged : Ranged halves := ⟨_, mem_cons_self, fun h => nomatch h⟩
  have haccepted : buildTopology (fun _ => .error (.internal "")) 1 halves none =
      .ok ⟨1, halves, none⟩ := rfl
  exact ⟨hranged, (buildTopology_owns_once _ 1 halves none hranged).1 _ haccepted none
    (mem_singleton_self none)⟩

/-- A fleet without ranges is accepted, and owns no hash. -/
theorem not_buildTopology_owns_unranged :
    ¬∀ (routes : List TopologyRoute) (topology : CoordinatorTopology),
      buildTopology (fun _ => .error (.internal "")) 1 routes none = .ok topology →
        ∀ code ∈ scopes topology.placement, ∀ hash, ∃! shard, Owns routes code hash shard := by
  intro h
  obtain ⟨shard, ⟨route, hroute, howns⟩, -⟩ := h [⟨"a", none, none, none⟩] _ rfl none
    (mem_singleton_self none) U64.max
  obtain rfl := mem_singleton.1 (mem_of_getElem? hroute)
  cases howns

end ProtomoltSearch.Coordinator
