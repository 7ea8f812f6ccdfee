import ProtomoltSearch.Aggregate.Percentile

/-!
# Aggregations through relays

The root merges the shards' partials, and later the counts the percentile search asks for, directly or
through relays to any depth (`aggregate`). When every shard's signed sums are bounded by its counts, the two ways return together
and agree on everything but the moments of doubles.
-/

namespace ProtomoltSearch.Aggregate

open RelayTree Relayable List AggMerge

/-- What one shard answers: its partials, and how many values lie at or below a threshold. -/
structure ShardAnswers (X : Type) where
  partials : List (AggregatePartial X)
  percentilePartials : List PercentilePartial
  countBelow : ℕ × U64 → U64

namespace ShardAnswers

variable {X : Type}

/-- The first answer of a shard. -/
def response (a : ShardAnswers X) : List (AggregatePartial X) × List PercentilePartial :=
  (a.partials, a.percentilePartials)

/-- The values a shard's partial counts for an expression. -/
def presentAt (i : ℕ) (a : ShardAnswers X) : ℕ :=
  a.percentilePartials[i]?.elim 0 fun p => (PctSummary.ofPartial p).present

/-- The signed sums are bounded by the counts, and the counts below are counts of present values. -/
structure Sane (a : ShardAnswers X) : Prop where
  sums : ∀ p ∈ a.partials, p.Sane
  counts : ∀ i t, (a.countBelow (i, t)).val ≤ a.presentAt i

end ShardAnswers

section

/-- A relay adds the counts of its children with a check. -/
def addCount (total c : U64) : Except Refusal U64 :=
  okOr (total.checkedAdd c) .quantileCountOverflows

def addCount.relayable (_ : ℕ × U64) : Relayable addCount U64.zero id (fun _ => True) id where
  Same as bs := (as.map U64.val).sum = (bs.map U64.val).sum
  Valid as := (as.map U64.val).sum < 2 ^ 64
  Inv s as := s.val = (as.map U64.val).sum
  same_refl _ := rfl
  same_symm h := h.symm
  same_trans h h' := h.trans h'
  same_append h h' := by
    rw [map_append, map_append, sum_append, sum_append, h, h']
  valid_of_same h hv := h ▸ hv
  valid_append h := by
    rw [map_append, sum_append] at h
    exact ⟨by omega, by omega⟩
  inv_init := rfl
  inv_step hs _ hf := by
    rw [map_append, sum_append, ← hs, map_singleton, sum_singleton]
    exact U64.ofNat?_eq_some.1 (okOr_ok.1 hf)
  returns {s ps p} hs _ hv := by
    rw [map_append, sum_append, ← hs, map_singleton, sum_singleton] at hv
    exact ⟨⟨_, hv⟩, okOr_ok.2 (U64.ofNat?_eq_some.2 rfl)⟩
  valid_of_inv {s ps} hs := hs ▸ s.upper
  relayed {s ps} hs := ⟨trivial, by rw [id, map_singleton, sum_singleton, hs]⟩
  view_eq hs ht h := U64.val_injective (hs.trans (h.trans ht.symm))

variable {X : Type} (checks : Bool) (targets : List (ℕ × U64))

abbrev foldCounts : List U64 → List U64 → Except Refusal (List U64) :=
  foldRow (fun _ => addCount) (fun got => .wrongQuantileCount got targets.length) targets

/-- The root adds the counts without a check. -/
abbrev foldCountsAtRoot : List U64 → List U64 → Except (Failure Refusal) (List U64) :=
  foldRow (fun _ => U64.add checks) (fun got => .refused (.wrongQuantileCount got targets.length))
    targets

/-- One count-below round through the relays. -/
def quantileRound (ts : List (RelayTree (ShardAnswers X))) :
    Except (Failure Refusal) (List U64) := do
  let rows ← (answers (foldCounts targets) (targets.map fun _ => U64.zero) (List.map id)
    (mapAll (fun a => targets.map a.countBelow) ts)).mapError .refused
  rows.foldlM (foldCountsAtRoot checks targets) (targets.map fun _ => U64.zero)

variable {targets} {ts : List (RelayTree (ShardAnswers X))}

lemma addCount_le {total c t : U64} (h : addCount total c = .ok t) :
    (U64.add checks total c : Except (Failure Refusal) U64) = .ok t := by
  have hval := U64.ofNat?_eq_some.1 (okOr_ok.1 h)
  have hlt := hval ▸ t.upper
  rw [U64.add, U64.exactly_of_lt hlt, ← hval, U64.wrap_val_self]

lemma column_counts {i : ℕ} {q : ℕ × U64} (hq : targets[i]? = some q)
    (as : List (ShardAnswers X)) :
    column i (as.map fun a => targets.map a.countBelow) = as.map fun a => a.countBelow q := by
  induction as with
  | nil => rfl
  | cons a as ih =>
    have hrow : (targets.map a.countBelow)[i]? = some (a.countBelow q) := by
      rw [getElem?_map, hq, Option.map_some]
    rw [map_cons, map_cons, ← ih, column, filterMap_cons, hrow]
    rfl

/-- **A round counts the same through relays**, when the counts of each target fit together. -/
theorem quantileRound_eq
    (hfits : ∀ q ∈ targets, ((leavesAll ts).map fun a => (a.countBelow q).val).sum < 2 ^ 64) :
    ∃ counts, counts.length = targets.length ∧ quantileRound checks targets ts = .ok counts ∧
      quantileRound checks targets (flat ts) = .ok counts := by
  let R := Relayable.rows (fun got => .wrongQuantileCount got targets.length) targets
    addCount.relayable
  have hsane (ts : List (RelayTree (List U64))) : ∀ row ∈ leavesAll ts, ∀ c ∈ row, True :=
    fun _ _ _ _ => trivial
  have hvalid : R.Valid (leavesAll (mapAll (fun a => targets.map a.countBelow) ts)) := by
    rw [leavesAll_mapAll]
    refine ⟨fun row hrow => ?_, fun i q hq => ?_⟩
    · obtain ⟨a, -, rfl⟩ := mem_map.1 hrow
      exact length_map _
    · rw [column_counts hq]
      show (((leavesAll ts).map fun a => a.countBelow q).map U64.val).sum < 2 ^ 64
      rw [map_map]
      exact hfits q (mem_of_getElem? hq)
  have hround {ts : List (RelayTree (ShardAnswers X))} {counts : List U64}
      (h : root (foldCounts targets) (targets.map fun _ => U64.zero) (List.map id)
        (mapAll (fun a => targets.map a.countBelow) ts) = .ok counts) :
      quantileRound checks targets ts = .ok counts := by
    obtain ⟨rows, hrows, hfold⟩ := bind_ok.1 h
    rw [quantileRound, hrows]
    exact foldlM_ok_mono (fun row _ st st' => foldRow_ok_mono fun _ _ _ _ => addCount_le checks) hfold
  obtain ⟨counts, hcnts⟩ := (R.root_returns_iff_valid (hsane _)).2 hvalid
  obtain ⟨counts', hcnts'⟩ := (R.root_returns_iff (hsane _)).1 ⟨counts, hcnts⟩
  have hsame : counts = counts' := by
    simpa only [map_id] using R.view_root_eq (hsane _) hcnts hcnts'
  obtain ⟨ps, hinv, -⟩ := R.root_inv (hsane _) hcnts
  rw [flat_mapAll] at hcnts'
  exact ⟨counts, hinv.1, hround hcnts, hsame ▸ hround hcnts'⟩

end

section

variable {X : Type} (M : Moments X) (checks : Bool) (aggs : List CompiledAggregation)
  (specs : List PercentileSpec) (ts : List (RelayTree (ShardAnswers X)))

/-- Fold one answer: its aggregation partials, then its percentile partials. -/
abbrev foldResponse : List (AggMerge X) × List PctMerge →
    List (AggregatePartial X) × List PercentilePartial →
      Except Refusal (List (AggMerge X) × List PctMerge) :=
  foldBoth (foldRow (fold M) (fun got => .wrongPartialCount got aggs.length) aggs)
    (foldRow (fun spec => PctMerge.fold spec.name)
      (fun got => .wrongPercentileCount got specs.length) specs)

def mergeResponses : Except Refusal (List (AggMerge X) × List PctMerge) :=
  root (foldResponse M aggs specs) (aggs.map fun _ => .new M, specs.map fun _ => .new)
    (Prod.map (List.map asPartial) (List.map PctMerge.asPartial))
    (mapAll ShardAnswers.response ts)

structure AggregateResponse (X : Type) where
  results : List (AggMerge X)
  percentiles : List PercentileResult

/-- The answer to a request, through the relays. -/
def aggregate : Except (Failure Refusal) (AggregateResponse X) := do
  let merged ← (mergeResponses M aggs specs ts).mapError .refused
  let percentiles ← solvePercentiles (fun targets => quantileRound checks targets ts) specs merged.2
  .ok ⟨merged.1, percentiles⟩

/-- The merge of the answers is relayable. -/
def responses :=
  (Relayable.rows (fun got => .wrongPartialCount got aggs.length) aggs (relayable M)).both
    (Relayable.rows (fun got => .wrongPercentileCount got specs.length) specs
      fun spec => PctMerge.relayable spec.name)

variable {M aggs specs ts}

open ShardAnswers

lemma present_column (i : ℕ) (as : List (ShardAnswers X)) :
    (PctSummary.ofList (column i (as.map ShardAnswers.percentilePartials))).present =
      (as.map (ShardAnswers.presentAt i)).sum := by
  induction as with
  | nil => rfl
  | cons a as ih =>
    rw [map_cons, map_cons, sum_cons, ← ih, presentAt, column, filterMap_cons]
    cases a.percentilePartials[i]? with
    | none => exact (Nat.zero_add _).symm
    | some p => rfl

section

variable (hsane : ∀ a ∈ leavesAll ts, a.Sane)

include hsane

lemma sane_response : ∀ p ∈ leavesAll (mapAll ShardAnswers.response ts),
      (∀ q ∈ p.1, AggregatePartial.Sane q) ∧ ∀ q ∈ p.2, True := by
  rw [leavesAll_mapAll]
  intro p hp
  obtain ⟨a, ha, rfl⟩ := mem_map.1 hp
  exact ⟨(hsane a ha).sums, fun _ _ => trivial⟩

section

variable {merged : List (AggMerge X) × List PctMerge}
  (h : mergeResponses M aggs specs ts = .ok merged)

include h

/-- Merged shards hold at most a 64-bit count of values of each expression. -/
lemma sum_presentAt_lt (i : ℕ) :
    ((leavesAll ts).map (ShardAnswers.presentAt i)).sum < 2 ^ 64 := by
  have hvalid :=
    ((responses M aggs specs).root_returns_iff_valid (sane_response hsane)).1 ⟨merged, h⟩
  obtain ⟨-, hlen, hcolumns⟩ := hvalid
  have hsnd : (leavesAll (mapAll response ts)).map Prod.snd =
      (leavesAll ts).map percentilePartials := by
    rw [leavesAll_mapAll, map_map]
    rfl
  rw [hsnd] at hlen hcolumns
  cases hspec : specs[i]? with
  | some spec =>
    have hpres := (hcolumns i spec hspec).present
    rwa [present_column] at hpres
  | none =>
    have hzero : (leavesAll ts).map (presentAt i) = (leavesAll ts).map fun _ => 0 := by
      refine map_congr_left fun a ha => ?_
      have hrow := hlen _ (mem_map_of_mem ha)
      have hi := hrow ▸ getElem?_eq_none_iff.1 hspec
      rw [presentAt, getElem?_eq_none hi, Option.elim_none]
    rw [hzero]
    simp

/-- The rounds of a merged request return the same counts through relays. -/
lemma quantileRound_eq_flat (targets : List (ℕ × U64)) :
    ∃ counts, quantileRound checks targets ts = .ok counts ∧
      quantileRound checks targets (flat ts) = .ok counts := by
  have hfits : ∀ q ∈ targets,
      ((leavesAll ts).map fun a => (a.countBelow q).val).sum < 2 ^ 64 := fun q _ =>
    (sum_le_sum fun a ha => (hsane a ha).counts q.1 q.2).trans_lt (sum_presentAt_lt hsane h q.1)
  obtain ⟨counts, -, hts, hflat⟩ := quantileRound_eq checks hfits
  exact ⟨counts, hts, hflat⟩

end

end

lemma solvePercentiles_returns {F : Type} {counts : List (ℕ × U64) → Except F (List U64)}
    (h : ∀ qs, ∃ cs, counts qs = .ok cs) (merged : List PctMerge) :
    ∃ r, solvePercentiles counts specs merged = .ok r := by
  obtain ⟨targets, htargets⟩ := solveRounds_returns h 64 (targetsOf specs merged)
  exact ⟨_, bind_ok.2 ⟨targets, htargets, rfl⟩⟩

/-- A request whose answers merge is answered, the same way with and without relays. -/
lemma aggregate_of_merged (hsane : ∀ a ∈ leavesAll ts, a.Sane)
    {merged flatMerged : List (AggMerge X) × List PctMerge}
    (h : mergeResponses M aggs specs ts = .ok merged)
    (hflat : mergeResponses M aggs specs (flat ts) = .ok flatMerged) :
    ∃ percentiles, aggregate M checks aggs specs ts = .ok ⟨merged.1, percentiles⟩ ∧
      aggregate M checks aggs specs (flat ts) = .ok ⟨flatMerged.1, percentiles⟩ ∧
        merged.1.map toExact = flatMerged.1.map toExact := by
  rw [mergeResponses, ← flat_mapAll] at hflat
  have hview := (responses M aggs specs).view_root_eq (sane_response hsane) h hflat
  obtain ⟨hexact, hpct⟩ := Prod.ext_iff.1 hview
  have hpct : merged.2 = flatMerged.2 := by simpa only [Prod.map_snd, map_id] using hpct
  have hcnts := quantileRound_eq_flat checks hsane h
  have hsame : (fun targets => quantileRound checks targets ts) =
      fun targets => quantileRound checks targets (flat ts) := funext fun targets => by
    obtain ⟨counts, hts, hflat⟩ := hcnts targets
    rw [hts, hflat]
  obtain ⟨percentiles, hsolve⟩ :=
    solvePercentiles_returns (fun targets => (hcnts targets).imp fun _ h => h.1) merged.2
  rw [flat_mapAll] at hflat
  refine ⟨percentiles, ?_, ?_, hexact⟩
  · rw [aggregate, h]
    exact bind_ok.2 ⟨merged, rfl, bind_ok.2 ⟨percentiles, hsolve, rfl⟩⟩
  · rw [aggregate, mergeResponses, hflat]
    rw [hsame, hpct] at hsolve
    exact bind_ok.2 ⟨flatMerged, rfl, bind_ok.2 ⟨percentiles, hsolve, rfl⟩⟩

lemma mergeResponses_returns_iff (hsane : ∀ a ∈ leavesAll ts, a.Sane) :
    (∃ merged, mergeResponses M aggs specs ts = .ok merged) ↔
      ∃ merged, mergeResponses M aggs specs (flat ts) = .ok merged := by
  have h := (responses M aggs specs).root_returns_iff (sane_response hsane)
  rwa [flat_mapAll] at h

lemma mergeResponses_of_aggregate {r : AggregateResponse X}
    (h : aggregate M checks aggs specs ts = .ok r) :
    ∃ merged, mergeResponses M aggs specs ts = .ok merged := by
  obtain ⟨merged, hmerged, -⟩ := bind_ok.1 h
  cases hm : mergeResponses M aggs specs ts with
  | error e =>
    rw [hm] at hmerged
    cases hmerged
  | ok merged => exact ⟨merged, rfl⟩

lemma mergeResponses_ne_intSumOverflows (hsane : ∀ a ∈ leavesAll ts, a.Sane) (name : String) :
    mergeResponses M aggs specs ts ≠ .error (.intSumOverflows name) := by
  intro h
  rcases refuses_of_both ((responses M aggs specs).refuses_of_root (sane_response hsane) h) with
    hagg | hpct
  · rcases refuses_of_rows hagg with ⟨n, hn⟩ | ⟨agg, hagg⟩
    · cases hn
    · exact not_refuses_intSumOverflows hagg
  · rcases refuses_of_rows hpct with ⟨n, hn⟩ | ⟨spec, hpct⟩
    · cases hn
    · exact PctMerge.not_refuses_intSumOverflows hpct

/-- **Relays do not change an answer.** When every shard's signed sums are bounded by its counts, a
request is answered through relays exactly when it is answered flat, the answers agree on everything
but the moments of doubles, and no signed accumulator overflows. -/
theorem aggregate_relays_eq_flat (M : Moments X) (checks : Bool) (aggs : List CompiledAggregation)
    (specs : List PercentileSpec) (ts : List (RelayTree (ShardAnswers X)))
    (hsane : ∀ a ∈ leavesAll ts, a.Sane) : ((∃ r, aggregate M checks aggs specs ts = .ok r) ↔
      ∃ r, aggregate M checks aggs specs (flat ts) = .ok r) ∧
    (∀ r r', aggregate M checks aggs specs ts = .ok r →
      aggregate M checks aggs specs (flat ts) = .ok r' →
        r.results.map toExact = r'.results.map toExact ∧
          r.percentiles = r'.percentiles) ∧
    ∀ name, aggregate M checks aggs specs ts ≠ .error (.refused (.intSumOverflows name)) := by
  have hboth : (∃ merged, mergeResponses M aggs specs ts = .ok merged) →
      ∃ r r', aggregate M checks aggs specs ts = .ok r ∧
        aggregate M checks aggs specs (flat ts) = .ok r' ∧
          r.results.map toExact = r'.results.map toExact ∧
            r.percentiles = r'.percentiles := by
    rintro ⟨merged, hmerged⟩
    obtain ⟨flatMerged, hflat⟩ := (mergeResponses_returns_iff hsane).1 ⟨merged, hmerged⟩
    obtain ⟨percentiles, hr, hr', hexact⟩ := aggregate_of_merged checks hsane hmerged hflat
    exact ⟨_, _, hr, hr', hexact, rfl⟩
  refine ⟨⟨?_, ?_⟩, ?_, ?_⟩
  · rintro ⟨r, hr⟩
    obtain ⟨-, r', -, hr', -⟩ := hboth (mergeResponses_of_aggregate checks hr)
    exact ⟨r', hr'⟩
  · rintro ⟨r', hr'⟩
    obtain ⟨r, -, hr, -⟩ :=
      hboth ((mergeResponses_returns_iff hsane).2 (mergeResponses_of_aggregate checks hr'))
    exact ⟨r, hr⟩
  · intro r r' hr hr'
    obtain ⟨q, q', hq, hq', hsame⟩ := hboth (mergeResponses_of_aggregate checks hr)
    obtain rfl := Except.ok.inj (hq.symm.trans hr)
    obtain rfl := Except.ok.inj (hq'.symm.trans hr')
    exact hsame
  · intro name h
    cases hm : mergeResponses M aggs specs ts with
    | ok merged =>
      obtain ⟨r, -, hr, -⟩ := hboth ⟨merged, hm⟩
      exact nomatch hr.symm.trans h
    | error e =>
      rw [aggregate, hm] at h
      obtain rfl := Failure.refused.inj (Except.error.inj h)
      exact mergeResponses_ne_intSumOverflows hsane name hm

end

/-- Nothing is kept of doubles. -/
def noMoments : Moments Unit := ⟨(), fun _ _ _ _ => ()⟩

def sumOfPrice : CompiledAggregation := ⟨"price", .sum, 0⟩

/-- A shard with two present integers of the given sum. -/
def intShard (sum : I128) : ShardAnswers Unit where
  partials := [asPartial { new noMoments with
    vt := some .int
    present := ⟨2, by norm_num⟩
    intSum := sum }]
  percentilePartials := []
  countBelow _ := U64.zero

/-- The second and third shard behind a relay. -/
def threeShards (a b c : I128) : List (RelayTree (ShardAnswers Unit)) :=
  [.shard (intShard a), .relay [.shard (intShard b), .shard (intShard c)]]

def wideMax : I128 := ⟨2 ^ 127 - 1, by norm_num, by norm_num⟩

def wideOne : I128 := ⟨1, by norm_num, by norm_num⟩

def wideNegOne : I128 := ⟨-1, by norm_num, by norm_num⟩

lemma sane_intShard {sum : I128} (h : sum.val.natAbs ≤ 2 * 2 ^ 63) : (intShard sum).Sane where
  sums := by
    intro p hp _ _
    obtain rfl := mem_singleton.1 hp
    show (I128.ofHalves sum.hi sum.lo).val.natAbs ≤ 2 * 2 ^ 63
    rwa [I128.ofHalves_halves]
  counts _ _ := Nat.zero_le _

theorem aggregate_relays_eq_flat_threeShards :
    (∃ r, aggregate noMoments true [sumOfPrice] [] (threeShards wideOne wideOne wideNegOne) = .ok r) ↔
      ∃ r, aggregate noMoments true [sumOfPrice] [] (flat (threeShards wideOne wideOne wideNegOne)) =
        .ok r := by
  refine (aggregate_relays_eq_flat noMoments true [sumOfPrice] []
    (threeShards wideOne wideOne wideNegOne) fun a ha => ?_).1
  simp only [threeShards, leavesAll, leaves, append_nil, singleton_append,
    mem_cons, not_mem_nil, or_false] at ha
  rcases ha with rfl | rfl | rfl
  · exact sane_intShard (by decide)
  · exact sane_intShard (by decide)
  · exact sane_intShard (by decide)

/-- Without the bound on the sums, a relay can cancel what overflows flat. -/
theorem not_aggregate_returns_iff_flat : ¬∀ ts : List (RelayTree (ShardAnswers Unit)),
      (∃ r, aggregate noMoments true [sumOfPrice] [] ts = .ok r) ↔
        ∃ r, aggregate noMoments true [sumOfPrice] [] (flat ts) = .ok r := by
  intro h
  have hrelayed : (aggregate noMoments true [sumOfPrice] []
      (threeShards wideMax wideOne wideNegOne)).isOk = true := by decide +kernel
  have hflat : (aggregate noMoments true [sumOfPrice] []
      (flat (threeShards wideMax wideOne wideNegOne))).isOk = false := by decide +kernel
  have hreturns : ∃ r, aggregate noMoments true [sumOfPrice] []
      (threeShards wideMax wideOne wideNegOne) = .ok r := by
    cases hr : aggregate noMoments true [sumOfPrice] [] (threeShards wideMax wideOne wideNegOne) with
    | ok r => exact ⟨r, rfl⟩
    | error e =>
      rw [hr] at hrelayed
      cases hrelayed
  obtain ⟨r, hr⟩ := (h _).1 hreturns
  rw [hr] at hflat
  cases hflat

end ProtomoltSearch.Aggregate
