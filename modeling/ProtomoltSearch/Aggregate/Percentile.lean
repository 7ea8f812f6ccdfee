import ProtomoltSearch.Aggregate.Summary

/-!
# Percentiles through relays

A percentile expression merges in two phases. First the partials fold (`PctMerge.fold`), which is
relayable (`PctMerge.relayable`). Then each requested percentile becomes a rank, and a binary search
over the order-preserving bits asks the shards in rounds how many values lie at or below a threshold
(`solvePercentiles`), 64 at most (`solveRounds`).
-/

namespace ProtomoltSearch.Aggregate

open Option Finset

/-- The exact values of a list of percentile partials. -/
@[ext]
structure PctSummary where
  typeless : Bool
  votes : Finset AggregateValueType
  present : ℕ
  unrankable : ℕ
  minBits : WithTop U64
  maxBits : WithBot U64

namespace PctSummary

def zero : PctSummary := ⟨false, ∅, 0, 0, ⊤, ⊥⟩

def join (u v : PctSummary) : PctSummary where
  typeless := u.typeless || v.typeless
  votes := u.votes ∪ v.votes
  present := u.present + v.present
  unrankable := u.unrankable + v.unrankable
  minBits := min u.minBits v.minBits
  maxBits := max u.maxBits v.maxBits

lemma join_assoc (u v w : PctSummary) : (u.join v).join w = u.join (v.join w) := by
  simp only [join, Bool.or_assoc, union_assoc, add_assoc, min_assoc, max_assoc]

@[simp] lemma zero_join (u : PctSummary) : zero.join u = u := by
  simp [join, zero, Bool.false_or, empty_union]

@[simp] lemma join_zero (u : PctSummary) : u.join zero = u := by
  simp [join, zero, Bool.or_false, union_empty]

/-- The values of a partial of a numeric type. -/
def typed (vt : AggregateValueType) (p : PercentilePartial) : PctSummary where
  typeless := false
  votes := {vt}
  present := p.present.val
  unrankable := p.unrankable.val
  minBits := if p.present.val = 0 then ⊤ else p.minBits
  maxBits := if p.present.val = 0 then ⊥ else p.maxBits

def ofPartial (p : PercentilePartial) : PctSummary :=
  match p.vtype with
  | some .absent => zero
  | some .int => typed .int p
  | some .uint => typed .uint p
  | some .double => typed .double p
  | _ => { zero with typeless := true }

def ofList (ps : List PercentilePartial) : PctSummary :=
  ps.foldr (fun p u => (ofPartial p).join u) zero

lemma ofList_append (ps qs : List PercentilePartial) :
    ofList (ps ++ qs) = (ofList ps).join (ofList qs) := by
  induction ps with
  | nil => exact (zero_join _).symm
  | cons p ps ih =>
    show (ofPartial p).join (ofList (ps ++ qs)) = _
    rw [ih, ← join_assoc]
    rfl

lemma ofList_singleton (p : PercentilePartial) : ofList [p] = ofPartial p := join_zero _

/-- What a merge can hold without a refusal. -/
structure Valid (u : PctSummary) : Prop where
  typeless : u.typeless = false
  votes : u.votes.card ≤ 1
  present : u.present < 2 ^ 64
  unrankable : u.unrankable < 2 ^ 64

lemma Valid.parts {u v : PctSummary} (h : (u.join v).Valid) : u.Valid ∧ v.Valid := by
  obtain ⟨htyp, hvotes, hpres, hunrank⟩ := h
  simp only [join] at htyp hvotes hpres hunrank
  rw [Bool.or_eq_false_iff] at htyp
  refine ⟨⟨htyp.1, ?_, by omega, by omega⟩, ⟨htyp.2, ?_, by omega, by omega⟩⟩
  · exact (card_le_card subset_union_left).trans hvotes
  · exact (card_le_card subset_union_right).trans hvotes

end PctSummary

/-- A type percentiles are answered for. -/
def AggregateValueType.Numeric (vt : AggregateValueType) : Prop :=
  vt = .int ∨ vt = .uint ∨ vt = .double

/-- The merge holds what the summary says. -/
structure PctHolds (s : PctMerge) (u : PctSummary) : Prop where
  typeless : u.typeless = false
  votes : u.votes = s.vt.toFinset
  numeric : ∀ vt, s.vt = some vt → vt.Numeric
  voted : s.vt = none → s.present.val = 0 ∧ s.unrankable.val = 0
  present : u.present = s.present.val
  unrankable : u.unrankable = s.unrankable.val
  extrema : ExtremaOf U64.zero (s.present.val ≠ 0) s.minBits s.maxBits u.minBits u.maxBits

namespace PctHolds

variable {name : String} {s t : PctMerge} {u : PctSummary} {p : PercentilePartial}
  {vt : AggregateValueType}

lemma new : PctHolds .new .zero where
  typeless := rfl
  votes := rfl
  numeric _ h := nomatch h
  voted _ := ⟨rfl, rfl⟩
  present := rfl
  unrankable := rfl
  extrema := ⟨fun h => absurd rfl h, fun _ => ⟨rfl, rfl, rfl, rfl⟩⟩

lemma valid (h : PctHolds s u) : u.Valid where
  typeless := h.typeless
  votes := by
    rw [h.votes]
    cases s.vt <;> simp
  present := by
    rw [h.present]
    exact s.present.upper
  unrankable := by
    rw [h.unrankable]
    exact s.unrankable.upper

lemma unique (h : PctHolds s u) (h' : PctHolds t u) : s = t := by
  have hvt : s.vt = t.vt := Option.ext fun vt => by
    rw [← Option.mem_def, ← Option.mem_def, ← Option.mem_toFinset, ← h.votes, h'.votes,
      Option.mem_toFinset]
  have hpres := U64.val_injective (h.present.symm.trans h'.present)
  have hunrank := U64.val_injective (h.unrankable.symm.trans h'.unrankable)
  obtain ⟨_, _⟩ := h.extrema.unique (h'.extrema.congr (by rw [hpres]))
  cases s
  cases t
  simp_all

open PctSummary

lemma partial_cases (name : String) (p : PercentilePartial) :
    (PctSummary.ofPartial p = .zero ∧ ∀ s, PctMerge.fold name s p = .ok s) ∨
      ((PctSummary.ofPartial p).typeless = true ∧
        ∀ s, PctMerge.fold name s p = .error .partialWithoutNumericType) ∨
      ∃ vt, vt.Numeric ∧ p.vtype = some vt ∧ PctSummary.ofPartial p = .typed vt p ∧
        ∀ s, PctMerge.fold name s p = PctMerge.fold.foldTyped name s p vt := by
  unfold PctMerge.fold ofPartial
  cases hp : p.vtype with
  | none => exact .inr (.inl ⟨rfl, fun _ => rfl⟩)
  | some vt =>
    cases vt with
    | absent => exact .inl ⟨rfl, fun _ => rfl⟩
    | unspecified | string | bool => exact .inr (.inl ⟨rfl, fun _ => rfl⟩)
    | int => exact .inr (.inr ⟨_, .inl rfl, rfl, rfl, fun _ => rfl⟩)
    | uint => exact .inr (.inr ⟨_, .inr (.inl rfl), rfl, rfl, fun _ => rfl⟩)
    | double => exact .inr (.inr ⟨_, .inr (.inr rfl), rfl, rfl, fun _ => rfl⟩)

section

variable (h : PctHolds s u)

include h

/-- Folding the counts of a partial of the voted type. -/
lemma foldCounts (hnumeric : vt.Numeric) (hagrees : s.vt = none ∨ s.vt = some vt)
    (hf : PctMerge.foldCounts name { s with vt := some vt } p = .ok t) :
    PctHolds t (u.join (.typed vt p)) := by
  obtain ⟨unrankable, hunrank, hf⟩ := bind_ok.1 hf
  have hunrank := U64.ofNat?_eq_some.1 (okOr_ok.1 hunrank)
  have hvotes : u.votes ∪ {vt} = {vt} := by
    rw [h.votes]
    rcases hagrees with hnone | hsome
    · rw [hnone, toFinset_none, empty_union]
    · rw [hsome, toFinset_some, union_self]
  have hnumeric' : ∀ ty, some vt = some ty → ty.Numeric := fun ty hty =>
    Option.some.inj hty ▸ hnumeric
  split at hf
  · rename_i hzero
    cases hf
    refine ⟨?_, hvotes, hnumeric', fun hnone => (nomatch hnone), ?_, ?_, ?_⟩
    · simp [PctSummary.join, PctSummary.typed, h.typeless]
    · simp [PctSummary.join, PctSummary.typed, h.present, hzero]
    · simp only [PctSummary.join, PctSummary.typed, h.unrankable, hunrank]
    · simp only [PctSummary.join, PctSummary.typed, if_pos hzero, min_top_right, max_bot_right]
      exact h.extrema
  · rename_i hheld
    obtain ⟨present, hpres, hf⟩ := bind_ok.1 hf
    have hpres := U64.ofNat?_eq_some.1 (okOr_ok.1 hpres)
    cases hf
    refine ⟨?_, hvotes, hnumeric', fun hnone => (nomatch hnone), ?_, ?_, ?_⟩
    · simp [PctSummary.join, PctSummary.typed, h.typeless]
    · simp only [PctSummary.join, PctSummary.typed, h.present, hpres]
    · simp only [PctSummary.join, PctSummary.typed, h.unrankable, hunrank]
    · simp only [PctSummary.join, PctSummary.typed, if_neg hheld]
      exact (h.extrema.fold Iff.rfl).congr (iff_of_true trivial (by simp only [hpres]; omega))

lemma fold (hf : PctMerge.fold name s p = .ok t) : PctHolds t (u.join (.ofPartial p)) := by
  rcases partial_cases name p with ⟨hzero, hsame⟩ | ⟨-, herr⟩ | ⟨vt, hnumeric, -, htyped, hfold⟩
  · rw [hsame] at hf
    cases hf
    rwa [hzero, join_zero]
  · rw [herr] at hf
    cases hf
  · rw [hfold] at hf
    obtain ⟨c, hc, hf⟩ := bind_ok.1 hf
    obtain ⟨hagrees, rfl⟩ := vote_ok.1 hc
    rw [htyped]
    exact h.foldCounts hnumeric hagrees hf

lemma fold_returns (hvalid : (u.join (.ofPartial p)).Valid) :
    ∃ t, PctMerge.fold name s p = .ok t := by
  rcases partial_cases name p with ⟨-, hsame⟩ | ⟨htyp, -⟩ | ⟨vt, -, -, htyped, hfold⟩
  · exact ⟨s, hsame s⟩
  · have := hvalid.typeless
    simp [PctSummary.join, htyp, Bool.or_true] at this
  · rw [htyped] at hvalid
    have hagrees : s.vt = none ∨ s.vt = some vt := by
      cases hvt : s.vt with
      | none => exact .inl rfl
      | some prev =>
        have hcard := hvalid.votes
        simp only [PctSummary.join, h.votes, hvt, toFinset_some, PctSummary.typed] at hcard
        rw [card_le_one] at hcard
        rw [hcard prev (by simp) vt (by simp)]
        exact .inr rfl
    have hunrank : s.unrankable.val + p.unrankable.val < 2 ^ 64 := h.unrankable ▸ hvalid.unrankable
    have hpres : s.present.val + p.present.val < 2 ^ 64 := h.present ▸ hvalid.present
    have hadd : s.unrankable.checkedAdd p.unrankable = some ⟨_, hunrank⟩ :=
      U64.ofNat?_eq_some.2 rfl
    have hadd' : s.present.checkedAdd p.present = some ⟨_, hpres⟩ := U64.ofNat?_eq_some.2 rfl
    rw [hfold, PctMerge.fold.foldTyped, vote_ok.2 ⟨hagrees, rfl⟩, ok_bind, PctMerge.foldCounts,
      hadd, okOr, ok_bind]
    split
    · exact ⟨_, rfl⟩
    · rw [hadd']
      exact ⟨_, rfl⟩

lemma ofPartial_asPartial : PctSummary.ofPartial s.asPartial = u := by
  have hextrema : (if s.present.val = 0 then ⊤ else (s.minBits : WithTop U64)) = u.minBits ∧
      (if s.present.val = 0 then ⊥ else (s.maxBits : WithBot U64)) = u.maxBits := by
    by_cases hz : s.present.val = 0
    · obtain ⟨-, -, hlo, hhi⟩ := h.extrema.of_not_live fun hne => hne hz
      rw [if_pos hz, if_pos hz, hlo, hhi]
      exact ⟨rfl, rfl⟩
    · obtain ⟨hlo, hhi⟩ := h.extrema.of_live hz
      rw [if_neg hz, if_neg hz, hlo, hhi]
      exact ⟨rfl, rfl⟩
  cases hvt : s.vt with
  | none =>
    obtain ⟨hz, hu⟩ := h.voted hvt
    rw [if_pos hz, if_pos hz] at hextrema
    have hp : s.asPartial.vtype = some .absent := by rw [PctMerge.asPartial, hvt, getD_none]
    rw [PctSummary.ofPartial, hp]
    refine PctSummary.ext h.typeless.symm ?_ (h.present.trans hz).symm (h.unrankable.trans hu).symm
      hextrema.1 hextrema.2
    rw [h.votes, hvt]
    rfl
  | some vt =>
    have hp : s.asPartial.vtype = some vt := by rw [PctMerge.asPartial, hvt, getD_some]
    have htyped : ofPartial s.asPartial = .typed vt s.asPartial := by
      rw [ofPartial, hp]
      rcases h.numeric vt hvt with rfl | rfl | rfl <;> rfl
    rw [htyped]
    refine PctSummary.ext h.typeless.symm ?_ h.present.symm h.unrankable.symm hextrema.1 hextrema.2
    rw [h.votes, hvt]
    rfl

end

end PctHolds

/-- **A merge of percentile partials is relayable.** -/
def PctMerge.relayable (name : String) :
    Relayable (PctMerge.fold name) PctMerge.new PctMerge.asPartial (fun _ => True) id where
  Same ps qs := PctSummary.ofList ps = PctSummary.ofList qs
  Valid ps := (PctSummary.ofList ps).Valid
  Inv s ps := PctHolds s (PctSummary.ofList ps)
  same_refl _ := rfl
  same_symm h := h.symm
  same_trans h h' := h.trans h'
  same_append h h' := by rw [PctSummary.ofList_append, PctSummary.ofList_append, h, h']
  valid_of_same h hv := h ▸ hv
  valid_append h := by
    rw [PctSummary.ofList_append] at h
    exact h.parts
  inv_init := PctHolds.new
  inv_step hs _ hf := by
    rw [PctSummary.ofList_append, PctSummary.ofList_singleton]
    exact hs.fold hf
  returns hs _ hv := by
    rw [PctSummary.ofList_append, PctSummary.ofList_singleton] at hv
    exact hs.fold_returns hv
  valid_of_inv hs := hs.valid
  relayed hs := ⟨trivial, by rw [PctSummary.ofList_singleton, hs.ofPartial_asPartial]⟩
  view_eq hs ht h := hs.unique (h ▸ ht)

lemma PctMerge.not_refuses_intSumOverflows {name name' : String} :
    ¬(PctMerge.relayable name).Refuses (.intSumOverflows name') := by
  rintro ⟨s, ps, p, -, -, hf⟩
  rcases PctHolds.partial_cases name p with ⟨-, hsame⟩ | ⟨-, herr⟩ | ⟨vt, -, -, -, hfold⟩
  · rw [hsame] at hf
    cases hf
  · rw [herr] at hf
    cases hf
  · rw [hfold] at hf
    rcases bind_eq_error.1 hf with hc | ⟨c, -, hf⟩
    · exact absurd hc (vote_ne_intSumOverflows fun _ _ => Refusal.noConfusion)
    rcases bind_eq_error.1 hf with hu | ⟨u, -, hf⟩
    · exact nomatch (okOr_eq_error.1 hu).2
    split at hf
    · cases hf
    · rcases bind_eq_error.1 hf with hn | ⟨n, -, hf⟩
      · exact nomatch (okOr_eq_error.1 hn).2
      · cases hf

/-- A percentile between 0 and 100, by the bits of the double, the negative zero included. -/
structure Percentile where
  bits : U64
  inRange : bits.val ≤ 0x4059000000000000 ∨ bits.val = 2 ^ 63

/-- The nearest rank: the percentile's share of the count, rounded up. -/
def nearestPercentileRank (p : Percentile) (count : U64) : U64 :=
  if count.val = 0 then U64.zero
  else
    let exponent := p.bits.val / 2 ^ 52 % 2 ^ 11
    let fraction := p.bits.val % 2 ^ 52
    let mantissa := if exponent = 0 then fraction else fraction + 2 ^ 52
    let shift := if exponent = 0 then 1074 else 1075 - exponent
    -- the numerator has at most 117 bits, so a larger denominator leaves a rank below one
    if 121 < shift then U64.wrap 1
    else
      let numerator := mantissa * count.val
      let denominator := 100 * 2 ^ shift
      U64.wrap (min count.val (max 1 ((numerator + (denominator - 1)) / denominator % 2 ^ 64)))

/-- The window of a percentile, the least bits value with at least `k` values at or below it. -/
structure Target where
  spec : ℕ
  pctIndex : ℕ
  k : U64
  lo : U64
  hi : U64

namespace Target

def isOpen (t : Target) : Bool := t.lo < t.hi

/-- The middle of the window. -/
def probe (t : Target) : U64 :=
  ⟨t.lo.val + (t.hi.val - t.lo.val) / 2, by
    have := t.lo.upper
    have := t.hi.upper
    omega⟩

/-- Keep the half that holds the answer. -/
def narrow (t : Target) (count : U64) : Target :=
  if t.k ≤ count then { t with hi := t.probe } else { t with lo := U64.wrap (t.probe.val + 1) }

end Target

section

variable {F : Type} (counts : List (ℕ × U64) → Except F (List U64))

def narrowOpen : List Target → List U64 → List Target
  | [], _ => []
  | t :: ts, cs =>
    if t.isOpen then
      match cs with
      | [] => t :: ts
      | c :: cs => t.narrow c :: narrowOpen ts cs
    else t :: narrowOpen ts cs

/-- One round: count below the middle of every open window. -/
def solveRound (targets : List Target) : Except F (List Target) := do
  let cs ← counts ((targets.filter Target.isOpen).map fun t => (t.spec, t.probe))
  .ok (narrowOpen targets cs)

def solveRounds : ℕ → List Target → Except F (List Target)
  | 0, targets => .ok targets
  | n + 1, targets =>
    if targets.any Target.isOpen then do
      let targets ← solveRound counts targets
      solveRounds n targets
    else .ok targets

variable {counts}

lemma solveRounds_returns (hcnts : ∀ qs, ∃ cs, counts qs = .ok cs) (n : ℕ) (ts : List Target) :
    ∃ ts', solveRounds counts n ts = .ok ts' := by
  induction n generalizing ts with
  | zero => exact ⟨ts, rfl⟩
  | succ n ih =>
    rw [solveRounds]
    split
    · obtain ⟨cs, hcs⟩ := hcnts ((ts.filter Target.isOpen).map fun t => (t.spec, t.probe))
      rw [solveRound, hcs]
      exact ih _
    · exact ⟨ts, rfl⟩

end

structure PercentileSpec where
  name : String
  percentiles : List Percentile

/-- A percentile's value, in the type of the expression; a double by its order-preserving bits. -/
inductive OrderStatistic where
  | intValue (x : I64)
  | uintValue (x : U64)
  | doubleValue (orderBits : U64)
  deriving DecidableEq

structure PercentileValue where
  percentile : Percentile
  rank : U64
  value : Option OrderStatistic

structure PercentileResult where
  name : String
  present : U64
  unrankable : U64
  values : List PercentileValue

/-- `(bits ^ (1 << 63)) as i64`. -/
def i64FromOrderBits (bits : U64) : I64 :=
  ⟨bits.val - 2 ^ 63, by omega, by have := bits.upper; omega⟩

def orderStatistic (vt : Option AggregateValueType) (bits : U64) : OrderStatistic :=
  if vt = some .int then .intValue (i64FromOrderBits bits)
  else if vt = some .uint then .uintValue bits
  else .doubleValue bits

/-- The windows of the requested percentiles; an expression without values has none. -/
def targetsOf (specs : List PercentileSpec) (merged : List PctMerge) : List Target :=
  (specs.zip merged).zipIdx.flatMap fun ((spec, m), si) =>
    if m.present.val = 0 then []
    else spec.percentiles.zipIdx.map fun (p, pi) =>
      ⟨si, pi, nearestPercentileRank p m.present, m.minBits, m.maxBits⟩

def percentileValue (targets : List Target) (vt : Option AggregateValueType) (si : ℕ)
    (p : Percentile × ℕ) : PercentileValue :=
  match targets.find? fun t => t.spec = si ∧ t.pctIndex = p.2 with
  | none => ⟨p.1, U64.zero, none⟩
  | some t => ⟨p.1, t.k, some (orderStatistic vt t.lo)⟩

def percentileResults (specs : List PercentileSpec) (merged : List PctMerge)
    (targets : List Target) : List PercentileResult :=
  (specs.zip merged).zipIdx.map fun ((spec, m), si) =>
    ⟨spec.name, m.present, m.unrankable,
      spec.percentiles.zipIdx.map (percentileValue targets m.vt si)⟩

/-- The exact percentiles of merged expressions, by at most 64 count-below rounds. -/
def solvePercentiles {F : Type} (counts : List (ℕ × U64) → Except F (List U64))
    (specs : List PercentileSpec) (merged : List PctMerge) : Except F (List PercentileResult) := do
  let targets ← solveRounds counts 64 (targetsOf specs merged)
  .ok (percentileResults specs merged targets)

end ProtomoltSearch.Aggregate
