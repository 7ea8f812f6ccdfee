import ProtomoltSearch.Aggregate.Merge
import ProtomoltSearch.Foundations.Relay

/-!
# What a merge of aggregation partials holds

A list of partials is summarized by exact, unbounded values (`Summary`): the votes cast, the count
of present values, the sums, the extrema and the distinct values. Summaries join, whatever the
grouping. A merge holds the summary of what was folded into it (`Holds`), so folding through relays
is folding flat (`AggMerge.relayable`).
-/

namespace ProtomoltSearch.Aggregate

open Option Finset

/-- A shard that held values of the type sums at most `2 ^ 63` a value. -/
def AggregatePartial.Sane {X : Type} (p : AggregatePartial X) : Prop :=
  p.vtype = some .int → p.present.val ≠ 0 → p.intSum.val.natAbs ≤ p.present.val * 2 ^ 63

namespace Distinct

lemma union_assoc (d e f : Distinct) : (d.union e).union f = d.union (e.union f) := by
  simp only [union, Finset.union_assoc]

@[simp] lemma union_empty (d : Distinct) : d.union empty = d := by
  simp only [union, empty, Finset.union_empty]

@[simp] lemma empty_union (d : Distinct) : empty.union d = d := by
  simp only [union, empty, Finset.empty_union]

lemma len_le_union_left (d e : Distinct) : d.len ≤ (d.union e).len := by
  have h₁ : d.ints.card ≤ (d.ints ∪ e.ints).card := card_le_card subset_union_left
  have h₂ : d.uints.card ≤ (d.uints ∪ e.uints).card := card_le_card subset_union_left
  have h₃ : d.doubles.card ≤ (d.doubles ∪ e.doubles).card := card_le_card subset_union_left
  have h₄ : d.strings.card ≤ (d.strings ∪ e.strings).card := card_le_card subset_union_left
  have h₅ : d.bools.card ≤ (d.bools ∪ e.bools).card := card_le_card subset_union_left
  simp only [len, union]
  omega

lemma union_comm (d e : Distinct) : d.union e = e.union d := by
  simp only [union, Finset.union_comm]

lemma len_le_union_right (d e : Distinct) : e.len ≤ (d.union e).len := by
  rw [union_comm]
  exact len_le_union_left e d

end Distinct

/-- The exact values of a list of partials. -/
@[ext]
structure Summary where
  typeless : Bool
  votes : Finset AggregateValueType
  present : ℕ
  intSum : ℤ
  intMin : WithTop I64
  intMax : WithBot I64
  uintSum : ℕ
  uintMin : WithTop U64
  uintMax : WithBot U64
  distinct : Distinct

namespace Summary

/-- Nothing folded. -/
def zero : Summary := ⟨false, ∅, 0, 0, ⊤, ⊥, 0, ⊤, ⊥, .empty⟩

def join (u v : Summary) : Summary where
  typeless := u.typeless || v.typeless
  votes := u.votes ∪ v.votes
  present := u.present + v.present
  intSum := u.intSum + v.intSum
  intMin := min u.intMin v.intMin
  intMax := max u.intMax v.intMax
  uintSum := u.uintSum + v.uintSum
  uintMin := min u.uintMin v.uintMin
  uintMax := max u.uintMax v.uintMax
  distinct := u.distinct.union v.distinct

lemma join_assoc (u v w : Summary) : (u.join v).join w = u.join (v.join w) := by
  simp only [join, Bool.or_assoc, union_assoc, add_assoc, min_assoc, max_assoc,
    Distinct.union_assoc]

@[simp] lemma zero_join (u : Summary) : zero.join u = u := by
  simp [join, zero, Bool.false_or, empty_union, Distinct.empty_union]

@[simp] lemma join_zero (u : Summary) : u.join zero = u := by
  simp [join, zero, Bool.or_false, union_empty, Distinct.union_empty]

def voted (vt : AggregateValueType) : Summary := { zero with votes := {vt} }

def held {X : Type} (agg : CompiledAggregation) (vt : AggregateValueType) (p : AggregatePartial X) :
    Summary where
  typeless := false
  votes := ∅
  present := p.present.val
  intSum := if vt = .int then p.intSum.val else 0
  intMin := if vt = .int then p.intMin else ⊤
  intMax := if vt = .int then p.intMax else ⊥
  uintSum := if vt = .uint then p.uintSum.val else 0
  uintMin := if vt = .uint then p.uintMin else ⊤
  uintMax := if vt = .uint then p.uintMax else ⊥
  distinct := if agg.op = .cardinality then p.distinct else .empty

def ofPartial {X : Type} (agg : CompiledAggregation) (p : AggregatePartial X) : Summary :=
  match p.vtype with
  | some .absent => zero
  | some .unspecified | none => { zero with typeless := true }
  | some vt => (voted vt).join (if p.present.val = 0 then zero else held agg vt p)

def ofList {X : Type} (agg : CompiledAggregation) (ps : List (AggregatePartial X)) : Summary :=
  ps.foldr (fun p u => (ofPartial agg p).join u) zero

lemma ofList_append {X : Type} (agg : CompiledAggregation) (ps qs : List (AggregatePartial X)) :
    ofList agg (ps ++ qs) = (ofList agg ps).join (ofList agg qs) := by
  induction ps with
  | nil => exact (zero_join _).symm
  | cons p ps ih =>
    show (ofPartial agg p).join (ofList agg (ps ++ qs)) = _
    rw [ih, ← join_assoc]
    rfl

lemma ofList_singleton {X : Type} (agg : CompiledAggregation) (p : AggregatePartial X) :
    ofList agg [p] = ofPartial agg p := join_zero _

/-- What a merge can hold without a refusal. The signed sum is bounded by the count. -/
structure Valid (agg : CompiledAggregation) (u : Summary) : Prop where
  typeless : u.typeless = false
  votes : u.votes.card ≤ 1
  present : u.present < 2 ^ 64
  uintSum : u.uintSum < 2 ^ 128
  distinct : u.distinct.len ≤ agg.maxDistinct

lemma Valid.parts {agg : CompiledAggregation} {u v : Summary} (h : (u.join v).Valid agg) :
    u.Valid agg ∧ v.Valid agg := by
  obtain ⟨htyp, hvotes, hpres, huint, hdist⟩ := h
  simp only [join] at htyp hvotes hpres huint hdist
  rw [Bool.or_eq_false_iff] at htyp
  refine ⟨⟨htyp.1, ?_, by omega, by omega, ?_⟩, ⟨htyp.2, ?_, by omega, by omega, ?_⟩⟩
  · exact (card_le_card subset_union_left).trans hvotes
  · exact (Distinct.len_le_union_left _ _).trans hdist
  · exact (card_le_card subset_union_right).trans hvotes
  · exact (Distinct.len_le_union_right _ _).trans hdist

end Summary

/-! ## What a fold does -/

variable {disagree : AggregateValueType → AggregateValueType → Refusal} {vt : AggregateValueType}

lemma vote_ok {cast c : Option AggregateValueType} :
    vote disagree cast vt = .ok c ↔ (cast = none ∨ cast = some vt) ∧ c = some vt := by
  unfold vote
  cases cast with
  | none => simp [eq_comm]
  | some prev =>
    by_cases hne : prev = vt
    · simp [hne, eq_comm]
    · simp [hne]

namespace AggMerge

variable {X : Type} {M : Moments X} {agg : CompiledAggregation} {s t : AggMerge X}
  {p : AggregatePartial X} {vt : AggregateValueType} {name : String}

/-- The signed values of a merge after folding those of a partial. -/
def AddsInts (s t : Exact) (p : AggregatePartial X) : Prop :=
  t.intSum.val = s.intSum.val + p.intSum.val ∧ t.intMin = leastSoFar s.present s.intMin p.intMin ∧
    t.intMax = greatestSoFar s.present s.intMax p.intMax

def AddsUints (s t : Exact) (p : AggregatePartial X) : Prop :=
  t.uintSum.val = s.uintSum.val + p.uintSum.val ∧
    t.uintMin = leastSoFar s.present s.uintMin p.uintMin ∧
      t.uintMax = greatestSoFar s.present s.uintMax p.uintMax

def SameInts (s t : Exact) : Prop := t.intSum = s.intSum ∧ t.intMin = s.intMin ∧ t.intMax = s.intMax

def SameUints (s t : Exact) : Prop :=
  t.uintSum = s.uintSum ∧ t.uintMin = s.uintMin ∧ t.uintMax = s.uintMax

lemma foldValues_ok (h : foldValues M name s vt p = .ok t) :
    t.vt = s.vt ∧ t.present = s.present ∧ t.distinct = s.distinct ∧
      (if vt = .int then AddsInts s.toExact t.toExact p else SameInts s.toExact t.toExact) ∧
        if vt = .uint then AddsUints s.toExact t.toExact p else SameUints s.toExact t.toExact := by
  cases vt with
  | int =>
    obtain ⟨sum, hsum, h⟩ := bind_ok.1 h
    cases h
    exact ⟨rfl, rfl, rfl, ⟨I128.ofInt?_eq_some.1 (okOr_ok.1 hsum), rfl, rfl⟩, rfl, rfl, rfl⟩
  | uint =>
    obtain ⟨sum, hsum, h⟩ := bind_ok.1 h
    cases h
    exact ⟨rfl, rfl, rfl, ⟨rfl, rfl, rfl⟩, U128.ofNat?_eq_some.1 (okOr_ok.1 hsum), rfl, rfl⟩
  | double | string | bool | absent | unspecified =>
    cases h
    exact ⟨rfl, rfl, rfl, ⟨rfl, rfl, rfl⟩, rfl, rfl, rfl⟩

lemma foldValues_returns (hint : vt = .int → ∃ z, s.intSum.checkedAdd p.intSum = some z)
    (huint : vt = .uint → s.uintSum.val + p.uintSum.val < 2 ^ 128) :
    ∃ t, foldValues M name s vt p = .ok t := by
  cases vt with
  | int =>
    obtain ⟨z, hz⟩ := hint rfl
    exact ⟨_, bind_ok.2 ⟨z, okOr_ok.2 hz, rfl⟩⟩
  | uint =>
    have hz : s.uintSum.checkedAdd p.uintSum = some ⟨_, huint rfl⟩ := U128.ofNat?_eq_some.2 rfl
    exact ⟨_, bind_ok.2 ⟨_, okOr_ok.2 hz, rfl⟩⟩
  | double | string | bool | absent | unspecified => exact ⟨_, rfl⟩

def counted (agg : CompiledAggregation) (p : AggregatePartial X) : Distinct :=
  if agg.op = .cardinality then p.distinct else .empty

lemma foldDistinct_ok (hlen : s.distinct.len ≤ agg.maxDistinct) :
    foldDistinct agg s p = .ok t ↔ t = { s with distinct := s.distinct.union (counted agg p) } ∧
      t.distinct.len ≤ agg.maxDistinct := by
  unfold foldDistinct counted
  split
  · split
    · rename_i hlt
      refine iff_of_false (fun h => nomatch h) ?_
      rintro ⟨rfl, hle⟩
      exact absurd hle (not_le.2 hlt)
    · rename_i hle
      rw [Except.ok.injEq, eq_comm]
      exact ⟨fun h => ⟨h, h ▸ not_lt.1 hle⟩, And.left⟩
  · rw [Except.ok.injEq, Distinct.union_empty, eq_comm]
    exact ⟨fun h => ⟨h, h ▸ hlen⟩, And.left⟩

lemma foldHeld_ok (hlen : s.distinct.len ≤ agg.maxDistinct)
    (h : foldHeld M agg s vt p = .ok t) : t.vt = s.vt ∧
    t.present.val = s.present.val + p.present.val ∧ t.distinct = s.distinct.union (counted agg p) ∧
    t.distinct.len ≤ agg.maxDistinct ∧
    (if vt = .int then AddsInts s.toExact t.toExact p else SameInts s.toExact t.toExact) ∧
    if vt = .uint then AddsUints s.toExact t.toExact p else SameUints s.toExact t.toExact := by
  obtain ⟨present, hpres, s', hs', h⟩ := bind₂_ok.1 h
  obtain ⟨hvt, -, hdist, hints, huints⟩ := foldValues_ok hs'
  rw [foldDistinct_ok (by exact hdist ▸ hlen)] at h
  obtain ⟨rfl, hle⟩ := h
  exact ⟨hvt, U64.ofNat?_eq_some.1 (okOr_ok.1 hpres), by rw [← hdist], hle, hints, huints⟩

lemma foldHeld_returns (hpres : s.present.val + p.present.val < 2 ^ 64)
    (hint : vt = .int → ∃ z, s.intSum.checkedAdd p.intSum = some z)
    (huint : vt = .uint → s.uintSum.val + p.uintSum.val < 2 ^ 128)
    (hdist : (s.distinct.union (counted agg p)).len ≤ agg.maxDistinct) :
    ∃ t, foldHeld M agg s vt p = .ok t := by
  have hsum : s.present.checkedAdd p.present = some ⟨_, hpres⟩ := U64.ofNat?_eq_some.2 rfl
  obtain ⟨s', hs'⟩ := foldValues_returns hint huint
  obtain ⟨-, -, hsame, -⟩ := foldValues_ok hs'
  rw [← hsame] at hdist
  have hlen := (Distinct.len_le_union_left _ _).trans hdist
  have hlast := (foldDistinct_ok (s := { s' with present := ⟨_, hpres⟩ }) (p := p) hlen).2
    ⟨rfl, hdist⟩
  exact ⟨_, bind_ok.2 ⟨_, okOr_ok.2 hsum, bind_ok.2 ⟨s', hs', hlast⟩⟩⟩

end AggMerge

/-! ## A merge holds a summary -/

/-- The merge has values of the type. -/
def Exact.Live (s : Exact) (vt : AggregateValueType) : Prop := s.vt = some vt ∧ s.present.val ≠ 0

def Exact.summary (s : Exact) : Summary where
  typeless := false
  votes := s.vt.toFinset
  present := s.present.val
  intSum := s.intSum.val
  intMin := if s.vt = some .int ∧ s.present.val ≠ 0 then s.intMin else ⊤
  intMax := if s.vt = some .int ∧ s.present.val ≠ 0 then s.intMax else ⊥
  uintSum := s.uintSum.val
  uintMin := if s.vt = some .uint ∧ s.present.val ≠ 0 then s.uintMin else ⊤
  uintMax := if s.vt = some .uint ∧ s.present.val ≠ 0 then s.uintMax else ⊥
  distinct := s.distinct

/-- The extrema kept are the summary's when there are values, and zero when there are none. -/
structure ExtremaOf {α : Type} [LinearOrder α] (zero : α) (live : Prop) (least greatest : α)
    (lo : WithTop α) (hi : WithBot α) : Prop where
  of_live : live → lo = least ∧ hi = greatest
  of_not_live : ¬live → least = zero ∧ greatest = zero ∧ lo = ⊤ ∧ hi = ⊥

namespace ExtremaOf

variable {α : Type} [LinearOrder α] {zero least greatest x y : α} {live live' : Prop}
  {lo : WithTop α} {hi : WithBot α}

section

variable (h : ExtremaOf zero live least greatest lo hi)

include h

lemma congr (hlive : live ↔ live') : ExtremaOf zero live' least greatest lo hi := by
  rwa [← propext hlive]

/-- Folding values of the type. -/
lemma fold {present : U64} (hlive : live ↔ present.val ≠ 0) :
    ExtremaOf zero True (leastSoFar present least x) (greatestSoFar present greatest y)
      (min lo x) (max hi y) := by
  refine ⟨fun _ => ?_, fun h => absurd trivial h⟩
  by_cases hp : present.val = 0
  · obtain ⟨-, -, rfl, rfl⟩ := h.of_not_live fun hl => hlive.1 hl hp
    rw [leastSoFar, greatestSoFar, if_pos hp, if_pos hp]
    exact ⟨rfl, rfl⟩
  · obtain ⟨rfl, rfl⟩ := h.of_live (hlive.2 hp)
    rw [leastSoFar, greatestSoFar, if_neg hp, if_neg hp]
    exact ⟨rfl, rfl⟩

/-- The extrema kept are determined by the summary's. -/
lemma unique {least' greatest' : α}
    (h' : ExtremaOf zero live least' greatest' lo hi) : least = least' ∧ greatest = greatest' := by
  by_cases hl : live
  · obtain ⟨h₁, h₂⟩ := h.of_live hl
    obtain ⟨h₃, h₄⟩ := h'.of_live hl
    exact ⟨WithTop.coe_injective (h₁.symm.trans h₃), WithBot.coe_injective (h₂.symm.trans h₄)⟩
  · obtain ⟨rfl, rfl, -, -⟩ := h.of_not_live hl
    obtain ⟨rfl, rfl, -, -⟩ := h'.of_not_live hl
    exact ⟨rfl, rfl⟩

end

end ExtremaOf

def AggregateValueType.Proper (vt : AggregateValueType) : Prop := vt ≠ .absent ∧ vt ≠ .unspecified

/-- The merge holds what the summary says. -/
structure Holds (agg : CompiledAggregation) (s : Exact) (u : Summary) : Prop where
  typeless : u.typeless = false
  votes : u.votes = s.vt.toFinset
  proper : ∀ vt, s.vt = some vt → vt.Proper
  present : u.present = s.present.val
  voted : s.vt = none → s.present.val = 0
  intSum : u.intSum = s.intSum.val
  intBound : s.intSum.val.natAbs ≤ s.present.val * 2 ^ 63
  intLive : ¬s.Live .int → s.intSum.val = 0
  intExtrema : ExtremaOf I64.zero (s.Live .int) s.intMin s.intMax u.intMin u.intMax
  uintSum : u.uintSum = s.uintSum.val
  uintLive : ¬s.Live .uint → s.uintSum.val = 0
  uintExtrema : ExtremaOf U64.zero (s.Live .uint) s.uintMin s.uintMax u.uintMin u.uintMax
  distinct : u.distinct = s.distinct
  distinctEmpty : agg.op ≠ .cardinality ∨ s.present.val = 0 → s.distinct = .empty
  distinctLen : s.distinct.len ≤ agg.maxDistinct

namespace Holds

variable {X : Type} {M : Moments X} {agg : CompiledAggregation} {s : Exact} {u : Summary}

lemma new : Holds agg Exact.new .zero where
  typeless := rfl
  votes := rfl
  proper _ h := nomatch h
  present := rfl
  voted _ := rfl
  intSum := rfl
  intBound := by decide
  intLive _ := rfl
  intExtrema := ⟨fun h => absurd rfl h.2, fun _ => ⟨rfl, rfl, rfl, rfl⟩⟩
  uintSum := rfl
  uintLive _ := rfl
  uintExtrema := ⟨fun h => absurd rfl h.2, fun _ => ⟨rfl, rfl, rfl, rfl⟩⟩
  distinct := rfl
  distinctEmpty _ := rfl
  distinctLen := Nat.zero_le _

lemma valid (h : Holds agg s u) : u.Valid agg where
  typeless := h.typeless
  votes := by
    rw [h.votes]
    cases s.vt <;> simp
  present := by
    rw [h.present]
    exact s.present.upper
  uintSum := by
    rw [h.uintSum]
    exact s.uintSum.upper
  distinct := by
    rw [h.distinct]
    exact h.distinctLen

/-- The merge is determined by what it holds. -/
lemma unique {t : Exact} (h : Holds agg s u) (h' : Holds agg t u) : s = t := by
  have hvt : s.vt = t.vt := Option.ext fun vt => by
    rw [← Option.mem_def, ← Option.mem_def, ← Option.mem_toFinset, ← h.votes, h'.votes,
      Option.mem_toFinset]
  have hpres := U64.val_injective (h.present.symm.trans h'.present)
  have hlive (vt) : s.Live vt ↔ t.Live vt := by rw [Exact.Live, Exact.Live, hvt, hpres]
  obtain ⟨_, _⟩ := h.intExtrema.unique (h'.intExtrema.congr (hlive _).symm)
  obtain ⟨_, _⟩ := h.uintExtrema.unique (h'.uintExtrema.congr (hlive _).symm)
  have hsum := I128.val_injective (h.intSum.symm.trans h'.intSum)
  have husum := U128.val_injective (h.uintSum.symm.trans h'.uintSum)
  have hdist := h.distinct.symm.trans h'.distinct
  cases s
  cases t
  simp_all

def Agrees (s : Exact) (vt : AggregateValueType) : Prop := s.vt = none ∨ s.vt = some vt

lemma live_of_agrees (h : Holds agg s u) {vt t : AggregateValueType} (hagrees : Agrees s vt) :
    Exact.Live { s with vt := some vt } t ↔ s.Live t := by
  simp only [Exact.Live]
  rcases hagrees with hnone | hsome
  · have h0 := h.voted hnone
    exact ⟨fun hl => absurd h0 hl.2, fun hl => absurd h0 hl.2⟩
  · rw [hsome]

variable {vt : AggregateValueType} {p : AggregatePartial X}

open Summary

lemma vote (h : Holds agg s u) (hproper : vt.Proper)
    (hagrees : Agrees s vt) : Holds agg { s with vt := some vt } (u.join (.voted vt)) := by
  have hlive (t) := h.live_of_agrees (t := t) hagrees
  constructor
  case typeless => simp [Summary.join, Summary.voted, Summary.zero, h.typeless]
  case votes =>
    simp only [Summary.join, Summary.voted, h.votes, toFinset_some]
    rcases hagrees with hnone | hsome
    · rw [hnone, toFinset_none, empty_union]
    · rw [hsome, toFinset_some, union_self]
  case proper =>
    intro t ht
    obtain rfl := some.inj ht
    exact hproper
  case present => exact h.present
  case voted => exact fun hnone => nomatch hnone
  case intSum => exact (add_zero _).trans h.intSum
  case intBound => exact h.intBound
  case intLive => exact fun hl => h.intLive fun hl' => hl ((hlive _).2 hl')
  case intExtrema =>
    simp only [Summary.join, Summary.voted, Summary.zero, min_top_right, max_bot_right]
    exact h.intExtrema.congr (hlive _).symm
  case uintSum => exact h.uintSum
  case uintLive => exact fun hl => h.uintLive fun hl' => hl ((hlive _).2 hl')
  case uintExtrema =>
    simp only [Summary.join, Summary.voted, Summary.zero, min_top_right, max_bot_right]
    exact h.uintExtrema.congr (hlive _).symm
  case distinct => exact (Distinct.union_empty _).trans h.distinct
  case distinctEmpty => exact h.distinctEmpty
  case distinctLen => exact h.distinctLen

open AggMerge in
/-- Folding a partial that held values of the voted type. -/
lemma foldHeld {s t : AggMerge X} (h : Holds agg s.toExact u) (hvt : s.vt = some vt)
    (hsane : p.Sane) (hp : p.vtype = some vt) (hheld : p.present.val ≠ 0)
    (hf : foldHeld M agg s vt p = .ok t) : Holds agg t.toExact (u.join (.held agg vt p)) := by
  obtain ⟨hvt', hpres, hdist, hlen, hints, huints⟩ := foldHeld_ok h.distinctLen hf
  have hlive (ty) : t.Live ty ↔ vt = ty := by
    rw [Exact.Live, hvt', hvt, some.injEq]
    exact ⟨And.left, fun h => ⟨h, by omega⟩⟩
  have hlive' (ty) : s.Live ty ↔ vt = ty ∧ s.present.val ≠ 0 := by
    rw [Exact.Live, hvt, some.injEq]
  constructor
  case typeless =>
    simp only [Summary.join, h.typeless]
    rfl
  case votes =>
    simp only [Summary.join, Summary.held, union_empty, h.votes, hvt']
  case proper => exact fun ty hty => h.proper ty (hvt' ▸ hty)
  case present => simp only [Summary.join, Summary.held, h.present, hpres]
  case voted => exact fun hnone => by rw [hvt', hvt] at hnone; cases hnone
  case intSum =>
    simp only [Summary.join, Summary.held, h.intSum]
    by_cases hint : vt = .int
    · simp only [if_pos hint] at hints ⊢
      exact hints.1.symm
    · simp only [if_neg hint] at hints ⊢
      rw [hints.1, add_zero]
  case intBound =>
    rw [hpres, Nat.add_mul]
    split at hints
    · rename_i hint
      rw [hints.1]
      exact (Int.natAbs_add_le _ _).trans (Nat.add_le_add h.intBound (hsane (hint ▸ hp) hheld))
    · rw [hints.1]
      exact h.intBound.trans (Nat.le_add_right _ _)
  case intLive =>
    intro hl
    have hne : vt ≠ .int := fun hint => hl ((hlive _).2 hint)
    rw [if_neg hne] at hints
    rw [hints.1]
    exact h.intLive fun hl' => hne ((hlive' _).1 hl').1
  case intExtrema =>
    simp only [Summary.join, Summary.held]
    by_cases hint : vt = .int
    · simp only [if_pos hint] at hints ⊢
      rw [hints.2.1, hints.2.2]
      exact (h.intExtrema.fold ((hlive' _).trans (and_iff_right hint))).congr
        (iff_of_true trivial ((hlive _).2 hint))
    · simp only [if_neg hint, min_top_right, max_bot_right] at hints ⊢
      rw [hints.2.1, hints.2.2]
      exact h.intExtrema.congr (iff_of_false (fun hl => hint ((hlive' _).1 hl).1)
        fun hl => hint ((hlive _).1 hl))
  case uintSum =>
    simp only [Summary.join, Summary.held, h.uintSum]
    by_cases huint : vt = .uint
    · simp only [if_pos huint] at huints ⊢
      exact huints.1.symm
    · simp only [if_neg huint] at huints ⊢
      rw [huints.1, add_zero]
  case uintLive =>
    intro hl
    have hne : vt ≠ .uint := fun huint => hl ((hlive _).2 huint)
    rw [if_neg hne] at huints
    rw [huints.1]
    exact h.uintLive fun hl' => hne ((hlive' _).1 hl').1
  case uintExtrema =>
    simp only [Summary.join, Summary.held]
    by_cases huint : vt = .uint
    · simp only [if_pos huint] at huints ⊢
      rw [huints.2.1, huints.2.2]
      exact (h.uintExtrema.fold ((hlive' _).trans (and_iff_right huint))).congr
        (iff_of_true trivial ((hlive _).2 huint))
    · simp only [if_neg huint, min_top_right, max_bot_right] at huints ⊢
      rw [huints.2.1, huints.2.2]
      exact h.uintExtrema.congr (iff_of_false (fun hl => huint ((hlive' _).1 hl).1)
        fun hl => huint ((hlive _).1 hl))
  case distinct =>
    rw [hdist, ← h.distinct]
    rfl
  case distinctEmpty =>
    rintro (hop | _)
    · rw [hdist, h.distinctEmpty (.inl hop), counted, if_neg hop, Distinct.union_empty]
    · omega
  case distinctLen => exact hlen

/-! ## The fold and the partial it is answered as -/

lemma ofPartial_of_proper (hp : p.vtype = some vt) (hproper : vt.Proper) :
    Summary.ofPartial agg p =
      (Summary.voted vt).join (if p.present.val = 0 then .zero else .held agg vt p) := by
  unfold ofPartial
  rw [hp]
  cases vt with
  | absent => exact absurd rfl hproper.1
  | unspecified => exact absurd rfl hproper.2
  | int | double | string | bool | uint => rfl

lemma fold_of_proper {s : AggMerge X} (hp : p.vtype = some vt) (hproper : vt.Proper) :
    AggMerge.fold M agg s p = (do
      let cast ← Aggregate.vote (.typesDisagree agg.name) s.vt vt
      if p.present.val = 0 then .ok { s with vt := cast }
      else AggMerge.foldHeld M agg { s with vt := cast } vt p) := by
  unfold AggMerge.fold
  rw [hp]
  cases vt with
  | absent => exact absurd rfl hproper.1
  | unspecified => exact absurd rfl hproper.2
  | int | double | string | bool | uint => rfl

/-- The three kinds of partials. -/
lemma partial_cases (M : Moments X) (agg : CompiledAggregation) (p : AggregatePartial X) :
    p.vtype = some .absent ∨ (Summary.ofPartial agg p).typeless = true ∧
      (∀ s, AggMerge.fold M agg s p = .error .partialWithoutType) ∨
        ∃ vt, p.vtype = some vt ∧ vt.Proper := by
  unfold AggMerge.fold ofPartial
  cases hp : p.vtype with
  | none => exact .inr (.inl ⟨rfl, fun _ => rfl⟩)
  | some vt =>
    cases vt with
    | absent => exact .inl rfl
    | unspecified => exact .inr (.inl ⟨rfl, fun _ => rfl⟩)
    | int | double | string | bool | uint =>
      exact .inr (.inr ⟨_, rfl, by decide, by decide⟩)

/-- Folding a partial joins its summary. -/
lemma fold {s t : AggMerge X} (h : Holds agg s.toExact u)
    (hsane : p.Sane) (hf : AggMerge.fold M agg s p = .ok t) :
    Holds agg t.toExact (u.join (.ofPartial agg p)) := by
  rcases partial_cases M agg p with habs | ⟨-, herr⟩ | ⟨vt, hp, hproper⟩
  · have hzero : ofPartial agg p = .zero := by rw [ofPartial, habs]
    have hsame : s = t := by
      rw [AggMerge.fold, habs] at hf
      exact Except.ok.inj hf
    rwa [hzero, join_zero, ← hsame]
  · rw [herr] at hf
    cases hf
  · rw [fold_of_proper hp hproper] at hf
    obtain ⟨c, hc, hf⟩ := bind_ok.1 hf
    obtain ⟨hagrees, rfl⟩ := vote_ok.1 hc
    have hvoted := h.vote hproper hagrees
    rw [ofPartial_of_proper hp hproper, ← join_assoc]
    split at hf
    · rename_i hzero
      cases hf
      rwa [if_pos hzero, join_zero]
    · rename_i hheld
      rw [if_neg hheld]
      exact foldHeld (s := { s with vt := some vt }) hvoted rfl hsane hp hheld hf

/-- A signed sum bounded by the count does not overflow. -/
lemma checkedAdd_returns (h : Holds agg s u) (hsane : p.Sane) (hp : p.vtype = some .int)
    (hheld : p.present.val ≠ 0) (hpres : s.present.val + p.present.val < 2 ^ 64) :
    ∃ z, s.intSum.checkedAdd p.intSum = some z := by
  have hbound : (s.intSum.val + p.intSum.val).natAbs ≤ (2 ^ 64 - 1) * 2 ^ 63 :=
    calc (s.intSum.val + p.intSum.val).natAbs
        ≤ s.present.val * 2 ^ 63 + p.present.val * 2 ^ 63 :=
          (Int.natAbs_add_le _ _).trans (Nat.add_le_add h.intBound (hsane hp hheld))
      _ = (s.present.val + p.present.val) * 2 ^ 63 := (Nat.add_mul _ _ _).symm
      _ ≤ (2 ^ 64 - 1) * 2 ^ 63 := Nat.mul_le_mul_right _ (Nat.le_pred_of_lt hpres)
  generalize hz : s.intSum.val + p.intSum.val = z at hbound
  have hfits : -2 ^ 127 ≤ z ∧ z < 2 ^ 127 := by omega
  exact ⟨⟨z, hfits.1, hfits.2⟩, I128.ofInt?_eq_some.2 hz.symm⟩

/-- A fold returns when the joined summary is valid. -/
lemma fold_returns {s : AggMerge X} (h : Holds agg s.toExact u) (hsane : p.Sane)
    (hvalid : (u.join (.ofPartial agg p)).Valid agg) : ∃ t, AggMerge.fold M agg s p = .ok t := by
  rcases partial_cases M agg p with habs | ⟨htyp, -⟩ | ⟨vt, hp, hproper⟩
  · exact ⟨s, by rw [AggMerge.fold, habs]⟩
  · have := hvalid.typeless
    simp [Summary.join, htyp, Bool.or_true] at this
  · rw [ofPartial_of_proper hp hproper] at hvalid
    have hagrees : Agrees s.toExact vt := by
      cases hvt : s.vt with
      | none => exact .inl hvt
      | some prev =>
        have hcard := hvalid.votes
        simp only [Summary.join, h.votes, hvt, toFinset_some, Summary.voted] at hcard
        rw [card_le_one] at hcard
        rw [Agrees, hvt, hcard prev (by simp) vt (by simp)]
        exact .inr rfl
    rw [fold_of_proper hp hproper, vote_ok.2 ⟨hagrees, rfl⟩]
    split
    · exact ⟨_, rfl⟩
    · rename_i hheld
      rw [if_neg hheld] at hvalid
      have hpres : s.present.val + p.present.val < 2 ^ 64 := by
        have := hvalid.present
        simpa only [Summary.join, Summary.voted, Summary.zero, Summary.held, h.present, zero_add]
          using this
      refine AggMerge.foldHeld_returns hpres (fun hint => ?_) (fun huint => ?_) ?_
      · exact h.checkedAdd_returns hsane (hint ▸ hp) hheld hpres
      · have := hvalid.uintSum
        simpa only [Summary.join, Summary.voted, Summary.zero, Summary.held, h.uintSum, zero_add,
          if_pos huint] using this
      · have := hvalid.distinct
        simpa only [Summary.join, Summary.voted, Summary.zero, Summary.held, h.distinct,
          Distinct.empty_union, AggMerge.counted] using this

/-- What a merge holds is read off it. -/
lemma eq_summary (h : Holds agg s u) : u = s.summary := by
  have hint : u.intMin = s.summary.intMin ∧ u.intMax = s.summary.intMax := by
    by_cases hl : s.vt = some .int ∧ s.present.val ≠ 0
    · simpa only [Exact.summary, if_pos hl] using h.intExtrema.of_live hl
    · simpa only [Exact.summary, if_neg hl] using (h.intExtrema.of_not_live hl).2.2
  have huint : u.uintMin = s.summary.uintMin ∧ u.uintMax = s.summary.uintMax := by
    by_cases hl : s.vt = some .uint ∧ s.present.val ≠ 0
    · simpa only [Exact.summary, if_pos hl] using h.uintExtrema.of_live hl
    · simpa only [Exact.summary, if_neg hl] using (h.uintExtrema.of_not_live hl).2.2
  exact Summary.ext h.typeless h.votes h.present h.intSum hint.1 hint.2 h.uintSum huint.1 huint.2
    h.distinct

lemma distinct_asPartial (s : AggMerge X) : s.asPartial.distinct = s.distinct := by
  simp [AggregatePartial.distinct, AggMerge.asPartial]

lemma intSum_asPartial (s : AggMerge X) : s.asPartial.intSum = s.intSum :=
  I128.ofHalves_halves _

lemma uintSum_asPartial (s : AggMerge X) : s.asPartial.uintSum = s.uintSum :=
  U128.ofHalves_halves _

lemma asPartial_sane {s : AggMerge X} (h : Holds agg s.toExact u) : s.asPartial.Sane := by
  intro _ _
  rw [intSum_asPartial]
  exact h.intBound

/-- The partial a merge is answered as holds the same. -/
lemma ofPartial_asPartial {s : AggMerge X} (h : Holds agg s.toExact u) :
    Summary.ofPartial agg s.asPartial = u := by
  rw [h.eq_summary]
  have hzero : s.present.val = 0 → s.intSum.val = 0 ∧ s.uintSum.val = 0 ∧ s.distinct = .empty :=
    fun hz => ⟨h.intLive fun hl => hl.2 hz, h.uintLive fun hl => hl.2 hz, h.distinctEmpty (.inr hz)⟩
  cases hvt : s.vt with
  | none =>
    have hp : s.asPartial.vtype = some .absent := by rw [AggMerge.asPartial, hvt, getD_none]
    have hz := h.voted hvt
    obtain ⟨hint, huint, hdist⟩ := hzero hz
    rw [ofPartial, hp]
    simp [Exact.summary, zero, hvt, hz, hint, huint, hdist]
  | some vt =>
    have hp : s.asPartial.vtype = some vt := by rw [AggMerge.asPartial, hvt, getD_some]
    have hpres : s.asPartial.present = s.present := rfl
    rw [ofPartial_of_proper hp (h.proper vt hvt), hpres]
    by_cases hz : s.present.val = 0
    · obtain ⟨hint, huint, hdist⟩ := hzero hz
      rw [if_pos hz, Summary.join_zero]
      simp [Exact.summary, Summary.voted, Summary.zero, hvt, hz, hint, huint, hdist]
    · have hint : vt ≠ .int → s.intSum.val = 0 := fun hne =>
        h.intLive fun hl => hne (some.inj (hvt.symm.trans hl.1))
      have huint : vt ≠ .uint → s.uintSum.val = 0 := fun hne =>
        h.uintLive fun hl => hne (some.inj (hvt.symm.trans hl.1))
      have hdist : agg.op ≠ .cardinality → s.distinct = .empty := fun hop =>
        h.distinctEmpty (.inl hop)
      rw [if_neg hz]
      simp only [Summary.join, Summary.voted, Summary.zero, Summary.held, Exact.summary, hvt, hpres,
        intSum_asPartial, uintSum_asPartial, distinct_asPartial, Bool.or_self, union_empty,
        toFinset_some, zero_add, min_top_left, max_bot_left, Distinct.empty_union,
        some.injEq, hz, ne_eq, not_false_eq_true, and_true]
      refine Summary.ext rfl rfl rfl ?_ rfl rfl ?_ rfl rfl ?_
      · exact ite_eq_left_iff.2 fun hne => (hint hne).symm
      · exact ite_eq_left_iff.2 fun hne => (huint hne).symm
      · exact ite_eq_left_iff.2 fun hne => (hdist hne).symm

end Holds

/-! ## Relays -/

variable {X : Type} (M : Moments X)

/-- A merge of aggregation partials is relayable, its moments of doubles apart. -/
def AggMerge.relayable (agg : CompiledAggregation) :
    Relayable (AggMerge.fold M agg) (AggMerge.new M) AggMerge.asPartial AggregatePartial.Sane
      AggMerge.toExact where
  Same ps qs := Summary.ofList agg ps = Summary.ofList agg qs
  Valid ps := (Summary.ofList agg ps).Valid agg
  Inv s ps := Holds agg s.toExact (Summary.ofList agg ps)
  same_refl _ := rfl
  same_symm h := h.symm
  same_trans h h' := h.trans h'
  same_append h h' := by rw [Summary.ofList_append, Summary.ofList_append, h, h']
  valid_of_same h hv := h ▸ hv
  valid_append h := by
    rw [Summary.ofList_append] at h
    exact h.parts
  inv_init := Holds.new
  inv_step hs hp hf := by
    rw [Summary.ofList_append, Summary.ofList_singleton]
    exact hs.fold hp hf
  returns hs hp hv := by
    rw [Summary.ofList_append, Summary.ofList_singleton] at hv
    exact hs.fold_returns hp hv
  valid_of_inv hs := hs.valid
  relayed hs := ⟨hs.asPartial_sane, by rw [Summary.ofList_singleton, hs.ofPartial_asPartial]⟩
  view_eq hs ht h := hs.unique (h ▸ ht)

variable {M} {name : String}

lemma AggMerge.foldHeld_ne_intSumOverflows {agg : CompiledAggregation} {s : AggMerge X}
    {p : AggregatePartial X} (hint : vt = .int → s.present.val + p.present.val < 2 ^ 64 →
      ∃ z, s.intSum.checkedAdd p.intSum = some z) :
    AggMerge.foldHeld M agg s vt p ≠ .error (.intSumOverflows name) := by
  intro h
  rcases bind_eq_error.1 h with hpres | ⟨present, hpres, h⟩
  · exact nomatch (okOr_eq_error.1 hpres).2
  have hfits : s.present.val + p.present.val < 2 ^ 64 := by
    rw [← U64.ofNat?_eq_some.1 (okOr_ok.1 hpres)]
    exact present.upper
  rcases bind_eq_error.1 h with hvals | ⟨t, -, h⟩
  · cases vt with
    | int =>
      obtain ⟨z, hz⟩ := hint rfl hfits
      rw [foldValues, hz] at hvals
      cases hvals
    | uint =>
      rcases bind_eq_error.1 hvals with hsum | ⟨z, -, hvals⟩
      · exact nomatch (okOr_eq_error.1 hsum).2
      · cases hvals
    | double | string | bool | absent | unspecified => cases hvals
  · rw [foldDistinct] at h
    split at h
    · split at h <;> cases h
    · cases h

lemma vote_ne_intSumOverflows {cast : Option AggregateValueType}
    (hd : ∀ prev vt, disagree prev vt ≠ .intSumOverflows name) :
    vote disagree cast vt ≠ .error (.intSumOverflows name) := by
  intro h
  unfold vote at h
  split at h
  · cases h
  · split at h
    · exact hd _ _ (Except.error.inj h)
    · cases h

/-- **The signed accumulator never overflows** while each shard's sum is bounded by its count. -/
theorem AggMerge.not_refuses_intSumOverflows {agg : CompiledAggregation} :
    ¬(AggMerge.relayable M agg).Refuses (.intSumOverflows name) := by
  rintro ⟨s, ps, p, hs, hsane, hf⟩
  rcases Holds.partial_cases M agg p with habs | ⟨-, herr⟩ | ⟨vt, hp, hproper⟩
  · rw [fold, habs] at hf
    cases hf
  · rw [herr] at hf
    cases hf
  · rw [Holds.fold_of_proper hp hproper] at hf
    rcases bind_eq_error.1 hf with hc | ⟨c, -, hf⟩
    · exact absurd hc (vote_ne_intSumOverflows fun _ _ => Refusal.noConfusion)
    · split at hf
      · cases hf
      · rename_i hheld
        refine foldHeld_ne_intSumOverflows (fun hint hpres => ?_) hf
        exact hs.checkedAdd_returns hsane (hint ▸ hp) hheld hpres

end ProtomoltSearch.Aggregate
