import ProtomoltSearch.Foundations.Overflow
import ProtomoltSearch.Foundations.Wide
import ProtomoltSearch.Status

/-!
# Merging aggregation partials

A shard answers one partial for each requested aggregation and percentile. The coordinator folds
them (`AggMerge.fold`, `PctMerge.fold`): a vote on the type of the expression, the count of present
values, exact sums and extrema, the union of the distinct values, and the moments of doubles. A
relay folds its children the same way and answers its state as a partial.

The moments of doubles are a parameter: nothing about the other parts depends on them.
-/

namespace ProtomoltSearch.Aggregate

/-- The type an expression resolved to on a shard. -/
inductive AggregateValueType where
  | unspecified
  | absent
  | int
  | double
  | string
  | bool
  | uint
  deriving DecidableEq

inductive AggregateOp where
  | unspecified
  | count
  | sum
  | min
  | max
  | mean
  | variance
  | stddev
  | cardinality
  deriving DecidableEq

/-- A requested aggregation, as far as the merge reads it. -/
structure CompiledAggregation where
  name : String
  op : AggregateOp
  maxDistinct : ℕ

inductive Refusal where
  | partialWithoutType
  | typesDisagree (name : String) (prev vt : AggregateValueType)
  | presentOverflows (name : String)
  | intSumOverflows (name : String)
  | uintSumOverflows (name : String)
  | tooManyDistinct (name : String) (maxDistinct : ℕ)
  | partialWithoutNumericType
  | percentileTypesDisagree (name : String) (prev vt : AggregateValueType)
  | unrankableOverflows (name : String)
  | percentilePresentOverflows (name : String)
  | wrongPartialCount (got requested : ℕ)
  | wrongPercentileCount (got requested : ℕ)
  | wrongQuantileCount (got requested : ℕ)
  | quantileCountOverflows
  deriving DecidableEq

/-- The exact distinct values, one set a type; doubles by canonical bits. -/
structure Distinct where
  ints : Finset I64
  uints : Finset U64
  doubles : Finset U64
  strings : Finset String
  bools : Finset Bool
  deriving DecidableEq

namespace Distinct

def empty : Distinct := ⟨∅, ∅, ∅, ∅, ∅⟩

def len (d : Distinct) : ℕ :=
  d.ints.card + d.uints.card + d.doubles.card + d.strings.card + d.bools.card

def union (d e : Distinct) : Distinct :=
  ⟨d.ints ∪ e.ints, d.uints ∪ e.uints, d.doubles ∪ e.doubles, d.strings ∪ e.strings,
    d.bools ∪ e.bools⟩

end Distinct

/-- The moments of doubles. `fold` takes the counts of values on both sides. -/
structure Moments (X : Type) where
  zero : X
  fold : X → U64 → X → U64 → X

/-- One shard's partial of an aggregation. A type number out of range is `none`. -/
structure AggregatePartial (X : Type) where
  vtype : Option AggregateValueType
  present : U64
  intSumHi : I64
  intSumLo : U64
  intMin : I64
  intMax : I64
  moments : X
  distinctInts : List I64
  distinctDoubleBits : List U64
  distinctStrings : List String
  distinctBools : List Bool
  uintSumHi : U64
  uintSumLo : U64
  uintMin : U64
  uintMax : U64
  distinctUints : List U64

namespace AggregatePartial

variable {X : Type} (p : AggregatePartial X)

def intSum : I128 := .ofHalves p.intSumHi p.intSumLo

def uintSum : U128 := .ofHalves p.uintSumHi p.uintSumLo

def distinct : Distinct :=
  ⟨p.distinctInts.toFinset, p.distinctUints.toFinset, p.distinctDoubleBits.toFinset,
    p.distinctStrings.toFinset, p.distinctBools.toFinset⟩

end AggregatePartial

/-- What a merge holds besides the moments of doubles. -/
structure Exact where
  vt : Option AggregateValueType
  present : U64
  distinct : Distinct
  uintSum : U128
  uintMin : U64
  uintMax : U64
  intSum : I128
  intMin : I64
  intMax : I64
  deriving DecidableEq

structure AggMerge (X : Type) extends Exact where
  moments : X

abbrev U64.zero : U64 := ⟨0, U64.zero_lt⟩

abbrev I64.zero : I64 := ⟨0, I64.le_zero, I64.zero_lt⟩

def Exact.new : Exact where
  vt := none
  present := U64.zero
  distinct := .empty
  uintSum := .zero
  uintMin := U64.zero
  uintMax := U64.zero
  intSum := .zero
  intMin := I64.zero
  intMax := I64.zero

def vote (disagree : AggregateValueType → AggregateValueType → Refusal)
    (cast : Option AggregateValueType) (vt : AggregateValueType) :
    Except Refusal (Option AggregateValueType) :=
  match cast with
  | none => .ok (some vt)
  | some prev => if prev ≠ vt then .error (disagree prev vt) else .ok (some prev)

/-- The least value so far; the first shard that held values sets it. -/
def leastSoFar {α : Type} [LinearOrder α] (present : U64) (acc x : α) : α :=
  if present.val = 0 then x else min acc x

def greatestSoFar {α : Type} [LinearOrder α] (present : U64) (acc x : α) : α :=
  if present.val = 0 then x else max acc x

namespace AggMerge

variable {X : Type} (M : Moments X)

def new : AggMerge X := { Exact.new with moments := M.zero }

variable (name : String) (agg : CompiledAggregation) (s : AggMerge X) (vt : AggregateValueType)
  (p : AggregatePartial X)

/-- Fold the sums and extrema of a partial of the type. -/
def foldValues : Except Refusal (AggMerge X) :=
  match vt with
  | .int => do
    let sum ← okOr (s.intSum.checkedAdd p.intSum) (.intSumOverflows name)
    .ok { s with
      intSum := sum
      intMin := leastSoFar s.present s.intMin p.intMin
      intMax := greatestSoFar s.present s.intMax p.intMax }
  | .uint => do
    let sum ← okOr (s.uintSum.checkedAdd p.uintSum) (.uintSumOverflows name)
    .ok { s with
      uintSum := sum
      uintMin := leastSoFar s.present s.uintMin p.uintMin
      uintMax := greatestSoFar s.present s.uintMax p.uintMax }
  | .double => .ok { s with moments := M.fold s.moments s.present p.moments p.present }
  | .string | .bool | .absent | .unspecified => .ok s

/-- Join the distinct values of a partial, within the bound. -/
def foldDistinct : Except Refusal (AggMerge X) :=
  if agg.op = .cardinality then
    if agg.maxDistinct < (s.distinct.union p.distinct).len then
      .error (.tooManyDistinct agg.name agg.maxDistinct)
    else .ok { s with distinct := s.distinct.union p.distinct }
  else .ok s

/-- Fold a partial that held values into a merge that has taken its vote. -/
def foldHeld : Except Refusal (AggMerge X) := do
  let nextPresent ← okOr (s.present.checkedAdd p.present) (.presentOverflows agg.name)
  let s ← foldValues M agg.name s vt p
  foldDistinct agg { s with present := nextPresent } p

def fold : Except Refusal (AggMerge X) :=
  match p.vtype with
  | some .absent => .ok s
  | some .unspecified | none => .error .partialWithoutType
  | some vt => do
    let cast ← vote (.typesDisagree agg.name) s.vt vt
    if p.present.val = 0 then .ok { s with vt := cast }
    else foldHeld M agg { s with vt := cast } vt p

def asPartial : AggregatePartial X where
  vtype := some (s.vt.getD .absent)
  present := s.present
  intSumHi := s.intSum.hi
  intSumLo := s.intSum.lo
  intMin := s.intMin
  intMax := s.intMax
  moments := s.moments
  distinctInts := s.distinct.ints.sort (· ≤ ·)
  distinctDoubleBits := s.distinct.doubles.sort (· ≤ ·)
  distinctStrings := s.distinct.strings.sort (· ≤ ·)
  distinctBools := s.distinct.bools.sort (· ≤ ·)
  uintSumHi := s.uintSum.hi
  uintSumLo := s.uintSum.lo
  uintMin := s.uintMin
  uintMax := s.uintMax
  distinctUints := s.distinct.uints.sort (· ≤ ·)

end AggMerge

/-- One shard's partial of a percentile expression: extrema in the order-preserving bits. -/
structure PercentilePartial where
  vtype : Option AggregateValueType
  present : U64
  unrankable : U64
  minBits : U64
  maxBits : U64
  deriving DecidableEq

structure PctMerge where
  vt : Option AggregateValueType
  present : U64
  unrankable : U64
  minBits : U64
  maxBits : U64
  deriving DecidableEq

namespace PctMerge

def new : PctMerge := ⟨none, U64.zero, U64.zero, U64.zero, U64.zero⟩

/-- Fold the counts of a partial into a merge that has taken its vote. -/
def foldCounts (name : String) (s : PctMerge) (p : PercentilePartial) : Except Refusal PctMerge := do
  let unrankable ← okOr (s.unrankable.checkedAdd p.unrankable) (.unrankableOverflows name)
  if p.present.val = 0 then .ok { s with unrankable := unrankable }
  else do
    let present ← okOr (s.present.checkedAdd p.present) (.percentilePresentOverflows name)
    .ok { s with
      unrankable := unrankable
      present := present
      minBits := leastSoFar s.present s.minBits p.minBits
      maxBits := greatestSoFar s.present s.maxBits p.maxBits }

def fold (name : String) (s : PctMerge) (p : PercentilePartial) : Except Refusal PctMerge :=
  match p.vtype with
  | some .absent => .ok s
  | some .int => foldTyped .int
  | some .uint => foldTyped .uint
  | some .double => foldTyped .double
  | _ => .error .partialWithoutNumericType
where
  foldTyped (vt : AggregateValueType) : Except Refusal PctMerge := do
    let cast ← vote (.percentileTypesDisagree name) s.vt vt
    foldCounts name { s with vt := cast } p

def asPartial (s : PctMerge) : PercentilePartial :=
  ⟨some (s.vt.getD .absent), s.present, s.unrankable, s.minBits, s.maxBits⟩

end PctMerge

end ProtomoltSearch.Aggregate
