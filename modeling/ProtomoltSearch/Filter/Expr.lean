import ProtomoltSearch.Status
import ProtomoltSearch.Filter.Resolved

/-!
# Filter trees on the wire

The tree a request carries, before a shard resolves its names (`filter.rs`): its leaves in the
one walk order that every positional list of flags uses, its validation, and the edges of its
number bounds. `FilterExpr.NumericBounds` says that no bound is NaN, which validation guarantees
(`numericBounds_of_validate`).
-/

namespace ProtomoltSearch.Filter

inductive BoundValue where
  | int (n : I64)
  | uint (n : U64)
  | num (x : F64)
  deriving DecidableEq

/-- A bound as sent; the value may be missing. -/
structure FilterBound where
  value : Option BoundValue
  exclusive : Bool
  deriving DecidableEq

structure FacetPredicate where
  column : String
  values : List String

structure NumberPredicate where
  column : String
  min : Option FilterBound
  max : Option FilterBound

structure MapFacetPredicate where
  column : String
  key : String
  values : List String

structure MapNumberPredicate where
  column : String
  key : String
  min : Option FilterBound
  max : Option FilterBound

structure MapKeyPredicate where
  column : String
  key : String

structure HasPredicate where
  column : String

/-- A geo leaf, with what the validation of its region answers. -/
structure GeoFilter where
  column : String
  region : Except Status GeoRegion

structure StringBound where
  value : String
  exclusive : Bool

structure StringRangePredicate where
  column : String
  key : String
  min : Option StringBound
  max : Option StringBound

structure StringPrefixPredicate where
  column : String
  key : String
  prefixText : String

inductive LeafRef where
  | facet (p : FacetPredicate)
  | number (p : NumberPredicate)
  | mapFacet (p : MapFacetPredicate)
  | mapNumber (p : MapNumberPredicate)
  | typedMapNumber (p : MapNumberPredicate)
  | mapHasKey (p : MapKeyPredicate)
  | typedMapHasKey (p : MapKeyPredicate)
  | has (p : HasPredicate)
  | geo (g : GeoFilter)
  | stringRange (p : StringRangePredicate)
  | stringPrefix (p : StringPrefixPredicate)
  | mapStringRange (p : StringRangePredicate)
  | mapStringPrefix (p : StringPrefixPredicate)

inductive FilterExpr where
  | unset
  | and (exprs : List FilterExpr)
  | or (exprs : List FilterExpr)
  | not (child : FilterExpr)
  | leaf (l : LeafRef)

/-- The edge of a bound; the negative zero becomes the positive one. -/
def edgeOf (b : FilterBound) : Option Edge :=
  b.value.map fun
    | .int n => ⟨.I n, b.exclusive⟩
    | .uint n => ⟨.U n, b.exclusive⟩
    | .num x => ⟨.F x.normZero, b.exclusive⟩

/-- A string leaf reads a facet column, or a map value under a key. -/
def describeStringTarget (column key : String) : String :=
  if key.isEmpty then "facet column " ++ debug column
  else "map-facet column " ++ debug column ++ " key " ++ debug key

/-- A leaf's kind and column, for refusal messages. -/
def LeafRef.describe : LeafRef → String
  | .facet p => "facet column " ++ debug p.column
  | .number p => "numeric column " ++ debug p.column
  | .mapFacet p => "map-facet column " ++ debug p.column ++ " key " ++ debug p.key
  | .mapNumber p | .typedMapNumber p =>
    "numeric map column " ++ debug p.column ++ " key " ++ debug p.key
  | .mapHasKey p | .typedMapHasKey p => "map column " ++ debug p.column
  | .has p => "column " ++ debug p.column
  | .geo g => "geo column " ++ debug g.column
  | .stringRange p => describeStringTarget p.column p.key
  | .stringPrefix p => describeStringTarget p.column p.key
  | .mapStringRange p => "map-facet column " ++ debug p.column ++ " key " ++ debug p.key
  | .mapStringPrefix p => "map-facet column " ++ debug p.column ++ " key " ++ debug p.key

mutual

/-- The leaves in depth-first order. -/
def FilterExpr.walkLeaves : FilterExpr → List LeafRef
  | .unset => []
  | .and exprs => walkLeavesList exprs
  | .or exprs => walkLeavesList exprs
  | .not child => child.walkLeaves
  | .leaf l => [l]

def FilterExpr.walkLeavesList : List FilterExpr → List LeafRef
  | [] => []
  | e :: es => e.walkLeaves ++ walkLeavesList es

end

/-- The number of leaves. -/
def FilterExpr.leafCount (e : FilterExpr) : ℕ := e.walkLeaves.length

lemma FilterExpr.walkLeavesList_eq (es : List FilterExpr) :
    walkLeavesList es = es.flatMap walkLeaves := by
  induction es with
  | nil => rw [walkLeavesList, List.flatMap_nil]
  | cons e es ih => rw [walkLeavesList, List.flatMap_cons, ih]

def maxDepth : ℕ := 32

def maxLeaves : ℕ := 256

/-- A bound has its value set and, as a float, is finite. -/
def validateBound (column : String) : Option FilterBound → Except Status Unit
  | none => .ok ()
  | some bound =>
    match bound.value with
    | none => .error (.invalidArgument ("filter bound on " ++ debug column ++
        ": no value set; a bound says the number it bounds by"))
    | some (.num x) =>
      match x.nonFinite with
      | none => .ok ()
      | some text => .error (.invalidArgument ("filter bound on " ++ debug column ++
          ": " ++ text ++ " is not finite; NaN and infinity bound nothing a column can hold"))
    | some _ => .ok ()

/-- A predicate names the column it reads. -/
def requireColumn (what column : String) : Except Status Unit :=
  if column.isEmpty then
    .error (.invalidArgument ("filter " ++ what ++
      " predicate: a predicate names the column it reads"))
  else .ok ()

/-- The two bounds of a range predicate: each valid, at least one set. -/
def validateBounds (column missing : String) (min max : Option FilterBound) :
    Except Status Unit := do
  validateBound column min
  validateBound column max
  if min.isNone && max.isNone then throw (.invalidArgument missing)

def validateLeaf : LeafRef → Except Status Unit
  | .facet p => do
    requireColumn "facet" p.column
    if p.values.isEmpty then
      throw (.invalidArgument ("filter facet predicate on " ++ debug p.column ++
        ": at least one value; membership in the empty set is a predicate nobody meant to send"))
  | .number p => do
    requireColumn "number" p.column
    validateBounds p.column ("filter number predicate on " ++ debug p.column ++
      ": at least one bound; bare presence is has(" ++ p.column ++ ")") p.min p.max
  | .mapFacet p => do
    requireColumn "map-facet" p.column
    if p.values.isEmpty then
      throw (.invalidArgument ("filter map-facet predicate on " ++ debug p.column ++ "[" ++
        debug p.key ++ "]: at least one value"))
  | .mapNumber p | .typedMapNumber p => do
    requireColumn "map-number" p.column
    validateBounds p.column ("filter map-number predicate on " ++ debug p.column ++ "[" ++
      debug p.key ++ "]: at least one bound; key presence is `" ++ debug p.key ++ " in " ++
      p.column ++ "`") p.min p.max
  | .mapHasKey p | .typedMapHasKey p => requireColumn "map-key" p.column
  | .has p => requireColumn "has" p.column
  | .geo g => g.region.map fun _ => ()
  | .stringRange p | .mapStringRange p => do
    requireColumn "string-range" p.column
    if p.min.isNone && p.max.isNone then
      throw (.invalidArgument ("filter string-range predicate on " ++ debug p.column ++
        ": at least one bound; bare presence is has(" ++ p.column ++ ")"))
  | .stringPrefix p | .mapStringPrefix p => do
    requireColumn "string-prefix" p.column
    if p.prefixText.isEmpty then
      throw (.invalidArgument ("filter string-prefix predicate on " ++ debug p.column ++
        ": an empty prefix matches every value, which is has(" ++ p.column ++ ")"))

/-- The tree is not too deep. -/
def checkDepth (depth : ℕ) : Except Status Unit :=
  if maxDepth < depth then
    .error (.invalidArgument ("filter tree is deeper than " ++ toString maxDepth ++ " levels"))
  else .ok ()

/-- A connective has something to connect. -/
def checkChildren (exprs : List FilterExpr) : Except Status Unit :=
  if exprs.isEmpty then
    .error (.invalidArgument ("filter: and/or with no children; a connective with nothing to " ++
      "connect is refused rather than resolved to a vacuous truth value"))
  else .ok ()

mutual

/-- Shape and leaves of a tree at a depth; returns the leaves counted so far. -/
def validateNode (depth leaves : ℕ) : FilterExpr → Except Status ℕ
  | .unset => do
    checkDepth depth
    throw (.invalidArgument ("filter: a node with no expression set; an empty filter is the " ++
      "field left absent, never an empty node"))
  | .and exprs => do
    checkDepth depth
    checkChildren exprs
    validateList (depth + 1) leaves exprs
  | .or exprs => do
    checkDepth depth
    checkChildren exprs
    validateList (depth + 1) leaves exprs
  | .not child => do
    checkDepth depth
    validateNode (depth + 1) leaves child
  | .leaf l => do
    checkDepth depth
    validateLeaf l
    return leaves + 1

def validateList (depth leaves : ℕ) : List FilterExpr → Except Status ℕ
  | [] => .ok leaves
  | e :: es => do
    let leaves ← validateNode depth leaves e
    validateList depth leaves es

end

def validateFilter (expr : FilterExpr) : Except Status Unit := do
  let leaves ← validateNode 1 0 expr
  if maxLeaves < leaves then
    throw (.invalidArgument ("filter has " ++ toString leaves ++ " leaves; the limit is " ++
      toString maxLeaves ++ " — a filter is a predicate, not a program"))

def FilterBound.IsNumber (b : FilterBound) : Prop := b.value ≠ some (.num .nan)

def LeafRef.NumericBounds : LeafRef → Prop
  | .number p => (∀ b ∈ p.min, b.IsNumber) ∧ ∀ b ∈ p.max, b.IsNumber
  | _ => True

/-- The bounds of every number leaf are numbers. -/
def FilterExpr.NumericBounds (e : FilterExpr) : Prop := ∀ l ∈ e.walkLeaves, l.NumericBounds

lemma FilterExpr.numericBounds_and {es : List FilterExpr} :
    (FilterExpr.and es).NumericBounds ↔ ∀ e ∈ es, e.NumericBounds := by
  simp only [NumericBounds, walkLeaves, walkLeavesList_eq, List.mem_flatMap]
  grind

lemma FilterExpr.numericBounds_or {es : List FilterExpr} :
    (FilterExpr.or es).NumericBounds ↔ ∀ e ∈ es, e.NumericBounds := by
  simp only [NumericBounds, walkLeaves, walkLeavesList_eq, List.mem_flatMap]
  grind

lemma FilterExpr.numericBounds_leaf {l : LeafRef} :
    (FilterExpr.leaf l).NumericBounds ↔ l.NumericBounds := by
  simp [NumericBounds, walkLeaves]

/-- An edge in normal form: neither NaN nor the negative zero. -/
def Edge.Normal (e : Edge) : Prop := e.value ≠ .F .nan ∧ e.value ≠ .F .negZero

lemma normal_of_edgeOf {b : FilterBound} {e : Edge} (hb : b.IsNumber) (h : edgeOf b = some e) :
    e.Normal := by
  obtain ⟨v, hv, rfl⟩ := Option.map_eq_some_iff.1 h
  cases v with
  | int n | uint n => exact ⟨by simp, by simp⟩
  | num x =>
    have hx : x ≠ .nan := fun hx => hb (by rw [hv, hx])
    exact ⟨by simpa using F64.normZero_ne_nan hx, by simpa using F64.normZero_ne_negZero x⟩

lemma isNumber_of_validateBound {column : String} {b : FilterBound}
    (h : validateBound column (some b) = .ok ()) : b.IsNumber := by
  intro hb
  rw [validateBound, hb] at h
  simp [F64.nonFinite] at h

lemma numericBounds_of_validateLeaf {l : LeafRef} (h : validateLeaf l = .ok ()) :
    l.NumericBounds := by
  cases l with
  | number p =>
    simp only [validateLeaf, validateBounds, bind, Except.bind] at h
    split at h
    · cases h
    split at h
    · cases h
    · next hmin =>
      split at h
      · cases h
      · next hmax =>
        refine ⟨fun b hb => ?_, fun b hb => ?_⟩
        · rw [hb] at hmin
          exact isNumber_of_validateBound hmin
        · rw [hb] at hmax
          exact isNumber_of_validateBound hmax
  | _ => trivial

mutual

lemma numericBounds_of_validateNode : ∀ (e : FilterExpr) {depth leaves n : ℕ},
    validateNode depth leaves e = .ok n → e.NumericBounds
  | .unset, _, _, _, _ => by simp [FilterExpr.NumericBounds, FilterExpr.walkLeaves]
  | .and es, depth, leaves, n, h | .or es, depth, leaves, n, h => by
    simp only [validateNode, bind, Except.bind] at h
    split at h
    · cases h
    split at h
    · cases h
    · simpa only [FilterExpr.numericBounds_and, FilterExpr.numericBounds_or] using
        numericBounds_of_validateList es h
  | .not c, depth, leaves, n, h => by
    simp only [validateNode, bind, Except.bind] at h
    split at h
    · cases h
    · rw [FilterExpr.NumericBounds, FilterExpr.walkLeaves]
      exact numericBounds_of_validateNode c h
  | .leaf l, depth, leaves, n, h => by
    simp only [validateNode, bind, Except.bind] at h
    split at h
    · cases h
    split at h
    · cases h
    · next hl => exact FilterExpr.numericBounds_leaf.2 (numericBounds_of_validateLeaf hl)

lemma numericBounds_of_validateList : ∀ (es : List FilterExpr) {depth leaves n : ℕ},
    validateList depth leaves es = .ok n → ∀ e ∈ es, e.NumericBounds
  | [], _, _, _, _ => by simp
  | e :: es, depth, leaves, n, h => by
    simp only [validateList, bind, Except.bind] at h
    split at h
    · cases h
    · next he =>
      rw [List.forall_mem_cons]
      exact ⟨numericBounds_of_validateNode e he, numericBounds_of_validateList es h⟩

end

/-- **Validation leaves only bounds that are numbers.** -/
theorem numericBounds_of_validate {e : FilterExpr} (h : validateFilter e = .ok ()) :
    e.NumericBounds := by
  simp only [validateFilter, bind, Except.bind] at h
  split at h
  · cases h
  · next hn => exact numericBounds_of_validateNode e hn

end ProtomoltSearch.Filter
