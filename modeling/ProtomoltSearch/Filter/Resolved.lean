import ProtomoltSearch.Foundations.Kleene
import ProtomoltSearch.Filter.Bounds

/-!
# Resolved filter trees and their evaluation

A filter tree with a shard's table indices and ordinals in place of names and strings
(`filter.rs`). A leaf that reads a missing value is unknown, the presence tests are decided on
every document, and the connectives walk their children from left to right and stop at the first
deciding one: the Kleene value of the tree (`ResolvedFilter.eval_eq_kleene`).
-/

namespace ProtomoltSearch.Filter

/-- A region of the globe, seen through its containment test on latitude and longitude. -/
structure GeoRegion where
  contains : F64 → F64 → Bool

/-- A shard's columns, read by table index (and key ordinal) and document. -/
structure NumericRead where
  facetOrd : ℕ → ℕ → Option ℕ
  intValue : ℕ → ℕ → Option I64
  uintValue : ℕ → ℕ → Option U64
  value : ℕ → ℕ → Option F64
  mapFacetValueOrd : ℕ → ℕ → ℕ → Option ℕ
  mapValue : ℕ → ℕ → ℕ → Option F64
  mapIntValue : ℕ → ℕ → ℕ → Option I64
  mapUintValue : ℕ → ℕ → ℕ → Option U64
  geoValue : ℕ → ℕ → Option (F64 × F64)

/-- A map-key presence target: the column's family and the key's ordinal there. -/
inductive MapKeyRef where
  | integer (column : ℕ) (keyOrd : Option ℕ)
  | unsignedInteger (column : ℕ) (keyOrd : Option ℕ)
  | facet (column : ℕ) (keyOrd : Option ℕ)
  | numeric (column : ℕ) (keyOrd : Option ℕ)
  | unknown

inductive ResolvedLeaf where
  | facet (column : Option ℕ) (ords : List ℕ)
  | intRange (column : ℕ) (lo hi : I64)
  | uintRange (column : ℕ) (lo hi : U64)
  | f64Range (column : ℕ) (lo hi : Option Edge)
  | numberUnknown
  | mapFacet (target : Option (ℕ × ℕ)) (ords : List ℕ)
  | mapNumber (target : Option (ℕ × ℕ)) (lo hi : Option Edge)
  | mapIntRange (target : Option (ℕ × ℕ)) (lo hi : I64)
  | mapUintRange (target : Option (ℕ × ℕ)) (lo hi : U64)
  | mapHasKey (target : MapKeyRef)
  | has (facet numeric integer unsignedInteger geo : Option ℕ)
  | geo (column : Option ℕ) (region : GeoRegion)
  | facetOrdRange (column : Option ℕ) (lo hi : ℕ)
  | mapFacetOrdRange (target : Option (ℕ × ℕ)) (lo hi : ℕ)

inductive ResolvedFilter where
  | and (children : List ResolvedFilter)
  | or (children : List ResolvedFilter)
  | not (child : ResolvedFilter)
  | leaf (leaf : ResolvedLeaf)

/-- A comparison: unknown on a missing value. -/
def compareValue {β : Type*} (v : Option β) (test : β → Bool) : Tri :=
  match v with
  | none => .unknown
  | some v => Tri.ofBool (test v)

/-- Both edges of a range over doubles. -/
def admits (lo hi : Option Edge) (v : F64) : Bool :=
  lo.all (fun e => e.admitsFromBelow v) && hi.all (fun e => e.admitsFromAbove v)

/-- A leaf's verdict on a document. Ordinals are sorted, so that the binary search is membership. -/
def ResolvedLeaf.eval (docId : ℕ) (cols : NumericRead) : ResolvedLeaf → Tri
  | .facet column ords =>
    compareValue (column.bind fun fi => cols.facetOrd fi docId) fun ord => ords.contains ord
  | .intRange column lo hi =>
    compareValue (cols.intValue column docId) fun v => decide (lo ≤ v) && decide (v ≤ hi)
  | .uintRange column lo hi =>
    compareValue (cols.uintValue column docId) fun v => decide (lo ≤ v) && decide (v ≤ hi)
  | .f64Range column lo hi => compareValue (cols.value column docId) (admits lo hi)
  | .numberUnknown => .unknown
  | .mapFacet target ords =>
    compareValue (target.bind fun t => cols.mapFacetValueOrd t.1 t.2 docId)
      fun ord => ords.contains ord
  | .mapNumber target lo hi =>
    compareValue (target.bind fun t => cols.mapValue t.1 t.2 docId) (admits lo hi)
  | .mapIntRange target lo hi =>
    compareValue (target.bind fun t => cols.mapIntValue t.1 t.2 docId)
      fun v => decide (lo ≤ v) && decide (v ≤ hi)
  | .mapUintRange target lo hi =>
    compareValue (target.bind fun t => cols.mapUintValue t.1 t.2 docId)
      fun v => decide (lo ≤ v) && decide (v ≤ hi)
  | .mapHasKey target =>
    match target with
    | .integer column (some key) => Tri.ofBool (cols.mapIntValue column key docId).isSome
    | .unsignedInteger column (some key) => Tri.ofBool (cols.mapUintValue column key docId).isSome
    | .facet column (some key) => Tri.ofBool (cols.mapFacetValueOrd column key docId).isSome
    | .numeric column (some key) => Tri.ofBool (cols.mapValue column key docId).isSome
    -- the key, or the whole column, was never ingested here: no document has it
    | _ => .false
  | .has inFacet inNumeric inInteger inUnsigned inGeo =>
    Tri.ofBool (inFacet.any (fun fi => (cols.facetOrd fi docId).isSome)
      || inNumeric.any (fun ni => (cols.value ni docId).isSome)
      || inInteger.any (fun ii => (cols.intValue ii docId).isSome)
      || inUnsigned.any (fun ii => (cols.uintValue ii docId).isSome)
      || inGeo.any (fun gi => (cols.geoValue gi docId).isSome))
  | .geo column region =>
    compareValue (column.bind fun gi => cols.geoValue gi docId) fun p => region.contains p.1 p.2
  | .facetOrdRange column lo hi =>
    compareValue (column.bind fun fi => cols.facetOrd fi docId)
      fun ord => decide (lo ≤ ord) && decide (ord < hi)
  | .mapFacetOrdRange target lo hi =>
    compareValue (target.bind fun t => cols.mapFacetValueOrd t.1 t.2 docId)
      fun ord => decide (lo ≤ ord) && decide (ord < hi)

mutual

/-- The tree's verdict on a document, with early exits. -/
def ResolvedFilter.eval (docId : ℕ) (cols : NumericRead) : ResolvedFilter → Tri
  | .and children => evalAnd docId cols .true children
  | .or children => evalOr docId cols .false children
  | .not child => (child.eval docId cols).not
  | .leaf l => l.eval docId cols

/-- The loop of a conjunction: a false child returns at once. -/
def ResolvedFilter.evalAnd (docId : ℕ) (cols : NumericRead) (acc : Tri) : List ResolvedFilter → Tri
  | [] => acc
  | c :: cs =>
    match c.eval docId cols with
    | .false => .false
    | v => evalAnd docId cols (acc.and v) cs

/-- The loop of a disjunction: a true child returns at once. -/
def ResolvedFilter.evalOr (docId : ℕ) (cols : NumericRead) (acc : Tri) : List ResolvedFilter → Tri
  | [] => acc
  | c :: cs =>
    match c.eval docId cols with
    | .true => .true
    | v => evalOr docId cols (acc.or v) cs

end

mutual

/-- The Kleene value of a tree, every child evaluated. -/
def ResolvedFilter.kleene (docId : ℕ) (cols : NumericRead) : ResolvedFilter → Tri
  | .and children => Tri.all (kleeneList docId cols children)
  | .or children => Tri.any (kleeneList docId cols children)
  | .not child => (child.kleene docId cols).not
  | .leaf l => l.eval docId cols

def ResolvedFilter.kleeneList (docId : ℕ) (cols : NumericRead) : List ResolvedFilter → List Tri
  | [] => []
  | c :: cs => c.kleene docId cols :: kleeneList docId cols cs

end

lemma compareValue_eq_true {β : Type*} {v : Option β} {test : β → Bool} :
    compareValue v test = .true ↔ ∃ x, v = some x ∧ test x = true := by
  cases v with
  | none | some x => simp [compareValue]

namespace ResolvedFilter

variable (docId : ℕ) (cols : NumericRead)

lemma evalAnd_eq (acc : Tri) (cs : List ResolvedFilter) :
    evalAnd docId cols acc cs = Tri.allFrom acc (cs.map (eval docId cols)) := by
  induction cs generalizing acc with
  | nil => rw [evalAnd, List.map_nil, Tri.allFrom]
  | cons c cs ih =>
    rw [evalAnd, List.map_cons]
    cases h : c.eval docId cols with
    | false => rfl
    | unknown | true => exact ih _

lemma evalOr_eq (acc : Tri) (cs : List ResolvedFilter) :
    evalOr docId cols acc cs = Tri.anyFrom acc (cs.map (eval docId cols)) := by
  induction cs generalizing acc with
  | nil => rw [evalOr, List.map_nil, Tri.anyFrom]
  | cons c cs ih =>
    rw [evalOr, List.map_cons]
    cases h : c.eval docId cols with
    | true => rfl
    | unknown | false => exact ih _

lemma eval_and (cs : List ResolvedFilter) :
    (ResolvedFilter.and cs).eval docId cols = Tri.all (cs.map (eval docId cols)) := by
  rw [eval, evalAnd_eq, Tri.allFrom_eq, Tri.true_and]

lemma eval_or (cs : List ResolvedFilter) :
    (ResolvedFilter.or cs).eval docId cols = Tri.any (cs.map (eval docId cols)) := by
  rw [eval, evalOr_eq, Tri.anyFrom_eq, Tri.false_or]

mutual

/-- **The walk with early exits computes the Kleene value of the whole tree.** -/
theorem eval_eq_kleene : ∀ f : ResolvedFilter, f.eval docId cols = f.kleene docId cols
  | .and cs => by rw [eval_and, kleene, map_eval_eq_kleeneList cs]
  | .or cs => by rw [eval_or, kleene, map_eval_eq_kleeneList cs]
  | .not c => by rw [eval, kleene, eval_eq_kleene c]
  | .leaf l => by rw [eval, kleene]

lemma map_eval_eq_kleeneList :
    ∀ cs : List ResolvedFilter, cs.map (eval docId cols) = kleeneList docId cols cs
  | [] => by rw [kleeneList, List.map_nil]
  | c :: cs => by rw [kleeneList, List.map_cons, eval_eq_kleene c, map_eval_eq_kleeneList cs]

end

end ResolvedFilter

end ProtomoltSearch.Filter
