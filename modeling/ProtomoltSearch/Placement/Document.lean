import ProtomoltSearch.Filter.Expr

/-!
# Documents and filters over their own values

A placement tree is evaluated over the values a document arrives with (`placement.rs`), by the
three-valued rules a shard applies to its stored rows. `DocColumns` indexes those values by column
name, and `evalDocument` evaluates a wire filter tree over them.
-/

namespace ProtomoltSearch.Placement

open ProtomoltSearch.Filter

/-- A document's values by column name. Ingest refuses numeric values that are not finite. -/
structure DocColumns where
  facets : List (String × String)
  integers : List (String × I64)
  /-- Timestamps as epoch microseconds. -/
  timestamps : List (String × I64)
  unsignedIntegers : List (String × U64)
  numerics : List (String × F64)
  mapFacets : List ((String × String) × String)
  mapNumerics : List ((String × String) × F64)
  mapIntegers : List ((String × String) × I64)
  mapUnsignedIntegers : List ((String × String) × U64)
  geoPoints : List (String × (F64 × F64))
  numerics_finite : ∀ v ∈ numerics, v.2.isFinite = true

/-- The first value under a name. -/
def firstOf {κ β : Type*} [DecidableEq κ] (l : List (κ × β)) (name : κ) : Option β :=
  (l.find? fun p => p.1 = name).map Prod.snd

inductive NumberValue where
  | int (v : I64)
  | uint (v : U64)
  | float (v : F64)

namespace DocColumns

variable (doc : DocColumns)

variable (column : String)

def facet : Option String := firstOf doc.facets column

/-- Integers before timestamps: both live in one table. -/
def integer : Option I64 :=
  (firstOf doc.integers column).or (firstOf doc.timestamps column)

def numeric : Option F64 := firstOf doc.numerics column

def unsignedInteger : Option U64 := firstOf doc.unsignedIntegers column

def mapFacet (column key : String) : Option String := firstOf doc.mapFacets (column, key)

def mapNumeric (column key : String) : Option F64 := firstOf doc.mapNumerics (column, key)

def mapNumber (column key : String) : Option NumberValue :=
  ((firstOf doc.mapIntegers (column, key)).map .int).or
    (((firstOf doc.mapUnsignedIntegers (column, key)).map .uint).or
      ((doc.mapNumeric column key).map .float))

def geo : Option (F64 × F64) := firstOf doc.geoPoints column

def has : Bool :=
  (doc.facet column).isSome || (doc.integer column).isSome || (doc.unsignedInteger column).isSome
    || (doc.numeric column).isSome || (doc.geo column).isSome

/-- The number a number predicate reads: signed, then unsigned, then float. -/
def number : Option NumberValue :=
  ((doc.integer column).map .int).or
    (((doc.unsignedInteger column).map .uint).or ((doc.numeric column).map .float))

end DocColumns

/-- Whether a number lies between two edges, in its own domain. -/
def inNumberRange (value : NumberValue) (min max : Option Edge) : Bool :=
  match value with
  | .int v => decide ((intRange min max).1 ≤ v) && decide (v ≤ (intRange min max).2)
  | .uint v => decide ((uintRange min max).1 ≤ v) && decide (v ≤ (uintRange min max).2)
  | .float v => admits min max v

def bytes (s : String) : List UInt8 := s.toByteArray.data.toList

/-- The order of two strings by their bytes. -/
def cmpBytes (a b : String) : Ordering := cmp (bytes a) (bytes b)

/-- Whether a string lies between two bounds in byte order. -/
def stringInRange (value : String) (min max : Option StringBound) : Bool :=
  let above := min.all fun b => match cmpBytes value b.value with
    | .gt => true
    | .eq => !b.exclusive
    | .lt => false
  let below := max.all fun b => match cmpBytes value b.value with
    | .lt => true
    | .eq => !b.exclusive
    | .gt => false
  above && below

/-- Whether a string starts with the bytes of another. -/
def startsWith (value stem : String) : Bool := (bytes stem).isPrefixOf (bytes value)

variable (doc : DocColumns)

def evalLeaf : LeafRef → Tri
  | .facet p => compareValue (doc.facet p.column) fun value => p.values.contains value
  | .number p =>
    compareValue (doc.number p.column) fun v =>
      inNumberRange v (p.min.bind edgeOf) (p.max.bind edgeOf)
  | .mapFacet p => compareValue (doc.mapFacet p.column p.key) fun value => p.values.contains value
  | .mapNumber p =>
    compareValue (doc.mapNumeric p.column p.key) fun v =>
      inNumberRange (.float v) (p.min.bind edgeOf) (p.max.bind edgeOf)
  | .typedMapNumber p =>
    compareValue (doc.mapNumber p.column p.key) fun v =>
      inNumberRange v (p.min.bind edgeOf) (p.max.bind edgeOf)
  | .mapHasKey p =>
    Tri.ofBool ((doc.mapFacet p.column p.key).isSome || (doc.mapNumeric p.column p.key).isSome)
  | .typedMapHasKey p =>
    Tri.ofBool ((doc.mapFacet p.column p.key).isSome || (doc.mapNumber p.column p.key).isSome)
  | .has p => Tri.ofBool (doc.has p.column)
  | .geo g =>
    match doc.geo g.column, g.region with
    | some (lat, lon), .ok region => Tri.ofBool (region.contains lat lon)
    | _, _ => .unknown
  | .stringRange p =>
    compareValue (if p.key.isEmpty then doc.facet p.column else doc.mapFacet p.column p.key)
      fun v => stringInRange v p.min p.max
  | .mapStringRange p =>
    compareValue (doc.mapFacet p.column p.key) fun v => stringInRange v p.min p.max
  | .stringPrefix p =>
    compareValue (if p.key.isEmpty then doc.facet p.column else doc.mapFacet p.column p.key)
      fun v => startsWith v p.prefixText
  | .mapStringPrefix p =>
    compareValue (doc.mapFacet p.column p.key) fun v => startsWith v p.prefixText

mutual

def evalDocument (doc : DocColumns) : FilterExpr → Tri
  | .unset => .unknown
  | .and exprs => evalAll doc .true exprs
  | .or exprs => evalAny doc .false exprs
  | .not child => (evalDocument doc child).not
  | .leaf l => evalLeaf doc l

/-- The fold of a conjunction. -/
def evalAll (doc : DocColumns) (acc : Tri) : List FilterExpr → Tri
  | [] => acc
  | e :: es => evalAll doc (acc.and (evalDocument doc e)) es

/-- The fold of a disjunction. -/
def evalAny (doc : DocColumns) (acc : Tri) : List FilterExpr → Tri
  | [] => acc
  | e :: es => evalAny doc (acc.or (evalDocument doc e)) es

end

lemma evalAll_eq (acc : Tri) (es : List FilterExpr) :
    evalAll doc acc es = acc.and (Tri.all (es.map (evalDocument doc))) := by
  induction es generalizing acc with
  | nil => rw [evalAll, List.map_nil, Tri.all_nil, Tri.and_true]
  | cons e es ih => rw [evalAll, ih, List.map_cons, Tri.all_cons, Tri.and_assoc]

lemma evalAny_eq (acc : Tri) (es : List FilterExpr) :
    evalAny doc acc es = acc.or (Tri.any (es.map (evalDocument doc))) := by
  induction es generalizing acc with
  | nil => rw [evalAny, List.map_nil, Tri.any_nil, Tri.or_false]
  | cons e es ih => rw [evalAny, ih, List.map_cons, Tri.any_cons, Tri.or_assoc]

lemma evalDocument_and_eq_true {doc : DocColumns} {es : List FilterExpr} :
    evalDocument doc (.and es) = .true ↔ ∀ e ∈ es, evalDocument doc e = .true := by
  rw [evalDocument, evalAll_eq, Tri.true_and, Tri.all_eq_true]
  simp

lemma evalDocument_or_eq_true {doc : DocColumns} {es : List FilterExpr} :
    evalDocument doc (.or es) = .true ↔ ∃ e ∈ es, evalDocument doc e = .true := by
  rw [evalDocument, evalAny_eq, Tri.false_or, Tri.any_eq_true]
  simp

lemma evalDocument_leaf (l : LeafRef) :
    evalDocument doc (.leaf l) = evalLeaf doc l := by rw [evalDocument]

def NumberValue.val : NumberValue → Line
  | .int v => F64.ofInt v.val
  | .uint v => F64.ofInt v.val
  | .float v => v.val

def NumberValue.IsNumber : NumberValue → Prop
  | .float v => v ≠ .nan
  | _ => True

lemma mem_of_firstOf {κ β : Type*} [DecidableEq κ] {l : List (κ × β)} {name : κ} {v : β}
    (h : firstOf l name = some v) : (name, v) ∈ l := by
  obtain ⟨⟨n, w⟩, hp, rfl⟩ := Option.map_eq_some_iff.1 h
  obtain rfl : n = name := by simpa using List.find?_some hp
  exact List.mem_of_find?_eq_some hp

lemma DocColumns.isNumber_of_number {doc : DocColumns} {column : String} {v : NumberValue}
    (h : doc.number column = some v) : v.IsNumber := by
  cases v with
  | int v | uint v => trivial
  | float v =>
    have hv : doc.numeric column = some v := by
      rw [number] at h
      cases hi : doc.integer column <;> cases hu : doc.unsignedInteger column <;> simp_all
    have hfin : v.isFinite = true := doc.numerics_finite _ (mem_of_firstOf hv)
    rintro rfl
    exact absurd hfin (by decide)

lemma key_eq_of_normal {e : Edge} (he : e.Normal) : e.value.key = toLex (e.value.val, 1) := by
  obtain ⟨b, excl⟩ := e
  cases b with
  | I n | U n => rfl
  | F x =>
    obtain ⟨h₁, h₂⟩ := he
    cases x with
    | nan => exact absurd rfl h₁
    | negZero => exact absurd rfl h₂
    | _ => rfl

lemma toLex_one_lt {a b : Line} : (toLex (a, 1) : Line ×ₗ ℕ) < toLex (b, 1) ↔ a < b := by
  simp [Prod.Lex.toLex_lt_toLex]

lemma toLex_one_le {a b : Line} : (toLex (a, 1) : Line ×ₗ ℕ) ≤ toLex (b, 1) ↔ a ≤ b := by
  rw [Prod.Lex.toLex_le_toLex]
  simp only [le_refl, and_true]
  exact le_iff_lt_or_eq.symm

lemma admitsFromBelow_iff_below {e : Edge} (he : e.Normal) {v : F64} (hv : v ≠ .nan) :
    e.admitsFromBelow v = true ↔ e.Below v.val := by
  rw [e.admitsFromBelow_iff hv, key_eq_of_normal he, toLex_one_lt, toLex_one_le, Edge.Below]

lemma admitsFromAbove_iff_above {e : Edge} (he : e.Normal) {v : F64} (hv : v ≠ .nan) :
    e.admitsFromAbove v = true ↔ e.Above v.val := by
  rw [e.admitsFromAbove_iff hv, key_eq_of_normal he, toLex_one_lt, toLex_one_le, Edge.Above]

/-- **A number is in a range exactly when its value lies between the edges**, whatever domains
the number and the two bounds were written in. -/
theorem inNumberRange_iff {value : NumberValue} (hv : value.IsNumber) {min max : Option Edge}
    (hmin : ∀ e ∈ min, e.Normal) (hmax : ∀ e ∈ max, e.Normal) : inNumberRange value min max = true ↔
      (∀ e ∈ min, e.Below value.val) ∧ ∀ e ∈ max, e.Above value.val := by
  have hmin' : ∀ e ∈ min, e.value.IsNumber := fun e he => (hmin e he).1
  have hmax' : ∀ e ∈ max, e.value.IsNumber := fun e he => (hmax e he).1
  cases value with
  | int v =>
    rw [inNumberRange, Bool.and_eq_true, decide_eq_true_iff, decide_eq_true_iff]
    exact mem_intRange hmin' hmax' v
  | uint v =>
    rw [inNumberRange, Bool.and_eq_true, decide_eq_true_iff, decide_eq_true_iff]
    exact mem_uintRange hmin' hmax' v
  | float v =>
    rw [inNumberRange, admits, Bool.and_eq_true, Option.all_eq_true, Option.all_eq_true]
    refine and_congr (forall₂_congr fun e he => ?_) (forall₂_congr fun e he => ?_)
    · exact admitsFromBelow_iff_below (hmin e he) hv
    · exact admitsFromAbove_iff_above (hmax e he) hv

end ProtomoltSearch.Placement
