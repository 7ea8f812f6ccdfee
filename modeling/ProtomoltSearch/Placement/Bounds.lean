import ProtomoltSearch.Placement.Document

/-!
# What a placement leaf guarantees of its rows

The predicates on the path to a leaf, taken together, bound the numbers and the facet values of
the rows stored there (`placement.rs`). `ColumnBounds` keeps the part of a conjunction that a
filter can be compared with, an interval and a value set per column, and `ColumnBounds.Holds` says
that a document lies inside.
-/

namespace ProtomoltSearch.Placement

open ProtomoltSearch.Filter

/-- Exact order of two bounds across the domains. -/
def cmpBound : NumBound → NumBound → Ordering
  | .I x, .I y => cmp x.val y.val
  | .U x, .U y => cmp x.val y.val
  | .U x, .I y => cmp (x.val : ℤ) y.val
  | .I x, .U y => cmp x.val (y.val : ℤ)
  | .F x, .U y => cmpF64U64 x y
  | .U x, .F y => (cmpF64U64 y x).swap
  | .F x, .F y => x.totalCmp y
  | .F x, .I y => cmpF64I64 x y
  | .I x, .F y => (cmpF64I64 y x).swap

/-- Whether the interval ending at `hi` lies entirely below the one starting at `lo`. -/
def separated (hi lo : Edge) : Bool :=
  match cmpBound hi.value lo.value with
  | .lt => true
  | .eq => hi.exclusive || lo.exclusive
  | .gt => false

def tighterLower (a b : Edge) : Edge :=
  match cmpBound a.value b.value with
  | .gt => a
  | .lt => b
  | .eq => if a.exclusive then a else b

def tighterUpper (a b : Edge) : Edge :=
  match cmpBound a.value b.value with
  | .lt => a
  | .gt => b
  | .eq => if a.exclusive then a else b

def mergeEdge (tighter : Edge → Edge → Edge) (current edge : Option Edge) : Option Edge :=
  match edge with
  | none => current
  | some edge => some (match current with
    | some have_ => tighter have_ edge
    | none => edge)

def mergeLower : Option Edge → Option Edge → Option Edge := mergeEdge tighterLower

def mergeUpper : Option Edge → Option Edge → Option Edge := mergeEdge tighterUpper

/-- Per column, a numeric interval and the set of admitted facet values. -/
structure ColumnBounds where
  numbers : String → Option (Option Edge × Option Edge)
  facets : String → Option (List String)

namespace ColumnBounds

def empty : ColumnBounds := ⟨fun _ => none, fun _ => none⟩

variable (b : ColumnBounds) (column : String)

def narrow (min max : Option Edge) : ColumnBounds :=
  let entry := (b.numbers column).getD (none, none)
  let narrowed := (mergeLower entry.1 min, mergeUpper entry.2 max)
  { b with numbers := Function.update b.numbers column (some narrowed) }

/-- Narrow the value set of a column. -/
def retain (values : List String) : ColumnBounds :=
  let retained := match b.facets column with
    | some have_ => have_.filter fun v => values.contains v
    | none => values
  { b with facets := Function.update b.facets column (some retained) }

mutual

/-- Add what an expression guarantees: conjunctions, number and facet leaves. -/
def absorb (b : ColumnBounds) : FilterExpr → ColumnBounds
  | .and exprs => absorbList b exprs
  | .leaf (.number p) => b.narrow p.column (p.min.bind edgeOf) (p.max.bind edgeOf)
  | .leaf (.facet p) => b.retain p.column p.values
  | _ => b

def absorbList (b : ColumnBounds) : List FilterExpr → ColumnBounds
  | [] => b
  | e :: es => absorbList (b.absorb e) es

end

/-- The bounds of expressions taken together. -/
def ofConjunction (exprs : List FilterExpr) : ColumnBounds := absorbList empty exprs

def pinInt (value : I64) : ColumnBounds :=
  b.narrow column (some ⟨.I value, false⟩) (some ⟨.I value, false⟩)

end ColumnBounds

/-- **Bounds compare as their values do.** -/
theorem cmpBound_eq {a b : Edge} (ha : a.Normal) (hb : b.Normal) :
    cmpBound a.value b.value = cmp a.value.val b.value.val := by
  have hint (x y : ℤ) : cmp x y = cmp (F64.ofInt x) (F64.ofInt y) :=
    (StrictMono.cmp_map_eq (fun _ _ => ofInt_lt.2) x y).symm
  have hkey {e : Edge} {x : F64} (he : e.Normal) (hx : e.value = .F x) :
      x ≠ .nan ∧ x.totalKey = toLex (x.val, 1) := by
    have hk := key_eq_of_normal he
    rw [hx] at hk
    exact ⟨fun h => he.1 (by rw [hx, h]), hk⟩
  cases hav : a.value with
  | I x =>
    cases hbv : b.value with
    | I y | U y => exact hint x.val y.val
    | F y =>
      rw [cmpBound, cmpF64I64_eq (hkey hb hbv).1, cmp_swap]
      rfl
  | U x =>
    cases hbv : b.value with
    | I y => exact hint x.val y.val
    | U y => exact (Int.natCast_strictMono.cmp_map_eq x.val y.val).symm.trans (hint x.val y.val)
    | F y =>
      rw [cmpBound, cmpF64U64_eq (hkey hb hbv).1, cmp_swap]
      rfl
  | F x =>
    obtain ⟨hne, hx⟩ := hkey ha hav
    cases hbv : b.value with
    | I y => exact cmpF64I64_eq hne y
    | U y => exact cmpF64U64_eq hne y
    | F y =>
      rw [cmpBound, F64.totalCmp, hx, (hkey hb hbv).2, cmp_toLex_one]
      rfl

/-- Nothing lies on both sides of separated edges. -/
lemma not_above_below_of_separated {hi lo : Edge} (hhi : hi.Normal) (hlo : lo.Normal)
    (h : separated hi lo = true) (x : Line) : ¬ (lo.Below x ∧ hi.Above x) := by
  rintro ⟨hb, ha⟩
  rw [Edge.Below] at hb
  rw [Edge.Above] at ha
  have hb' : lo.value.val ≤ x := by split at hb; exacts [hb.le, hb]
  have ha' : x ≤ hi.value.val := by split at ha; exacts [ha.le, ha]
  rw [separated, cmpBound_eq hhi hlo] at h
  cases hc : cmp hi.value.val lo.value.val with
  | lt => exact absurd (hb'.trans ha') (not_le.2 ((cmp_eq_lt_iff _ _).1 hc))
  | gt => simp [hc] at h
  | eq =>
    have heq := (cmp_eq_eq_iff _ _).1 hc
    simp only [hc, Bool.or_eq_true] at h
    rcases h with h | h
    · rw [if_pos h] at ha
      exact absurd (hb'.trans_lt ha) (by rw [heq]; exact lt_irrefl _)
    · rw [if_pos h] at hb
      exact absurd (hb.trans_le ha') (by rw [heq]; exact lt_irrefl _)

/-- Every x with `x >= l` (or `> l`) also has `x >= c` (or `> c`). -/
def lowerDominates (l c : Edge) : Bool :=
  match cmpBound l.value c.value with
  | .gt => true
  | .lt => false
  | .eq => !(c.exclusive && !l.exclusive)

/-- Every x with `x <= h` (or `< h`) also has `x <= c` (or `< c`). -/
def upperDominates (h c : Edge) : Bool :=
  match cmpBound h.value c.value with
  | .lt => true
  | .gt => false
  | .eq => !(c.exclusive && !h.exclusive)

lemma below_of_lowerDominates {l c : Edge} (hl : l.Normal) (hc : c.Normal)
    (h : lowerDominates l c = true) {x : Line} (hx : l.Below x) : c.Below x := by
  rw [Edge.Below] at hx ⊢
  have hx' : l.value.val ≤ x := by split at hx; exacts [hx.le, hx]
  rw [lowerDominates, cmpBound_eq hl hc] at h
  cases hcmp : cmp l.value.val c.value.val with
  | lt => simp [hcmp] at h
  | gt =>
    have hlt := ((cmp_eq_gt_iff _ _).1 hcmp).trans_le hx'
    split
    exacts [hlt, hlt.le]
  | eq =>
    have heq := (cmp_eq_eq_iff _ _).1 hcmp
    simp only [hcmp, Bool.not_eq_true', Bool.and_eq_false_iff, Bool.not_eq_false'] at h
    split
    · next hce =>
      have hle : l.exclusive = true := by simpa [hce] using h
      rw [if_pos hle] at hx
      rwa [← heq]
    · rwa [← heq]

lemma above_of_upperDominates {h' c : Edge} (hh : h'.Normal) (hc : c.Normal)
    (h : upperDominates h' c = true) {x : Line} (hx : h'.Above x) : c.Above x := by
  rw [Edge.Above] at hx ⊢
  have hx' : x ≤ h'.value.val := by split at hx; exacts [hx.le, hx]
  rw [upperDominates, cmpBound_eq hh hc] at h
  cases hcmp : cmp h'.value.val c.value.val with
  | gt => simp [hcmp] at h
  | lt =>
    have hlt := hx'.trans_lt ((cmp_eq_lt_iff _ _).1 hcmp)
    split
    exacts [hlt, hlt.le]
  | eq =>
    have heq := (cmp_eq_eq_iff _ _).1 hcmp
    simp only [hcmp, Bool.not_eq_true', Bool.and_eq_false_iff, Bool.not_eq_false'] at h
    split
    · next hce =>
      have hhe : h'.exclusive = true := by simpa [hce] using h
      rw [if_pos hhe] at hx
      rwa [← heq]
    · rwa [← heq]

lemma tighterLower_eq_or (a b : Edge) : tighterLower a b = a ∨ tighterLower a b = b := by
  rw [tighterLower]
  split
  · exact .inl rfl
  · exact .inr rfl
  · split
    exacts [.inl rfl, .inr rfl]

lemma tighterUpper_eq_or (a b : Edge) : tighterUpper a b = a ∨ tighterUpper a b = b := by
  rw [tighterUpper]
  split
  · exact .inl rfl
  · exact .inr rfl
  · split
    exacts [.inl rfl, .inr rfl]

/-- A merged edge is one of the two. -/
lemma forall_mem_mergeEdge {P : Edge → Prop} {tighter : Edge → Edge → Edge}
    (ht : ∀ a b, tighter a b = a ∨ tighter a b = b) {current edge : Option Edge}
    (hc : ∀ e ∈ current, P e) (he : ∀ e ∈ edge, P e) : ∀ e ∈ mergeEdge tighter current edge, P e := by
  cases edge with
  | none => exact hc
  | some edge =>
    cases current with
    | none => exact he
    | some current =>
      intro e hmem
      obtain rfl : tighter current edge = e := by simpa [mergeEdge] using hmem
      rcases ht current edge with h | h
      · rw [h]
        exact hc _ rfl
      · rw [h]
        exact he _ rfl

/-- A number between two normal edges. -/
structure Between (lo hi : Option Edge) (x : Line) : Prop where
  below : ∀ e ∈ lo, e.Normal ∧ e.Below x
  above : ∀ e ∈ hi, e.Normal ∧ e.Above x

lemma Between.merge {lo hi lo' hi' : Option Edge} {x : Line} (h : Between lo hi x)
    (h' : Between lo' hi' x) : Between (mergeLower lo lo') (mergeUpper hi hi') x :=
  ⟨forall_mem_mergeEdge tighterLower_eq_or h.below h'.below,
    forall_mem_mergeEdge tighterUpper_eq_or h.above h'.above⟩

/-- A document's numbers and facet values lie inside the bounds, and are there. -/
structure ColumnBounds.Holds (b : ColumnBounds) (doc : DocColumns) : Prop where
  number : ∀ column lo hi, b.numbers column = some (lo, hi) →
    ∃ v, doc.number column = some v ∧ Between lo hi v.val
  facet : ∀ column values, b.facets column = some values →
    ∃ v ∈ values, doc.facet column = some v

namespace ColumnBounds

lemma holds_empty (doc : DocColumns) : empty.Holds doc :=
  ⟨fun _ _ _ h => absurd h (by simp [empty]), fun _ _ h => absurd h (by simp [empty])⟩

variable {doc : DocColumns}

lemma holds_narrow {b : ColumnBounds} (h : b.Holds doc) {column : String}
    {v : NumberValue} {min max : Option Edge} (hv : doc.number column = some v)
    (hbtw : Between min max v.val) : (b.narrow column min max).Holds doc where
  number c lo hi hc := by
    by_cases hcol : c = column
    · subst hcol
      simp only [narrow, Function.update_self, Option.some.injEq, Prod.mk.injEq] at hc
      obtain ⟨rfl, rfl⟩ := hc
      refine ⟨v, hv, ?_⟩
      cases hn : b.numbers c with
      | none => exact Between.merge ⟨by simp, by simp⟩ hbtw
      | some entry =>
        obtain ⟨w, hw, hbw⟩ := h.number c entry.1 entry.2 hn
        obtain rfl : w = v := by simpa [hv] using hw.symm
        exact hbw.merge hbtw
    · simp only [narrow, Function.update_of_ne hcol] at hc
      exact h.number c lo hi hc
  facet := h.facet

lemma holds_retain {b : ColumnBounds} (h : b.Holds doc) {column v : String} {values : List String}
    (hv : doc.facet column = some v) (hmem : v ∈ values) : (b.retain column values).Holds doc where
  number := h.number
  facet c vs hc := by
    by_cases hcol : c = column
    · subst hcol
      simp only [retain, Function.update_self, Option.some.injEq] at hc
      subst hc
      refine ⟨v, ?_, hv⟩
      cases hn : b.facets c with
      | none => exact hmem
      | some have_ =>
        obtain ⟨w, hw, hdw⟩ := h.facet c have_ hn
        obtain rfl : w = v := by simpa [hv] using hdw.symm
        simpa using ⟨hw, hmem⟩
    · simp only [retain, Function.update_of_ne hcol] at hc
      exact h.facet c vs hc

lemma normal_bind_edgeOf {b : Option FilterBound} (hb : ∀ x ∈ b, x.IsNumber) :
    ∀ e ∈ b.bind edgeOf, e.Normal := by
  intro e he
  obtain ⟨x, hx, hxe⟩ := Option.bind_eq_some_iff.1 he
  exact normal_of_edgeOf (hb x hx) hxe

/-- A number leaf that holds places the document's number between its edges. -/
lemma between_of_evalLeaf {p : NumberPredicate}
    (hp : (LeafRef.number p).NumericBounds) (h : evalLeaf doc (.number p) = .true) :
    ∃ v, doc.number p.column = some v ∧ Between (p.min.bind edgeOf) (p.max.bind edgeOf) v.val := by
  rw [evalLeaf, compareValue_eq_true] at h
  obtain ⟨v, hv, hin⟩ := h
  have hmin := normal_bind_edgeOf hp.1
  have hmax := normal_bind_edgeOf hp.2
  rw [inNumberRange_iff (DocColumns.isNumber_of_number hv) hmin hmax] at hin
  exact ⟨v, hv, fun e he => ⟨hmin e he, hin.1 e he⟩, fun e he => ⟨hmax e he, hin.2 e he⟩⟩

mutual

/-- **A predicate that is true on a document keeps it inside the bounds.** -/
theorem holds_absorb : ∀ (e : FilterExpr) {b : ColumnBounds},
    b.Holds doc → e.NumericBounds → evalDocument doc e = .true → (b.absorb e).Holds doc
  | .and es, b, hb, hn, h => by
    rw [absorb]
    exact holds_absorbList es hb (FilterExpr.numericBounds_and.1 hn) (evalDocument_and_eq_true.1 h)
  | .leaf l, b, hb, hn, h => by
    rw [evalDocument_leaf] at h
    rw [FilterExpr.numericBounds_leaf] at hn
    cases l with
    | number p =>
      obtain ⟨v, hv, hbtw⟩ := between_of_evalLeaf hn h
      rw [absorb]
      exact holds_narrow hb hv hbtw
    | facet p =>
      rw [evalLeaf, compareValue_eq_true] at h
      obtain ⟨v, hv, hmem⟩ := h
      rw [absorb]
      exact holds_retain hb hv (by simpa using hmem)
    | _ => exact hb
  | .unset, b, hb, _, _ | .or _, b, hb, _, _ | .not _, b, hb, _, _ => by rwa [absorb] <;> simp

lemma holds_absorbList : ∀ (es : List FilterExpr) {b : ColumnBounds},
    b.Holds doc → (∀ e ∈ es, e.NumericBounds) → (∀ e ∈ es, evalDocument doc e = .true) →
      (b.absorbList es).Holds doc
  | [], b, hb, _, _ => by rwa [absorbList]
  | e :: es, b, hb, hn, h => by
    rw [List.forall_mem_cons] at hn h
    rw [absorbList]
    exact holds_absorbList es (holds_absorb e hb hn.1 h.1) hn.2 h.2

end

/-- The bounds of a conjunction that is true on a document hold of it. -/
lemma holds_ofConjunction {es : List FilterExpr} (hn : ∀ e ∈ es, e.NumericBounds)
    (h : ∀ e ∈ es, evalDocument doc e = .true) : (ofConjunction es).Holds doc :=
  holds_absorbList es (holds_empty doc) hn h

lemma holds_pinInt {b : ColumnBounds} (hb : b.Holds doc) {column : String}
    {value : I64} (h : doc.number column = some (.int value)) : (b.pinInt column value).Holds doc := by
  have hedge : ∀ e ∈ some (⟨.I value, false⟩ : Edge),
      e.Normal ∧ e.Below (F64.ofInt value.val) ∧ e.Above (F64.ofInt value.val) := by
    rintro e he
    obtain rfl : _ = e := by simpa using he
    exact ⟨⟨by simp, by simp⟩, le_refl (F64.ofInt value.val), le_refl (F64.ofInt value.val)⟩
  exact holds_narrow hb h ⟨fun e he => ⟨(hedge e he).1, (hedge e he).2.1⟩,
    fun e he => ⟨(hedge e he).1, (hedge e he).2.2⟩⟩

end ColumnBounds

end ProtomoltSearch.Placement
