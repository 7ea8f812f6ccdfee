import ProtomoltSearch.Placement.Bounds

/-!
# Filters against a placement leaf

Two questions a coordinator asks before it sends a filter to a leaf's shards (`placement.rs`): can
any row there pass (`impossibleUnder`), and which clauses hold of every row there
(`impliedUnder`), so that they may be left out of the tree (`withoutLeaves`). The walks number the
leaves in the order of `FilterExpr.walkLeaves`.

* `ne_true_of_impossibleUnder`: a filter found impossible is not true on a row of the leaf.
* `passes_withoutLeaves_iff`: leaving out the implied clauses keeps the filter's verdict.
-/

namespace ProtomoltSearch.Placement

open ProtomoltSearch.Filter List Bool FilterExpr

/-! ## The walks -/

/-- Whether two ends that are both there share no number. -/
def endsSeparated (hi lo : Option Edge) : Bool :=
  match hi, lo with
  | some hi, some lo => separated hi lo
  | _, _ => false

variable (es : List FilterExpr) (p : FacetPredicate) (kept : List FilterExpr) (filter : FilterExpr)
  (bounds : ColumnBounds)

/-- The verdict on a number leaf: its own interval is empty, or lies outside the bounds. -/
def numberImpossible (p : NumberPredicate) : Bool :=
  let min := p.min.bind edgeOf
  let max := p.max.bind edgeOf
  if endsSeparated max min then true
  else
    match bounds.numbers p.column with
    | none => false
    | some (blo, bhi) => endsSeparated max blo || endsSeparated bhi min

/-- The verdict on a leaf over a facet column whose admitted values are known. -/
def facetImpossible (column : String) (test : String → Bool) : Bool :=
  match bounds.facets column with
  | none => false
  | some admitted => !admitted.any test

/-- The verdict on a leaf. Leaves over maps, presence and geo say nothing. -/
def leafImpossible : LeafRef → Bool
  | .number p => numberImpossible bounds p
  | .facet p =>
    match bounds.facets p.column with
    | none => false
    | some admitted => !p.values.any fun v => admitted.contains v
  | .stringRange p =>
    if !p.key.isEmpty then false
    else facetImpossible bounds p.column fun v => stringInRange v p.min p.max
  | .stringPrefix p =>
    if !p.key.isEmpty then false
    else facetImpossible bounds p.column fun v => startsWith v p.prefixText
  | _ => false

mutual

/-- The walk of `impossibleUnder`: the verdict with its leaves, and the next leaf number. -/
def impossibleWalk (bounds : ColumnBounds) (next : ℕ) : FilterExpr → Option (List ℕ) × ℕ
  | .and exprs => impossibleAnd bounds next none exprs
  | .or exprs => impossibleOr bounds next [] (!exprs.isEmpty) exprs
  | .not child => (none, (impossibleWalk bounds next child).2)
  | .leaf l => (if leafImpossible bounds l then some [next] else none, next + 1)
  | .unset => (none, next)

/-- The children of a conjunction: the first verdict found. -/
def impossibleAnd (bounds : ColumnBounds) (next : ℕ) (found : Option (List ℕ)) :
    List FilterExpr → Option (List ℕ) × ℕ
  | [] => (found, next)
  | e :: es =>
    let (verdict, next) := impossibleWalk bounds next e
    impossibleAnd bounds next (if found.isNone then verdict else found) es

/-- The children of a disjunction: all verdicts together, if every child has one. -/
def impossibleOr (bounds : ColumnBounds) (next : ℕ) (all : List ℕ) (every : Bool) :
    List FilterExpr → Option (List ℕ) × ℕ
  | [] => (if every then some all else none, next)
  | e :: es =>
    match impossibleWalk bounds next e with
    | (some leaves, next) => impossibleOr bounds next (all ++ leaves) every es
    | (none, next) => impossibleOr bounds next all false es

end

/-- The leaves that show that no row under the bounds can satisfy the filter, if any do. -/
def impossibleUnder : Option (List ℕ) :=
  (impossibleWalk bounds 0 filter).1

/-- An end of a clause against the leaf's end on that side: a clause without one asks nothing, and
one the leaf does not bound is not implied. -/
def endImplied (dominates : Edge → Edge → Bool) (clause leaf : Option Edge) : Bool :=
  match clause, leaf with
  | none, _ => true
  | some _, none => false
  | some c, some l => dominates l c

/-- Whether every value in the leaf's interval satisfies a number clause. -/
def numberImplied (p : NumberPredicate) (bounds : ColumnBounds) : Bool :=
  match bounds.numbers p.column with
  | none => false
  | some (blo, bhi) =>
    let cmin := p.min.bind edgeOf
    let cmax := p.max.bind edgeOf
    if cmin.isNone && cmax.isNone then false
    else endImplied lowerDominates cmin blo && endImplied upperDominates cmax bhi

/-- Whether every value the leaf admits is one the clause lists. -/
def facetImplied : Bool :=
  match bounds.facets p.column with
  | some admitted => !admitted.isEmpty && admitted.all fun v => p.values.any fun w => w = v
  | none => false

/-- Whether a clause holds of every row under the bounds. -/
def leafImplied : LeafRef → Bool
  | .number p => numberImplied p bounds
  | .facet p => facetImplied p bounds
  | .has p => (bounds.numbers p.column).isSome || (bounds.facets p.column).isSome
  | _ => false

mutual

/-- The walk of `impliedUnder`: the next leaf number and the clauses found; only those reached
through conjunctions (`spine`) count. -/
def impliedWalk (bounds : ColumnBounds) (next : ℕ) (spine : Bool) (out : List ℕ) :
    FilterExpr → ℕ × List ℕ
  | .and exprs => impliedList bounds next spine out exprs
  | .or exprs => impliedList bounds next false out exprs
  | .not child => impliedWalk bounds next false out child
  | .leaf l => (next + 1, if spine && leafImplied bounds l then out ++ [next] else out)
  | .unset => (next, out)

def impliedList (bounds : ColumnBounds) (next : ℕ) (spine : Bool) (out : List ℕ) :
    List FilterExpr → ℕ × List ℕ
  | [] => (next, out)
  | e :: es =>
    let (next, out) := impliedWalk bounds next spine out e
    impliedList bounds next spine out es

end

/-- The clauses that hold of every row under the bounds. -/
def impliedUnder : List ℕ :=
  (impliedWalk bounds 0 true [] filter).2

mutual

/-- Advance the leaf number past every leaf. -/
def countLeaves (next : ℕ) : FilterExpr → ℕ
  | .and exprs => countLeavesList next exprs
  | .or exprs => countLeavesList next exprs
  | .not child => countLeaves next child
  | .leaf _ => next + 1
  | .unset => next

def countLeavesList (next : ℕ) : List FilterExpr → ℕ
  | [] => next
  | e :: es => countLeavesList (countLeaves next e) es

end

/-- A conjunction of what is left: none, the child itself, or a conjunction. -/
def conjunctionOf : Option FilterExpr :=
  match kept with
  | [] => none
  | [e] => some e
  | kept => some (.and kept)

mutual

/-- The walk of `withoutLeaves`: what is left of an expression, and the next leaf number. -/
def stripWalk (dropped : List ℕ) (next : ℕ) : FilterExpr → Option FilterExpr × ℕ
  | .and exprs =>
    let (kept, next) := stripList dropped next exprs
    (conjunctionOf kept, next)
  | .or exprs => (some (.or exprs), countLeaves next (.or exprs))
  | .not child => (some (.not child), countLeaves next (.not child))
  | .leaf l => (if dropped.contains next then none else some (.leaf l), next + 1)
  | .unset => (some .unset, next)

def stripList (dropped : List ℕ) (next : ℕ) : List FilterExpr → List FilterExpr × ℕ
  | [] => ([], next)
  | e :: es =>
    let (kept, next) := stripWalk dropped next e
    let (rest, next) := stripList dropped next es
    (kept.toList ++ rest, next)

end

/-- The filter with the leaves at the given numbers removed; `none` is no filter. -/
def withoutLeaves (dropped : List ℕ) : Option FilterExpr :=
  if dropped.isEmpty then some filter else (stripWalk dropped 0 filter).1

/-! ## Impossible filters -/

variable {doc : DocColumns} {bounds : ColumnBounds}

/-- Ends with a number between them are not separated. -/
lemma endsSeparated_eq_false {hi lo : Option Edge} {x : Line}
    (hhi : ∀ e ∈ hi, e.Normal ∧ e.Above x) (hlo : ∀ e ∈ lo, e.Normal ∧ e.Below x) :
    endsSeparated hi lo = false := by
  cases hi with
  | none => rfl
  | some hi =>
    cases lo with
    | none => rfl
    | some lo =>
      obtain ⟨hn, ha⟩ := hhi hi rfl
      obtain ⟨ln, hb⟩ := hlo lo rfl
      rw [← not_eq_true]
      exact fun h => not_above_below_of_separated hn ln h x ⟨hb, ha⟩

lemma ne_true_of_numberImpossible (hb : bounds.Holds doc) {p : NumberPredicate}
    (hp : (LeafRef.number p).NumericBounds) (h : numberImpossible bounds p = true) :
    evalLeaf doc (.number p) ≠ .true := by
  intro htrue
  obtain ⟨v, hv, hbtw⟩ := ColumnBounds.between_of_evalLeaf hp htrue
  rw [numberImpossible, endsSeparated_eq_false hbtw.above hbtw.below,
    if_neg Bool.false_ne_true] at h
  split at h
  · exact false_ne_true h
  · next blo bhi hn =>
    obtain ⟨w, hw, hinside⟩ := hb.number p.column blo bhi hn
    obtain rfl : w = v := by simpa [hv] using hw.symm
    rw [endsSeparated_eq_false hbtw.above hinside.below,
      endsSeparated_eq_false hinside.above hbtw.below] at h
    exact false_ne_true h

lemma not_test_of_facetImpossible (hb : bounds.Holds doc) {column v : String}
    {test : String → Bool} (h : facetImpossible bounds column test = true)
    (hv : doc.facet column = some v) : test v = false := by
  rw [facetImpossible] at h
  split at h
  · exact absurd h false_ne_true
  · next admitted ha =>
    obtain ⟨w, hw, hdw⟩ := hb.facet column admitted ha
    obtain rfl : w = v := by simpa [hv] using hdw.symm
    simp only [not_eq_true', any_eq_false] at h
    simpa using h w hw

/-- A leaf found impossible is not true on a document inside the bounds. -/
lemma ne_true_of_leafImpossible (hb : bounds.Holds doc) {l : LeafRef} (hl : l.NumericBounds)
    (h : leafImpossible bounds l = true) : evalLeaf doc l ≠ .true := by
  cases l with
  | number p => exact ne_true_of_numberImpossible hb hl h
  | facet p =>
    intro htrue
    rw [evalLeaf, compareValue_eq_true] at htrue
    obtain ⟨v, hv, hmem⟩ := htrue
    rw [leafImpossible] at h
    split at h
    · exact false_ne_true h
    · next admitted ha =>
      obtain ⟨w, hw, hdw⟩ := hb.facet p.column admitted ha
      obtain rfl : w = v := by simpa [hv] using hdw.symm
      simp only [not_eq_true', any_eq_false] at h
      exact h w (by simpa using hmem) (by simpa using hw)
  | stringRange p | stringPrefix p =>
    intro htrue
    rw [leafImpossible] at h
    split at h
    · exact false_ne_true h
    · next hk =>
      rw [evalLeaf, compareValue_eq_true, if_pos (by simpa using hk)] at htrue
      obtain ⟨v, hv, hin⟩ := htrue
      rw [not_test_of_facetImpossible hb h hv] at hin
      exact false_ne_true hin
  | _ => exact absurd h false_ne_true

mutual

/-- A verdict of impossible is right at every leaf number the walk may start from. -/
lemma ne_true_of_impossibleWalk (hb : bounds.Holds doc) : ∀ (e : FilterExpr) (next : ℕ),
    e.NumericBounds → (impossibleWalk bounds next e).1.isSome → evalDocument doc e ≠ .true
  | .unset, _, _, h | .not _, _, _, h => by simp [impossibleWalk] at h
  | .leaf l, next, hn, h => by
    rw [evalDocument_leaf]
    refine ne_true_of_leafImpossible hb (numericBounds_leaf.1 hn) ?_
    by_contra hl
    simp [impossibleWalk, hl] at h
  | .and es, next, hn, h => by
    rw [impossibleWalk] at h
    rw [Ne, evalDocument_and_eq_true]
    obtain hfound | ⟨e, he, hne⟩ :=
      exists_ne_true_of_impossibleAnd hb es next none (numericBounds_and.1 hn) h
    · exact absurd hfound false_ne_true
    · exact fun hall => hne (hall e he)
  | .or es, next, hn, h => by
    rw [impossibleWalk] at h
    rw [Ne, evalDocument_or_eq_true]
    rintro ⟨e, he, htrue⟩
    exact (forall_ne_true_of_impossibleOr hb es next [] _ (numericBounds_or.1 hn) h).2 e he htrue

lemma exists_ne_true_of_impossibleAnd (hb : bounds.Holds doc) :
    ∀ (es : List FilterExpr) (next : ℕ) (found : Option (List ℕ)), (∀ e ∈ es, e.NumericBounds) →
      (impossibleAnd bounds next found es).1.isSome →
      found.isSome = true ∨ ∃ e ∈ es, evalDocument doc e ≠ .true
  | [], _, found, _, h => .inl (by simpa [impossibleAnd] using h)
  | e :: es, next, found, hn, h => by
    rw [forall_mem_cons] at hn
    rw [impossibleAnd] at h
    rcases exists_ne_true_of_impossibleAnd hb es _ _ hn.2 h with hfound | ⟨d, hd, hne⟩
    · cases found with
      | some l => exact .inl rfl
      | none =>
        exact .inr ⟨e, by simp, ne_true_of_impossibleWalk hb e next hn.1 (by simpa using hfound)⟩
    · exact .inr ⟨d, by simp [hd], hne⟩

lemma forall_ne_true_of_impossibleOr (hb : bounds.Holds doc) :
    ∀ (es : List FilterExpr) (next : ℕ) (all : List ℕ) (every : Bool),
      (∀ e ∈ es, e.NumericBounds) → (impossibleOr bounds next all every es).1.isSome →
      every = true ∧ ∀ e ∈ es, evalDocument doc e ≠ .true
  | [], _, _, every, _, h => by
    cases every with
    | true => exact ⟨rfl, by simp⟩
    | false => simp [impossibleOr] at h
  | e :: es, next, all, every, hn, h => by
    rw [forall_mem_cons] at hn ⊢
    rw [impossibleOr] at h
    cases hw : impossibleWalk bounds next e with
    | mk verdict next' =>
      cases verdict with
      | some leaves =>
        simp only [hw] at h
        obtain ⟨hevery, hrest⟩ := forall_ne_true_of_impossibleOr hb es _ _ _ hn.2 h
        exact ⟨hevery, ne_true_of_impossibleWalk hb e next hn.1 (by rw [hw]; rfl), hrest⟩
      | none =>
        simp only [hw] at h
        exact absurd (forall_ne_true_of_impossibleOr hb es _ _ _ hn.2 h).1 false_ne_true

end

/-- A filter found impossible is not true on a row of the leaf. -/
lemma ne_true_of_impossibleUnder (hb : bounds.Holds doc) {filter : FilterExpr}
    (hn : filter.NumericBounds) (h : (impossibleUnder filter bounds).isSome) :
    evalDocument doc filter ≠ .true :=
  ne_true_of_impossibleWalk hb filter 0 hn h

/-! ## Leaf numbers -/

lemma leafCount_and : (FilterExpr.and es).leafCount = (es.map FilterExpr.leafCount).sum := by
  simp [leafCount, walkLeaves, walkLeavesList_eq, length_flatMap]
  rfl

lemma leafCount_or : (FilterExpr.or es).leafCount = (es.map FilterExpr.leafCount).sum := by
  simp [leafCount, walkLeaves, walkLeavesList_eq, length_flatMap]
  rfl

lemma leafCount_not (e : FilterExpr) : (FilterExpr.not e).leafCount = e.leafCount := by
  rw [leafCount, walkLeaves, leafCount]

lemma leafCount_leaf (l : LeafRef) : (FilterExpr.leaf l).leafCount = 1 := by
  rw [leafCount, walkLeaves, length_singleton]

lemma leafCount_unset : FilterExpr.unset.leafCount = 0 := by
  rw [leafCount, walkLeaves, length_nil]

mutual

lemma countLeaves_eq : ∀ (e : FilterExpr) (next : ℕ), countLeaves next e = next + e.leafCount
  | .and es, next => by rw [countLeaves, leafCount_and, countLeavesList_eq es]
  | .or es, next => by rw [countLeaves, leafCount_or, countLeavesList_eq es]
  | .not e, next => by rw [countLeaves, leafCount_not, countLeaves_eq e]
  | .leaf l, next => by rw [countLeaves, leafCount_leaf]
  | .unset, next => by rw [countLeaves, leafCount_unset, Nat.add_zero]

lemma countLeavesList_eq : ∀ (es : List FilterExpr) (next : ℕ),
    countLeavesList next es = next + (es.map FilterExpr.leafCount).sum
  | [], next => by rw [countLeavesList, map_nil, sum_nil, Nat.add_zero]
  | e :: es, next => by
    rw [countLeavesList, countLeaves_eq e, countLeavesList_eq es, map_cons, sum_cons, Nat.add_assoc]

end

mutual

lemma stripWalk_next (dropped : List ℕ) : ∀ (e : FilterExpr) (next : ℕ),
    (stripWalk dropped next e).2 = next + e.leafCount
  | .and es, next => by rw [stripWalk, leafCount_and]; exact stripList_next dropped es next
  | .or es, next | .not e, next => by rw [stripWalk, countLeaves_eq]
  | .leaf l, next => by rw [stripWalk, leafCount_leaf]
  | .unset, next => by rw [stripWalk, leafCount_unset, Nat.add_zero]

lemma stripList_next (dropped : List ℕ) : ∀ (es : List FilterExpr) (next : ℕ),
    (stripList dropped next es).2 = next + (es.map FilterExpr.leafCount).sum
  | [], next => by rw [stripList, map_nil, sum_nil, Nat.add_zero]
  | e :: es, next => by
    rw [stripList]
    rw [stripList_next dropped es, stripWalk_next dropped e, map_cons, sum_cons, Nat.add_assoc]

end

mutual

/-- The numbers of the implied clauses of an expression on the spine. -/
def impliedNumbers (bounds : ColumnBounds) (next : ℕ) : FilterExpr → List ℕ
  | .and exprs => impliedNumbersList bounds next exprs
  | .leaf l => if leafImplied bounds l then [next] else []
  | _ => []

def impliedNumbersList (bounds : ColumnBounds) (next : ℕ) : List FilterExpr → List ℕ
  | [] => []
  | e :: es => impliedNumbers bounds next e ++ impliedNumbersList bounds (next + e.leafCount) es

end

mutual

/-- Off the spine nothing is implied. -/
lemma impliedWalk_false (bounds : ColumnBounds) : ∀ (e : FilterExpr) (next : ℕ) (out : List ℕ),
    impliedWalk bounds next false out e = (next + e.leafCount, out)
  | .and es, next, out => by rw [impliedWalk, leafCount_and, impliedList_false bounds es]
  | .or es, next, out => by rw [impliedWalk, leafCount_or, impliedList_false bounds es]
  | .not e, next, out => by rw [impliedWalk, leafCount_not, impliedWalk_false bounds e]
  | .leaf l, next, out => by simp [impliedWalk, leafCount_leaf]
  | .unset, next, out => by rw [impliedWalk, leafCount_unset, Nat.add_zero]

lemma impliedList_false (bounds : ColumnBounds) : ∀ (es : List FilterExpr) (next : ℕ)
    (out : List ℕ), impliedList bounds next false out es =
      (next + (es.map FilterExpr.leafCount).sum, out)
  | [], next, out => by rw [impliedList, map_nil, sum_nil, Nat.add_zero]
  | e :: es, next, out => by
    rw [impliedList, impliedWalk_false bounds e]
    dsimp only
    rw [impliedList_false bounds es, map_cons, sum_cons, Nat.add_assoc]

end

mutual

lemma impliedWalk_eq (bounds : ColumnBounds) : ∀ (e : FilterExpr) (next : ℕ) (out : List ℕ),
    impliedWalk bounds next true out e = (next + e.leafCount, out ++ impliedNumbers bounds next e)
  | .and es, next, out => by
    rw [impliedWalk, leafCount_and, impliedNumbers, impliedList_eq bounds es]
  | .or es, next, out => by
    simp [impliedWalk, leafCount_or, impliedNumbers, impliedList_false bounds es]
  | .not e, next, out => by
    simp [impliedWalk, leafCount_not, impliedNumbers, impliedWalk_false bounds e]
  | .leaf l, next, out => by
    by_cases h : leafImplied bounds l <;> simp [impliedWalk, leafCount_leaf, impliedNumbers, h]
  | .unset, next, out => by simp [impliedWalk, leafCount_unset, impliedNumbers]

lemma impliedList_eq (bounds : ColumnBounds) : ∀ (es : List FilterExpr) (next : ℕ)
    (out : List ℕ), impliedList bounds next true out es =
      (next + (es.map FilterExpr.leafCount).sum, out ++ impliedNumbersList bounds next es)
  | [], next, out => by simp [impliedList, impliedNumbersList]
  | e :: es, next, out => by
    rw [impliedList, impliedWalk_eq bounds e]
    dsimp only
    rw [impliedList_eq bounds es, map_cons, sum_cons, Nat.add_assoc, impliedNumbersList,
      append_assoc]

end

mutual

lemma mem_impliedNumbers (bounds : ColumnBounds) : ∀ (e : FilterExpr) (next i : ℕ),
    i ∈ impliedNumbers bounds next e → next ≤ i ∧ i < next + e.leafCount
  | .and es, next, i, h => by
    rw [impliedNumbers] at h
    rw [leafCount_and]
    exact mem_impliedNumbersList bounds es next i h
  | .or es, next, i, h | .not e, next, i, h | .unset, next, i, h => by simp [impliedNumbers] at h
  | .leaf l, next, i, h => by
    rw [impliedNumbers] at h
    rw [leafCount_leaf]
    split at h
    · obtain rfl : i = next := by simpa using h
      omega
    · simp at h

lemma mem_impliedNumbersList (bounds : ColumnBounds) : ∀ (es : List FilterExpr) (next i : ℕ),
    i ∈ impliedNumbersList bounds next es → next ≤ i ∧ i < next + (es.map FilterExpr.leafCount).sum
  | [], next, i, h => by simp [impliedNumbersList] at h
  | e :: es, next, i, h => by
    rw [impliedNumbersList, mem_append] at h
    rw [map_cons, sum_cons]
    rcases h with h | h
    · have := mem_impliedNumbers bounds e next i h
      omega
    · have := mem_impliedNumbersList bounds es _ i h
      omega

end

/-! ## Implied clauses -/

open DocColumns

lemma eq_true_of_numberImplied (hb : bounds.Holds doc) {p : NumberPredicate}
    (hp : (LeafRef.number p).NumericBounds) (h : numberImplied p bounds = true) :
    evalLeaf doc (.number p) = .true := by
  have hmin := ColumnBounds.normal_bind_edgeOf hp.1
  have hmax := ColumnBounds.normal_bind_edgeOf hp.2
  rw [numberImplied] at h
  split at h
  · exact absurd h false_ne_true
  · next blo bhi hn =>
    obtain ⟨v, hv, hinside⟩ := hb.number p.column blo bhi hn
    dsimp only at h
    split at h
    · exact absurd h false_ne_true
    · rw [and_eq_true] at h
      rw [evalLeaf, compareValue_eq_true]
      refine ⟨v, hv, (inNumberRange_iff (isNumber_of_number hv) hmin hmax).2
        ⟨fun c hc => ?_, fun c hc => ?_⟩⟩
      · have hl := h.1
        rw [hc] at hl
        cases blo with
        | none => exact absurd hl false_ne_true
        | some l =>
          exact below_of_lowerDominates (hinside.below l rfl).1 (hmin c hc) hl
            (hinside.below l rfl).2
      · have hu := h.2
        rw [hc] at hu
        cases bhi with
        | none => exact absurd hu false_ne_true
        | some l =>
          exact above_of_upperDominates (hinside.above l rfl).1 (hmax c hc) hu
            (hinside.above l rfl).2

lemma DocColumns.has_of_number {column : String} {v : NumberValue}
    (h : doc.number column = some v) : doc.has column = true := by
  rw [number] at h
  rw [has]
  cases hi : doc.integer column <;> cases hu : doc.unsignedInteger column <;>
    cases hn : doc.numeric column <;> simp_all

/-- An implied clause is true on a document inside the bounds. -/
lemma eq_true_of_leafImplied (hb : bounds.Holds doc) {l : LeafRef} (hl : l.NumericBounds)
    (h : leafImplied bounds l = true) : evalLeaf doc l = .true := by
  cases l with
  | number p => exact eq_true_of_numberImplied hb hl h
  | facet p =>
    rw [leafImplied, facetImplied] at h
    split at h
    · next admitted ha =>
      obtain ⟨v, hv, hdv⟩ := hb.facet p.column admitted ha
      simp only [and_eq_true, all_eq_true, any_eq_true, decide_eq_true_eq] at h
      obtain ⟨w, hw, rfl⟩ := h.2 v hv
      rw [evalLeaf, compareValue_eq_true]
      exact ⟨w, hdv, by simpa using hw⟩
    · exact absurd h false_ne_true
  | has p =>
    rw [leafImplied, or_eq_true, Option.isSome_iff_exists, Option.isSome_iff_exists] at h
    rw [evalLeaf, Tri.ofBool_eq_true]
    rcases h with ⟨⟨lo, hi⟩, hn⟩ | ⟨values, hf⟩
    · obtain ⟨v, hv, -⟩ := hb.number p.column lo hi hn
      exact has_of_number hv
    · obtain ⟨v, -, hv⟩ := hb.facet p.column values hf
      simp [has, hv]
  | _ => exact absurd h false_ne_true

/-- Whether a document passes a filter, if there is one. -/
def passes (doc : DocColumns) (filter : Option FilterExpr) : Prop :=
  ∀ e ∈ filter, evalDocument doc e = .true

lemma passes_some {e : FilterExpr} : passes doc (some e) ↔ evalDocument doc e = .true := by
  simp [passes]

lemma passes_conjunctionOf :
    passes doc (conjunctionOf kept) ↔ ∀ e ∈ kept, evalDocument doc e = .true := by
  match kept with
  | [] | [e] => simp [conjunctionOf, passes]
  | e :: f :: es => rw [conjunctionOf, passes_some, evalDocument_and_eq_true] <;> simp

mutual

/-- What is left of an expression passes exactly when the expression is true, when the dropped
numbers in its range are its implied ones. -/
lemma passes_stripWalk_iff (hb : bounds.Holds doc) {dropped : List ℕ} :
    ∀ (e : FilterExpr) (next : ℕ), e.NumericBounds → (∀ i, next ≤ i → i < next + e.leafCount →
        (i ∈ dropped ↔ i ∈ impliedNumbers bounds next e)) →
      (passes doc (stripWalk dropped next e).1 ↔ evalDocument doc e = .true)
  | .and es, next, hn, hd => by
    rw [leafCount_and, impliedNumbers] at hd
    rw [stripWalk, passes_conjunctionOf, evalDocument_and_eq_true]
    exact forall_stripList_iff hb es next (numericBounds_and.1 hn) hd
  | .or es, next, _, _ | .not e, next, _, _ | .unset, next, _, _ => by rw [stripWalk, passes_some]
  | .leaf l, next, hn, hd => by
    have hnext := hd next le_rfl (by rw [leafCount_leaf]; omega)
    rw [impliedNumbers] at hnext
    rw [stripWalk]
    by_cases hl : leafImplied bounds l
    · have hmem : dropped.contains next = true := by simpa [hl] using hnext
      rw [if_pos hmem, evalDocument_leaf, eq_true_of_leafImplied hb (numericBounds_leaf.1 hn) hl]
      simp [passes]
    · have hmem : ¬ dropped.contains next = true := by simpa [hl] using hnext
      rw [if_neg hmem, passes_some]

lemma forall_stripList_iff (hb : bounds.Holds doc) {dropped : List ℕ} :
    ∀ (es : List FilterExpr) (next : ℕ), (∀ e ∈ es, e.NumericBounds) →
      (∀ i, next ≤ i → i < next + (es.map FilterExpr.leafCount).sum →
        (i ∈ dropped ↔ i ∈ impliedNumbersList bounds next es)) →
      ((∀ e ∈ (stripList dropped next es).1, evalDocument doc e = .true) ↔
        ∀ e ∈ es, evalDocument doc e = .true)
  | [], next, _, _ => by simp [stripList]
  | e :: es, next, hn, hd => by
    rw [forall_mem_cons] at hn ⊢
    rw [map_cons, sum_cons] at hd
    -- the numbers of the head and of the tail do not meet
    have hhead : ∀ i, next ≤ i → i < next + e.leafCount →
        (i ∈ dropped ↔ i ∈ impliedNumbers bounds next e) := by
      intro i h₁ h₂
      rw [hd i h₁ (by omega), impliedNumbersList, mem_append]
      refine or_iff_left fun h => ?_
      have := mem_impliedNumbersList bounds es _ i h
      omega
    have htail : ∀ i, next + e.leafCount ≤ i → i < next + e.leafCount + (es.map leafCount).sum →
        (i ∈ dropped ↔ i ∈ impliedNumbersList bounds (next + e.leafCount) es) := by
      intro i h₁ h₂
      rw [hd i (by omega) (by omega), impliedNumbersList, mem_append]
      refine or_iff_right fun h => ?_
      have := mem_impliedNumbers bounds e next i h
      omega
    rw [stripList]
    dsimp only
    rw [stripWalk_next, ← forall_stripList_iff hb es _ hn.2 htail,
      ← passes_stripWalk_iff hb e next hn.1 hhead]
    simp only [mem_append, Option.mem_toList, Option.mem_def, passes, or_imp, forall_and]

end

/-- **Leaving out the implied clauses keeps the filter's verdict.** -/
theorem passes_withoutLeaves_iff (hb : bounds.Holds doc) {filter : FilterExpr}
    (hn : filter.NumericBounds) : passes doc (withoutLeaves filter (impliedUnder filter bounds)) ↔
      evalDocument doc filter = .true := by
  rw [withoutLeaves]
  split
  · exact passes_some
  · refine passes_stripWalk_iff hb filter 0 hn fun i _ _ => ?_
    rw [impliedUnder, impliedWalk_eq, nil_append]

end ProtomoltSearch.Placement
