import ProtomoltSearch.Placement.Prune
import ProtomoltSearch.Placement.Routing

/-!
# The shard mask

Before a filtered request fans out, the coordinator leaves out the shards whose placement leaf no
passing row can live in, and drops from each other shard's tree the clauses its leaf implies
(`ShardMask::compute`, `filter_for`). A shard stores its leaf's code in the placement column of its
documents (`place_document`).

By `mask_keeps_passing` a document routed to a leaf passes the request's filter exactly when its
shard is consulted and it passes the tree sent there.
-/

namespace ProtomoltSearch.Placement

open ProtomoltSearch.Filter List

structure ShardMask where
  skipped : List Bool
  known : List ℕ
  implied : List (List ℕ)

structure ShardVerdict where
  skipped : Bool
  implied : List ℕ
  known : List ℕ

def shardVerdict (p : PlacementTree) (filter : FilterExpr) : Option I64 → ShardVerdict
  | none => ⟨false, [], []⟩
  | some code =>
    match (p.leafByCode code).bind fun leaf => impossibleUnder filter leaf.bounds with
    | some leaves => ⟨true, [], leaves⟩
    | none =>
      let leaves := ((p.leafByCode code).map fun leaf => impliedUnder filter leaf.bounds).getD []
      ⟨false, leaves, leaves⟩

/-- One shard is always consulted. -/
def keepOne (skipped : List Bool) : List Bool :=
  if !skipped.isEmpty && skipped.all id then skipped.set 0 false else skipped

namespace ShardMask

/-- The mask of a filter over the shards' codes. The source remembers the verdict of each code;
this reads it each time. -/
def compute (p : PlacementTree) (codes : List (Option I64)) (filter : FilterExpr) : ShardMask :=
  let verdicts := codes.map (shardVerdict p filter)
  { skipped := keepOne (verdicts.map (·.skipped))
    known := (verdicts.flatMap (·.known)).dedup.insertionSort (· ≤ ·)
    implied := verdicts.map (·.implied) }

/-- The tree to send to a shard; none is a request with no filter. -/
def filterFor (mask : ShardMask) (shard : ℕ) (tree : FilterExpr) : Option FilterExpr :=
  match mask.implied[shard]? with
  | some dropped => if dropped.isEmpty then some tree else withoutLeaves tree dropped
  | none => some tree

end ShardMask

/-- The placement rule of a shard, with its column and pinned leaf, on a document to be applied. -/
def placeDocument (placementColumn : Option String) (placementLeaf : Option I64)
    (doc : DocColumns) : Except Status DocColumns :=
  match placementColumn with
  | none => .ok doc
  | some column =>
    match placementLeaf, firstOf doc.integers column with
    | some code, none => .ok { doc with integers := doc.integers ++ [(column, code)] }
    | some code, some other =>
      if other ≠ code then
        .error (.invalidArgument ("placement column " ++ debug column ++ " carries code " ++
          toString other.val ++ ", but this shard serves placement leaf " ++ toString code.val ++
          " (--placement-leaf); route the document through the coordinator or send it to the " ++
          "shard that serves " ++ toString other.val))
      else .ok doc
    | none, none =>
      .error (.invalidArgument ("placement column " ++ debug column ++
        " has no value on this document and this shard pins no leaf (--placement-leaf); route " ++
        "the document through the coordinator, which evaluates the placement tree, or pin the " ++
        "leaf"))
    | none, some _ => .ok doc

def DocColumns.numberFields (doc : DocColumns) : List String :=
  doc.integers.map Prod.fst ++ doc.timestamps.map Prod.fst ++
    doc.unsignedIntegers.map Prod.fst ++ doc.numerics.map Prod.fst

section

variable {κ β : Type*} [DecidableEq κ]

lemma firstOf_eq_none {l : List (κ × β)} {name : κ} :
    firstOf l name = none ↔ name ∉ l.map Prod.fst := by
  simp only [firstOf, Option.map_eq_none_iff, find?_eq_none, mem_map, not_exists, not_and]
  exact ⟨fun h x hx hn => h x hx (by simp [hn]), fun h x hx hn => h x hx (by simpa using hn)⟩

lemma firstOf_append (l l' : List (κ × β)) (name : κ) :
    firstOf (l ++ l') name = (firstOf l name).or (firstOf l' name) := by
  rw [firstOf, find?_append, Option.map_or]
  rfl

@[simp] lemma firstOf_singleton (name : κ) (v : β) : firstOf [(name, v)] name = some v := by
  simp [firstOf]

end

variable {column : String} {code : I64} {doc stored : DocColumns}

section

variable (h : placeDocument (some column) (some code) doc = .ok stored)

include h

/-- Storing either finds the code there or adds it. -/
lemma placeDocument_cases : (stored = doc ∧ firstOf doc.integers column = some code) ∨
      (stored = { doc with integers := doc.integers ++ [(column, code)] } ∧
        firstOf doc.integers column = none) := by
  simp only [placeDocument] at h
  cases hc : firstOf doc.integers column with
  | none =>
    rw [hc] at h
    exact .inr ⟨(Except.ok.inj h).symm, rfl⟩
  | some other =>
    rw [hc] at h
    dsimp only at h
    split at h
    · exact absurd h (by simp)
    · next hne =>
      exact .inl ⟨(Except.ok.inj h).symm, by rw [not_not.1 hne]⟩

open DocColumns

lemma number_of_placeDocument : stored.number column = some (.int code) := by
  rcases placeDocument_cases h with ⟨rfl, hc⟩ | ⟨rfl, hc⟩
  · simp [number, integer, hc]
  · simp [number, integer, firstOf_append, hc]

/-- Storing changes no other number, and no number at all that was there. -/
lemma number_of_number (hnd : stored.numberFields.Nodup) {c : String} {v : NumberValue}
    (hv : doc.number c = some v) : stored.number c = some v := by
  rcases placeDocument_cases h with ⟨rfl, -⟩ | ⟨rfl, hc⟩
  · exact hv
  · by_cases hcol : c = column
    · -- the column had no value: its name is on the pushed integer alone
      subst hcol
      refine absurd hv ?_
      have hnot : c ∉ doc.timestamps.map Prod.fst ∧ c ∉ doc.unsignedIntegers.map Prod.fst ∧
          c ∉ doc.numerics.map Prod.fst := by
        simp only [numberFields, map_append, map_cons, map_nil,
          nodup_append, mem_append, mem_singleton] at hnd
        refine ⟨fun hm => ?_, fun hm => ?_, fun hm => ?_⟩
        · exact hnd.1.1.2.2 c (.inr rfl) c hm rfl
        · exact hnd.1.2.2 c (.inl (.inr rfl)) c hm rfl
        · exact hnd.2.2 c (.inl (.inl (.inr rfl))) c hm rfl
      simp [number, integer, unsignedInteger, numeric,
        hc, firstOf_eq_none.2 hnot.1, firstOf_eq_none.2 hnot.2.1, firstOf_eq_none.2 hnot.2.2]
    · have hnone : firstOf [(column, code)] c = none := firstOf_eq_none.2 (by simpa using hcol)
      rw [← hv]
      simp [number, integer, unsignedInteger, numeric, firstOf_append, hnone]

end

/-- **The bounds of a leaf hold of every document it stores.** -/
theorem Leaf.Derived.holds {levelBits : ℕ} {leaf : Leaf} (h : leaf.Derived column levelBits)
    (hown : ∀ e ∈ leaf.own, Owns doc e)
    (hstored : placeDocument (some column) (some leaf.code) doc = .ok stored)
    (hnd : stored.numberFields.Nodup) : leaf.bounds.Holds stored := by
  have hdoc :=
    ColumnBounds.holds_ofConjunction (fun e he => (hown e he).2) fun e he => (hown e he).1
  have hfacet : ∀ c, stored.facet c = doc.facet c := by
    intro c
    rcases placeDocument_cases hstored with ⟨rfl, -⟩ | ⟨rfl, -⟩ <;> rfl
  rw [h.bounds]
  refine ColumnBounds.holds_pinInt ⟨?_, ?_⟩ (number_of_placeDocument hstored)
  · intro c lo hi hc
    obtain ⟨v, hv, hbtw⟩ := hdoc.number c lo hi hc
    exact ⟨v, number_of_number hstored hnd hv, hbtw⟩
  · intro c values hc
    rw [hfacet]
    exact hdoc.facet c values hc

lemma keepOne_eq_true {skipped : List Bool} {i : ℕ} (h : (keepOne skipped)[i]? = some true) :
    skipped[i]? = some true := by
  unfold keepOne at h
  split at h
  · rw [getElem?_set] at h
    split at h
    · split at h <;> simp at h
    · exact h
  · exact h

variable {p : PlacementTree} {codes : List (Option I64)} {filter : FilterExpr} {shard : ℕ}
  {leaf : Leaf}

/-- A skipped shard's filter is impossible under its leaf. -/
lemma impossible_of_skipped (hcode : codes[shard]? = some (some code))
    (hleaf : p.leafByCode code = some leaf)
    (h : (ShardMask.compute p codes filter).skipped[shard]? = some true) :
    (impossibleUnder filter leaf.bounds).isSome = true := by
  have := keepOne_eq_true h
  rw [map_map, getElem?_map, hcode, Option.map_some, Option.some.injEq,
    Function.comp_apply, shardVerdict, hleaf, Option.bind_some] at this
  cases himp : impossibleUnder filter leaf.bounds with
  | none => simp [himp] at this
  | some _ => rfl

open ShardMask

/-- The tree sent to a shard is the request's, or leaves out the clauses its leaf implies. -/
lemma filterFor_compute (filter : FilterExpr) (hcode : codes[shard]? = some (some code))
    (hleaf : p.leafByCode code = some leaf) :
    (ShardMask.compute p codes filter).filterFor shard filter = some filter ∨
      (ShardMask.compute p codes filter).filterFor shard filter =
        withoutLeaves filter (impliedUnder filter leaf.bounds) := by
  have himplied : (compute p codes filter).implied[shard]? =
      some (shardVerdict p filter (some code)).implied := by
    show ((codes.map _).map _)[shard]? = _
    rw [map_map, getElem?_map, hcode]
    rfl
  rw [filterFor, himplied]
  dsimp only
  split
  · exact .inl rfl
  · next hne =>
    rw [shardVerdict, hleaf] at hne ⊢
    cases himp : impossibleUnder filter leaf.bounds with
    | none => exact .inr (by simp [himp])
    | some _ => simp [himp] at hne

/-- **Masking shards and thinning their filters keeps which documents pass.** A document routed to
a leaf and stored by one of its shards does not pass a filter for which the mask skips the shard;
at a shard the mask keeps, it passes the tree sent there exactly when it passes the filter. The
stored document names no number twice, which ingest checks, and the filter's bounds are numbers,
which validation checks. -/
theorem mask_keeps_passing {parse : String → Except Status FilterExpr}
    {config : PlacementTreeConfig} {p : PlacementTree} (h : validate parse config = .ok p)
    (doc : DocColumns) :
    ∃ leaf, p.evaluateColumns doc = some leaf ∧
      ∀ stored, placeDocument (some p.column) (some leaf.code) doc = .ok stored →
        stored.numberFields.Nodup →
        ∀ filter : FilterExpr, filter.NumericBounds →
        ∀ (codes : List (Option I64)) (shard : ℕ), codes[shard]? = some (some leaf.code) →
          let mask := compute p codes filter
          stored.number p.column = some (.int leaf.code) ∧
          (mask.skipped[shard]? = some true → evalDocument stored filter ≠ .true) ∧
          (mask.skipped[shard]? = some false →
            (passes stored (mask.filterFor shard filter) ↔ evalDocument stored filter = .true)) ∧
          ((mask.skipped[shard]? = some false ∧ passes stored (mask.filterFor shard filter)) ↔
            evalDocument stored filter = .true) := by
  obtain ⟨leaf, -, hroute, hleaf, hderived, hown⟩ := evaluateColumns_spec h doc
  refine ⟨leaf, hroute, fun stored hstored hnd filter hn codes shard hcode => ?_⟩
  have hholds := hderived.holds hown hstored hnd
  have hskip : (compute p codes filter).skipped[shard]? = some true →
      evalDocument stored filter ≠ .true := fun hs =>
    ne_true_of_impossibleUnder hholds hn (impossible_of_skipped hcode hleaf hs)
  have hthin : passes stored ((compute p codes filter).filterFor shard filter) ↔
      evalDocument stored filter = .true := by
    rcases filterFor_compute filter hcode hleaf with hf | hf
    · rw [hf, passes_some]
    · rw [hf, passes_withoutLeaves_iff hholds hn]
  have hlen : shard < (compute p codes filter).skipped.length := by
    obtain ⟨hlt, -⟩ := List.getElem?_eq_some_iff.1 hcode
    simp only [compute, keepOne]
    split <;> simpa using hlt
  refine ⟨number_of_placeDocument hstored, hskip, fun _ => hthin, ?_⟩
  rw [hthin, and_iff_right_iff_imp]
  intro hpass
  cases hs : (compute p codes filter).skipped[shard] with
  | false => exact List.getElem?_eq_some_iff.2 ⟨hlen, hs⟩
  | true => exact absurd hpass (hskip (List.getElem?_eq_some_iff.2 ⟨hlen, hs⟩))

/-- A tree that splits at the year 2000. -/
def sampleConfig : PlacementTreeConfig where
  column := "leaf"
  levelBits := 0
  nodes := [⟨"new", some "year >= 2000", 0, [], []⟩, ⟨"old", none, 0, [], []⟩]

def sampleDoc : DocColumns where
  facets := []
  integers := [("year", ⟨2005, by decide, by decide⟩)]
  timestamps := []
  unsignedIntegers := []
  numerics := []
  mapFacets := []
  mapNumerics := []
  mapIntegers := []
  mapUnsignedIntegers := []
  geoPoints := []
  numerics_finite := by simp

/-- A filter for years up to 1990. -/
def sampleFilter : FilterExpr :=
  .leaf (.number ⟨"year", none, some ⟨some (.int ⟨1990, by decide, by decide⟩), false⟩⟩)

theorem mask_keeps_passing_sample : ∃ p, validate sampleParse sampleConfig = .ok p ∧
      ∃ leaf, p.evaluateColumns sampleDoc = some leaf ∧
      ∃ stored, placeDocument (some p.column) (some leaf.code) sampleDoc = .ok stored ∧
        stored.numberFields.Nodup ∧ sampleFilter.NumericBounds ∧
        (ShardMask.compute p [some leaf.code, none] sampleFilter).skipped[0]? = some true ∧
        evalDocument stored sampleFilter ≠ .true := by
  have hvalid : validate sampleParse sampleConfig = .ok _ := rfl
  obtain ⟨leaf, hleaf, h⟩ := mask_keeps_passing hvalid sampleDoc
  refine ⟨_, hvalid, ?_⟩
  have hcode := (Option.some.inj (congrArg (Option.map Leaf.code) hleaf)).symm
  refine ⟨leaf, hleaf, ?_⟩
  rw [hcode] at h ⊢
  have hnum : sampleFilter.NumericBounds := numericBounds_of_validate rfl
  have hnd : (sampleDoc.numberFields ++ ["leaf"]).Nodup := by decide
  exact ⟨_, rfl, hnd, hnum, rfl, (h _ rfl hnd sampleFilter hnum [_, none] 0 rfl).2.1 rfl⟩

end ProtomoltSearch.Placement
