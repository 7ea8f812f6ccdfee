import ProtomoltSearch.Filter.Resolved

/-!
# Segment pruning from column summaries

A sealed segment records for each number column the least and greatest stored value and how many
rows carry one. `noRowCanPass` decides from the summary alone that a filter holds on no row of the
segment, so that the segment may stay unopened (`segment_prune.rs`). `Faithful` is what the seal
promises of a summary, and `noRowCanPass_sound` what pruning promises of the answer.
-/

namespace ProtomoltSearch.SegmentPrune

open ProtomoltSearch.Filter Option List

structure ColumnSummary (β : Type*) where
  name : String
  min : β
  max : β
  present : ℕ

/-- The value range a partitioned compaction gave a segment. -/
structure PartitionRange where
  column : String
  lo : I64
  hi : I64

structure SegmentSummary where
  intColumns : List (ColumnSummary I64)
  uintColumns : List (ColumnSummary U64)
  numericColumns : List (ColumnSummary F64)
  partition : Option PartitionRange

/-- The shard's column tables, by index, as the resolved filter refers to them. -/
structure ColumnNames where
  integerName : ℕ → Option String
  unsignedIntegerName : ℕ → Option String
  numericName : ℕ → Option String

variable {β : Type*} (columns : List (ColumnSummary β))

/-- The first summary of a column of the given name. -/
def findColumn (name : String) :
    Option (ColumnSummary β) :=
  columns.find? fun c => c.name = name

variable (filter : Option ResolvedFilter) (summaries : List (Option SegmentSummary))
  (summary : SegmentSummary) (names : ColumnNames)

/-- An inclusive integer predicate against the segment's range, narrowed by a partition range. -/
def intRangeImpossible (name : String) (lo hi : I64) : Bool :=
  if hi < lo then true
  else
    match findColumn summary.intColumns name with
    | none => false
    | some column =>
      if column.present = 0 then true
      else if column.max < lo || hi < column.min then true
      else
        match summary.partition with
        | some range => range.column = name && (decide (range.hi < lo) || decide (hi < range.lo))
        | none => false

/-- A double predicate against the segment's range, each end against the other edge. -/
def f64RangeImpossible (name : String) (lo hi : Option Edge) : Bool :=
  match findColumn summary.numericColumns name with
  | none => false
  | some column =>
    if column.present = 0 then true
    else if column.min.isNan || column.max.isNan || column.max.lt column.min then false
    else
      let lowerOk := lo.all fun edge => edge.admitsFromBelow column.max
      let upperOk := hi.all fun edge => edge.admitsFromAbove column.min
      !(lowerOk && upperOk)

/-- A family a presence test reads is known to be empty: its name is summarized with no value. -/
def knownEmpty (nameOf : ℕ → Option String) (index : Option ℕ) : Bool :=
  index.all fun ii => (nameOf ii).any fun name =>
    (findColumn columns name).any fun c => c.present = 0

/-- Whether no row of the segment can pass a leaf. -/
def leafImpossible : ResolvedLeaf → Bool
  | .intRange column lo hi =>
    match names.integerName column with
    | none => false
    | some name => intRangeImpossible summary name lo hi
  | .uintRange column lo hi =>
    match names.unsignedIntegerName column with
    | none => false
    | some name =>
      match findColumn summary.uintColumns name with
      | none => false
      | some range => range.present = 0 || hi < lo || range.max < lo || hi < range.min
  | .f64Range column lo hi =>
    match names.numericName column with
    | none => false
    | some name => f64RangeImpossible summary name lo hi
  | .has facet numeric integer unsignedInteger geo =>
    -- facet and geo tables are not summarized
    if facet.isSome || geo.isSome then false
    else
      let intEmpty := knownEmpty summary.intColumns names.integerName integer
      let uintEmpty := knownEmpty summary.uintColumns names.unsignedIntegerName unsignedInteger
      let numEmpty := knownEmpty summary.numericColumns names.numericName numeric
      (integer.isSome || unsignedInteger.isSome || numeric.isSome) && intEmpty && uintEmpty
        && numEmpty
  | _ => false

mutual

/-- No row of a segment described by `summary` can satisfy the filter. Nothing is pruned under a
negation. -/
def noRowCanPass (summary : SegmentSummary) (names : ColumnNames) : ResolvedFilter → Bool
  | .and children => anyImpossible summary names children
  | .or children => !children.isEmpty && allImpossible summary names children
  | .not _ => false
  | .leaf l => leafImpossible summary names l

def anyImpossible (summary : SegmentSummary) (names : ColumnNames) : List ResolvedFilter → Bool
  | [] => false
  | c :: cs => noRowCanPass summary names c || anyImpossible summary names cs

def allImpossible (summary : SegmentSummary) (names : ColumnNames) : List ResolvedFilter → Bool
  | [] => true
  | c :: cs => noRowCanPass summary names c && allImpossible summary names cs

end

/-- How many segments a request looked at and how many it ruled out. -/
structure PruneStats where
  segmentsTotal : ℕ
  segmentsSkipped : ℕ
  deriving DecidableEq

/-- One verdict per sealed segment, in catalog order. -/
def verdictsOver (enabled : Bool) : List Bool × PruneStats :=
  let verdict (summary : Option SegmentSummary) : Bool :=
    enabled && match filter, summary with
      | some filter, some summary => noRowCanPass summary names filter
      | _, _ => false
  summaries.foldl (fun (out, stats) summary =>
    let pruned := verdict summary
    (out ++ [pruned],
      ⟨stats.segmentsTotal + 1, if pruned then stats.segmentsSkipped + 1 else stats.segmentsSkipped⟩))
    ([], ⟨0, 0⟩)

/-- A column summary counts the rows that carry a value, and each such value lies in its range. -/
def Describes (le : β → β → Prop) (c : ColumnSummary β) (rows : List ℕ)
    (read : ℕ → Option β) : Prop :=
  c.present = rows.countP (fun row => (read row).isSome) ∧
    ∀ row ∈ rows, ∀ v ∈ read row, le c.min v ∧ le v c.max

/-- A summary faithful to the rows of its segment. -/
structure Faithful (summary : SegmentSummary) (names : ColumnNames) (cols : NumericRead)
    (rows : List ℕ) : Prop where
  int : ∀ ii, ∀ c ∈ summary.intColumns, names.integerName ii = some c.name →
    Describes (· ≤ ·) c rows (cols.intValue ii)
  uint : ∀ ii, ∀ c ∈ summary.uintColumns, names.unsignedIntegerName ii = some c.name →
    Describes (· ≤ ·) c rows (cols.uintValue ii)
  numeric : ∀ ni, ∀ c ∈ summary.numericColumns, names.numericName ni = some c.name →
    Describes (fun a b => a.le b = true) c rows (cols.value ni)
  partition : ∀ ii, ∀ range ∈ summary.partition, names.integerName ii = some range.column →
    ∀ row ∈ rows, ∀ v ∈ cols.intValue ii row, range.lo ≤ v ∧ v ≤ range.hi

variable {name : String} {c : ColumnSummary β} {row : ℕ} {le : β → β → Prop} {summary : SegmentSummary}
  {names : ColumnNames} {cols : NumericRead} {rows : List ℕ}

lemma findColumn_eq_some {columns : List (ColumnSummary β)}
    (h : findColumn columns name = some c) : c ∈ columns ∧ c.name = name :=
  ⟨mem_of_find?_eq_some h, by simpa using find?_some h⟩

/-- A column counted empty carries no value on any row. -/
lemma Describes.eq_none {read : ℕ → Option β} (h : Describes le c rows read) (hc : c.present = 0)
    (hrow : row ∈ rows) : read row = none := by
  have hzero := h.1.symm.trans hc
  rw [countP_eq_zero] at hzero
  simpa using hzero row hrow

lemma intRangeImpossible_sound (hf : Faithful summary names cols rows) {ii : ℕ}
    {lo hi v : I64} (hname : names.integerName ii = some name) (hrow : row ∈ rows)
    (hv : cols.intValue ii row = some v) (hi' : intRangeImpossible summary name lo hi = true) :
    ¬ (lo ≤ v ∧ v ≤ hi) := by
  rintro ⟨hlo, hhi⟩
  rw [intRangeImpossible] at hi'
  split at hi'
  · next h => exact absurd (hlo.trans hhi) (not_le.2 h)
  split at hi'
  · exact Bool.false_ne_true hi'
  · next c hc =>
    obtain ⟨hmem, rfl⟩ := findColumn_eq_some hc
    have hd := hf.int ii c hmem hname
    split at hi'
    · next h => simp [hd.eq_none h hrow] at hv
    split at hi'
    · next h =>
      obtain ⟨hmin, hmax⟩ := hd.2 row hrow v hv
      simp only [Bool.or_eq_true, decide_eq_true_eq] at h
      rcases h with h | h
      · exact absurd (hlo.trans hmax) (not_le.2 h)
      · exact absurd (hmin.trans hhi) (not_le.2 h)
    · cases hp : summary.partition with
      | none => simp [hp] at hi'
      | some range =>
        simp only [hp, Bool.and_eq_true, Bool.or_eq_true, decide_eq_true_eq] at hi'
        obtain ⟨hcol, hout⟩ := hi'
        obtain ⟨hmin, hmax⟩ := hf.partition ii range hp (by rw [hname, hcol]) row hrow v hv
        rcases hout with h | h
        · exact absurd (hlo.trans hmax) (not_le.2 h)
        · exact absurd (hmin.trans hhi) (not_le.2 h)

lemma f64RangeImpossible_sound (hf : Faithful summary names cols rows) {ni : ℕ}
    {lo hi : Option Edge} {v : F64} (hname : names.numericName ni = some name)
    (hrow : row ∈ rows) (hv : cols.value ni row = some v)
    (hi' : f64RangeImpossible summary name lo hi = true) : admits lo hi v = false := by
  rw [f64RangeImpossible] at hi'
  split at hi'
  · exact absurd hi' Bool.false_ne_true
  · next c hc =>
    obtain ⟨hmem, rfl⟩ := findColumn_eq_some hc
    have hd := hf.numeric ni c hmem hname
    split at hi'
    · next h => simp [hd.eq_none h hrow] at hv
    split at hi'
    · exact absurd hi' Bool.false_ne_true
    · obtain ⟨hmin, hmax⟩ := hd.2 row hrow v hv
      -- an edge the row's value passes is passed by the end of the range on that side
      by_contra hpass
      rw [Bool.not_eq_false, admits, Bool.and_eq_true] at hpass
      have hlower : lo.all (fun edge => edge.admitsFromBelow c.max) = true := by
        cases lo with
        | none => rfl
        | some e => exact e.admitsFromBelow_mono hmax hpass.1
      have hupper : hi.all (fun edge => edge.admitsFromAbove c.min) = true := by
        cases hi with
        | none => rfl
        | some e => exact e.admitsFromAbove_mono hmin hpass.2
      simp [hlower, hupper] at hi'

lemma knownEmpty_sound {columns : List (ColumnSummary β)}
    {nameOf : ℕ → Option String} {read : ℕ → ℕ → Option β} {index : Option ℕ}
    (hd : ∀ ii, ∀ c ∈ columns, nameOf ii = some c.name → Describes le c rows (read ii))
    (h : knownEmpty columns nameOf index = true) (hrow : row ∈ rows) :
    index.any (fun ii => (read ii row).isSome) = false := by
  cases index with
  | none => rfl
  | some ii =>
    simp only [knownEmpty, Option.all_some, Option.any_eq_true] at h
    obtain ⟨name, hname, c, hc, hp⟩ := h
    obtain ⟨hmem, rfl⟩ := findColumn_eq_some hc
    have hnone := (hd ii c hmem hname).eq_none (by simpa using hp) hrow
    simp [hnone]

/-- A leaf found impossible holds on no row. -/
lemma leafImpossible_sound (hf : Faithful summary names cols rows) {leaf : ResolvedLeaf}
    (h : leafImpossible summary names leaf = true) (hrow : row ∈ rows) :
    leaf.eval row cols ≠ .true := by
  intro htrue
  cases leaf with
  | intRange column lo hi =>
    rw [ResolvedLeaf.eval, compareValue_eq_true] at htrue
    obtain ⟨v, hv, hin⟩ := htrue
    rw [leafImpossible] at h
    split at h
    · exact Bool.false_ne_true h
    · next name hname =>
      refine intRangeImpossible_sound hf hname hrow hv h ?_
      simpa using hin
  | uintRange column lo hi =>
    rw [ResolvedLeaf.eval, compareValue_eq_true] at htrue
    obtain ⟨v, hv, hin⟩ := htrue
    simp only [Bool.and_eq_true, decide_eq_true_eq] at hin
    rw [leafImpossible] at h
    split at h
    · exact Bool.false_ne_true h
    · next name hname =>
      split at h
      · exact Bool.false_ne_true h
      · next c hc =>
        obtain ⟨hmem, rfl⟩ := findColumn_eq_some hc
        have hd := hf.uint column c hmem hname
        obtain ⟨hmin, hmax⟩ := hd.2 row hrow v hv
        simp only [Bool.or_eq_true, decide_eq_true_eq] at h
        rcases h with ((h | h) | h) | h
        · simp [hd.eq_none h hrow] at hv
        · exact absurd (hin.1.trans hin.2) (not_le.2 h)
        · exact absurd (hin.1.trans hmax) (not_le.2 h)
        · exact absurd (hmin.trans hin.2) (not_le.2 h)
  | f64Range column lo hi =>
    rw [ResolvedLeaf.eval, compareValue_eq_true] at htrue
    obtain ⟨v, hv, hin⟩ := htrue
    rw [leafImpossible] at h
    split at h
    · exact Bool.false_ne_true h
    · next name hname =>
      rw [f64RangeImpossible_sound hf hname hrow hv h] at hin
      exact Bool.false_ne_true hin
  | has facet numeric integer unsignedInteger geo =>
    rw [leafImpossible] at h
    split at h
    · exact Bool.false_ne_true h
    · next hfg =>
      simp only [Bool.or_eq_true, not_or, Bool.not_eq_true, isSome_eq_false_iff,
        isNone_iff_eq_none] at hfg
      simp only [Bool.and_eq_true] at h
      have hint := knownEmpty_sound hf.int h.1.1.2 hrow
      have huint := knownEmpty_sound hf.uint h.1.2 hrow
      have hnum := knownEmpty_sound hf.numeric h.2 hrow
      rw [ResolvedLeaf.eval, hfg.1, hfg.2, hint, huint, hnum] at htrue
      simp at htrue
  | _ => exact Bool.false_ne_true h

mutual

/-- A tree found impossible holds on no row. -/
lemma eval_ne_true_of_noRowCanPass (hf : Faithful summary names cols rows) {row : ℕ}
    (hrow : row ∈ rows) : ∀ f : ResolvedFilter, noRowCanPass summary names f = true →
      f.eval row cols ≠ .true
  | .and cs, h, htrue => by
    rw [ResolvedFilter.eval_and, Tri.all_eq_true] at htrue
    rw [noRowCanPass] at h
    obtain ⟨c, hc, hne⟩ := exists_ne_true_of_anyImpossible hf hrow cs h
    exact hne (htrue _ (mem_map_of_mem hc))
  | .or cs, h, htrue => by
    rw [ResolvedFilter.eval_or, Tri.any_eq_true] at htrue
    rw [noRowCanPass, Bool.and_eq_true] at h
    obtain ⟨v, hv, hvt⟩ := htrue
    obtain ⟨c, hc, rfl⟩ := mem_map.1 hv
    exact forall_ne_true_of_allImpossible hf hrow cs h.2 c hc hvt
  | .not _, h, _ => by
    rw [noRowCanPass] at h
    exact Bool.false_ne_true h
  | .leaf l, h, htrue => by
    rw [noRowCanPass] at h
    rw [ResolvedFilter.eval] at htrue
    exact leafImpossible_sound hf h hrow htrue

lemma exists_ne_true_of_anyImpossible (hf : Faithful summary names cols rows) {row : ℕ}
    (hrow : row ∈ rows) : ∀ cs : List ResolvedFilter, anyImpossible summary names cs = true →
      ∃ c ∈ cs, c.eval row cols ≠ .true
  | [], h => by
    rw [anyImpossible] at h
    exact absurd h Bool.false_ne_true
  | c :: cs, h => by
    rw [anyImpossible, Bool.or_eq_true] at h
    rcases h with h | h
    · exact ⟨c, by simp, eval_ne_true_of_noRowCanPass hf hrow c h⟩
    · obtain ⟨d, hd, hne⟩ := exists_ne_true_of_anyImpossible hf hrow cs h
      exact ⟨d, by simp [hd], hne⟩

lemma forall_ne_true_of_allImpossible (hf : Faithful summary names cols rows) {row : ℕ}
    (hrow : row ∈ rows) : ∀ cs : List ResolvedFilter, allImpossible summary names cs = true →
      ∀ c ∈ cs, c.eval row cols ≠ .true
  | [], _ => by simp
  | c :: cs, h => by
    rw [allImpossible, Bool.and_eq_true] at h
    rw [forall_mem_cons]
    exact ⟨eval_ne_true_of_noRowCanPass hf hrow c h.1,
      forall_ne_true_of_allImpossible hf hrow cs h.2⟩

end

/-- **Pruning is sound.** A segment found skippable has no row on which the filter evaluates to
true, and that evaluation, with its early exits, is the Kleene value of the whole tree. -/
theorem noRowCanPass_sound (filter : ResolvedFilter) (hf : Faithful summary names cols rows) :
    (noRowCanPass summary names filter = true → ∀ row ∈ rows, filter.eval row cols ≠ .true) ∧
    ∀ row, filter.eval row cols = filter.kleene row cols :=
  ⟨fun h _ hrow => eval_ne_true_of_noRowCanPass hf hrow filter h,
    fun row => ResolvedFilter.eval_eq_kleene row cols filter⟩

/-- Two rows of one signed column, the second without a value. -/
def sampleCols : NumericRead where
  facetOrd _ _ := none
  intValue _ row := if row = 0 then some ⟨7, by norm_num, by norm_num⟩ else none
  uintValue _ _ := none
  value _ _ := none
  mapFacetValueOrd _ _ _ := none
  mapValue _ _ _ := none
  mapIntValue _ _ _ := none
  mapUintValue _ _ _ := none
  geoValue _ _ := none

def sampleNames : ColumnNames := ⟨fun _ => some "year", fun _ => none, fun _ => none⟩

def sampleSummary : SegmentSummary where
  intColumns := [⟨"year", ⟨7, by norm_num, by norm_num⟩, ⟨7, by norm_num, by norm_num⟩, 1⟩]
  uintColumns := []
  numericColumns := []
  partition := some ⟨"year", ⟨0, I64.le_zero, I64.zero_lt⟩, ⟨9, by norm_num, by norm_num⟩⟩

/-- `8 <= year <= 20`. -/
def sampleFilter : ResolvedFilter :=
  .leaf (.intRange 0 ⟨8, by norm_num, by norm_num⟩ ⟨20, by norm_num, by norm_num⟩)

lemma sampleSummary_faithful : Faithful sampleSummary sampleNames sampleCols [0, 1] where
  int ii c hc _ := by
    obtain rfl : c = _ := by simpa [sampleSummary] using hc
    refine ⟨rfl, fun row hrow v hv => ?_⟩
    simp only [sampleCols, mem_def] at hv
    split at hv
    · obtain rfl : _ = v := by simpa using hv
      exact ⟨le_rfl, le_rfl⟩
    · cases hv
  uint ii c hc := by simp [sampleSummary] at hc
  numeric ni c hc := by simp [sampleSummary] at hc
  partition ii range hr _ row hrow v hv := by
    obtain rfl : _ = range := by simpa [sampleSummary] using hr
    simp only [sampleCols, mem_def] at hv
    split at hv
    · obtain rfl : _ = v := by simpa using hv
      exact ⟨by decide, by decide⟩
    · cases hv

/-- A skippable segment whose summary is faithful. -/
theorem noRowCanPass_sound_sample : noRowCanPass sampleSummary sampleNames sampleFilter = true ∧
      ∀ row ∈ [0, 1], sampleFilter.eval row sampleCols ≠ .true :=
  have h : noRowCanPass sampleSummary sampleNames sampleFilter = true := by decide
  ⟨h, (noRowCanPass_sound sampleFilter sampleSummary_faithful).1 h⟩

lemma verdictsOver_fst (names : ColumnNames) (enabled : Bool) :
    (verdictsOver filter summaries names enabled).1 = summaries.map fun summary =>
      enabled && match filter, summary with
        | some filter, some summary => noRowCanPass summary names filter
        | _, _ => false := by
  have hgen : ∀ (verdict : Option SegmentSummary → Bool) (l : List (Option SegmentSummary))
      (acc : List Bool × PruneStats), (l.foldl (fun (out, stats) summary =>
        (out ++ [verdict summary], (⟨stats.segmentsTotal + 1, if verdict summary then
          stats.segmentsSkipped + 1 else stats.segmentsSkipped⟩ : PruneStats))) acc).1 =
        acc.1 ++ l.map verdict := by
    intro verdict l
    induction l with
    | nil => simp
    | cons a l ih =>
      intro acc
      rw [foldl_cons, ih]
      simp
  exact hgen _ summaries ([], ⟨0, 0⟩)

/-- **Only segments without a passing row are pruned.** -/
theorem verdictsOver_sound {filter : ResolvedFilter} {summaries : List (Option SegmentSummary)}
    {enabled : Bool} {i : ℕ} (hfaithful : ∀ summary, summaries[i]? = some (some summary) →
      Faithful summary names cols rows)
    (hpruned : (verdictsOver (some filter) summaries names enabled).1[i]? = some true) :
    ∀ row ∈ rows, filter.eval row cols ≠ .true := by
  rw [verdictsOver_fst, getElem?_map, map_eq_some_iff] at hpruned
  obtain ⟨summary, hs, hv⟩ := hpruned
  rw [Bool.and_eq_true] at hv
  cases summary with
  | none => exact absurd hv.2 Bool.false_ne_true
  | some summary =>
    exact fun row hrow => eval_ne_true_of_noRowCanPass (hfaithful _ hs) hrow filter hv.2

end ProtomoltSearch.SegmentPrune
