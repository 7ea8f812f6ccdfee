import ProtomoltSearch.SegmentPrune

/-!
# The allowlist of a shard

The slots of a segmented shard that a filter admits (`node.rs`). Segments the filter rules out are
skipped by their ranges, and the list is the one that asks the filter at every slot.
-/

namespace ProtomoltSearch.Allowlist

open ProtomoltSearch.SegmentPrune ProtomoltSearch.Filter List Function

/-- The sealed segments a predicate rules out on one shard, as bases and numbers of rows. -/
structure SegmentPrune where
  ranges : List (ℕ × ℕ)
  stats : PruneStats
  mask : Option (List Bool)

def pruneSegments (sealedRanges : List (ℕ × ℕ)) (summaries : List (Option SegmentSummary))
    (names : ColumnNames) (pred : Option ResolvedFilter) (enabled : Bool) : SegmentPrune :=
  let (verdicts, stats) := verdictsOver pred summaries names enabled
  { ranges := ((sealedRanges.zip verdicts).filter (·.2)).map (·.1)
    stats
    mask := if 0 < stats.segmentsSkipped then some (verdicts.map (!·)) else none }

/-- The verdicts on the slots from `start` to `stop`. -/
def fillSlots (passes allow : ℕ → Bool) (start stop : ℕ) : ℕ → Bool :=
  (range' start (stop - start)).foldl (fun allow s => update allow s (passes s)) allow

/-- One pruned range: the slots before it are filled, and the next slot is behind it. -/
def fillBefore (n : ℕ) (passes : ℕ → Bool) (st : ℕ × (ℕ → Bool)) (range : ℕ × ℕ) :
    ℕ × (ℕ → Bool) :=
  (min (min (range.1 + range.2) (2 ^ 32 - 1)) n, fillSlots passes st.2 st.1 (min range.1 n))

/-- The list of `n` slots, as a function. -/
def fillAllowlist (n : ℕ) (prune : SegmentPrune) (passes : ℕ → Bool) : ℕ → Bool :=
  let (slot, allow) := prune.ranges.foldl (fillBefore n passes) (0, fun _ => false)
  fillSlots passes allow slot n

variable {n : ℕ} {passes : ℕ → Bool}

lemma fillSlots_apply {allow : ℕ → Bool} {start stop s : ℕ} :
    fillSlots passes allow start stop s = if start ≤ s ∧ s < stop then passes s else allow s := by
  unfold fillSlots
  obtain ⟨len, hlen⟩ : ∃ len, stop - start = len := ⟨_, rfl⟩
  rw [hlen]
  induction len generalizing start allow with
  | zero =>
    rw [if_neg (by omega)]
    rfl
  | succ len ih =>
    rw [range'_succ, foldl_cons, ih (by omega), update_apply]
    grind

/-- Every slot has its verdict, or is still to be visited. -/
def Filled (n : ℕ) (passes : ℕ → Bool) (st : ℕ × (ℕ → Bool)) : Prop :=
  ∀ s < n, st.2 s = passes s ∨ st.1 ≤ s ∧ st.2 s = false

/-- No slot of the range passes. -/
def NonePass (passes : ℕ → Bool) (range : ℕ × ℕ) : Prop :=
  ∀ s ∈ range' range.1 range.2, passes s = false

lemma Filled.before {st : ℕ × (ℕ → Bool)} (h : Filled n passes st) (hn : n < 2 ^ 32)
    {range : ℕ × ℕ} (hnone : NonePass passes range) :
    Filled n passes (fillBefore n passes st range) := by
  intro s hs
  simp only [fillBefore, fillSlots_apply]
  split_ifs with hin
  · exact .inl rfl
  · rcases h s hs with hdone | ⟨hle, hopen⟩
    · exact .inl hdone
    · -- the slot is not before the range, so it is in it or behind it
      by_cases hlt : s < range.1 + range.2
      · exact .inl (hopen.trans (hnone s (mem_range'_1.2 ⟨by omega, hlt⟩)).symm)
      · exact .inr ⟨by omega, hopen⟩

lemma fillAllowlist_apply {prune : SegmentPrune} (hn : n < 2 ^ 32)
    (hnone : ∀ range ∈ prune.ranges, NonePass passes range) {s : ℕ} (hs : s < n) :
    fillAllowlist n prune passes s = passes s := by
  have hrun : Filled n passes (prune.ranges.foldl (fillBefore n passes) (0, fun _ => false)) :=
    foldlRecOn _ _ (fun s _ => .inr ⟨Nat.zero_le s, rfl⟩) fun _ h range hr =>
      h.before hn (hnone range hr)
  simp only [fillAllowlist, fillSlots_apply]
  grind [hrun s hs]

/-- **Pruning does not change the allowlist**: where the summaries are faithful to the rows of their
segments, and what passes satisfies the filter. -/
theorem fillAllowlist_pruneSegments {cols : NumericRead} {filter : ResolvedFilter}
    {sealedRanges : List (ℕ × ℕ)} {summaries : List (Option SegmentSummary)} {names : ColumnNames}
    {enabled : Bool} (hn : n < 2 ^ 32) (hpasses : ∀ s, passes s = true → filter.eval s cols = .true)
    (hfaithful : ∀ (i : ℕ) (summary : SegmentSummary) (base rows : ℕ),
      summaries[i]? = some (some summary) → sealedRanges[i]? = some (base, rows) →
        Faithful summary names cols (range' base rows)) {s : ℕ} (hs : s < n) :
    fillAllowlist n (pruneSegments sealedRanges summaries names (some filter) enabled) passes s =
      passes s := by
  refine fillAllowlist_apply hn (fun range hr s hs => ?_) hs
  obtain ⟨⟨r, pruned⟩, hmem, rfl⟩ := mem_map.1 hr
  obtain ⟨hzip, rfl : pruned = true⟩ := mem_filter.1 hmem
  obtain ⟨i, hi⟩ := mem_iff_getElem?.1 hzip
  obtain ⟨hseg, hv⟩ := getElem?_zip_eq_some.1 hi
  have hsound := verdictsOver_sound (fun summary hsum => hfaithful i summary _ _ hsum hseg) hv s hs
  by_contra hp
  exact hsound (hpasses s (by simpa using hp))

/-- A segment of two rows is skipped, and the row behind it is asked. -/
theorem fillAllowlist_pruneSegments_sample :
    let passes s := decide (sampleFilter.eval s sampleCols = .true)
    let prune := pruneSegments [(0, 2)] [some sampleSummary] sampleNames (some sampleFilter) true
    prune.ranges = [(0, 2)] ∧ fillAllowlist 3 prune passes 2 = passes 2 := by
  refine ⟨by decide, fillAllowlist_pruneSegments (by decide) (fun _ => of_decide_eq_true) ?_
    (by decide)⟩
  rintro (_ | i) summary base rows hsum hseg
  · obtain rfl : sampleSummary = summary := by simpa using hsum
    obtain ⟨rfl, rfl⟩ : 0 = base ∧ 2 = rows := by simpa using hseg
    exact sampleSummary_faithful
  · simp at hsum

end ProtomoltSearch.Allowlist
