import ProtomoltSearch.Reshard.Segments

/-!
# A split partitions the live rows

The children of `split_logs` hold every live row exactly once, in the child its hash selects, and
their hash ranges tile the hash space; the rows do not depend on the bucket count of the logs or on
the path taken, and the segments of `split_logs_segmented` hold the same rows shard by shard.

This is so exactly when the split returns (`splitLogs_partitions_iff`). In a build that checks
overflow a split of one-bucket logs into one child panics: the lower end of its hash range is a
shift by the whole width.
-/

namespace ProtomoltSearch.Reshard

open Wal List U64

variable {F D M C : Type}

/-- **The children partition the live rows** of `rows` into `2 ^ k` hash ranges. -/
structure PartitionOf (rows : List (Row F D)) (k : ℕ) (children : List (ChildImage F D)) :
    Prop where
  length : children.length = 2 ^ k
  vectors : ∀ i c, children[i]? = some c → ∀ id v,
    (id, v) ∈ c.vectors ↔ LiveVector rows id v ∧ bucketOf id (2 ^ k) = i
  documents : ∀ i c, children[i]? = some c → ∀ id d,
    (id, d) ∈ c.documents ↔ LiveDocument rows id d ∧ bucketOf id (2 ^ k) = i
  ids : ∀ id, id ∈ (children.flatMap fun c => c.rowParentIds) ↔ LiveId rows id
  once : (children.flatMap fun c => c.rowParentIds).Nodup
  inRange : ∀ c ∈ children, ∀ id ∈ c.rowParentIds,
    c.hashLo.val ≤ (fnv1a64 id).toNat ∧ (fnv1a64 id).toNat ≤ c.hashHi.val
  tiles : ∀ hash < 2 ^ 64, ∃! i : ℕ, ∃ c : ChildImage F D, children[i]? = some c ∧
    c.hashLo.val ≤ hash ∧ hash ≤ c.hashHi.val

def SameRows (c c' : ChildImage F D) : Prop :=
  c.vectors = c'.vectors ∧ c.documents = c'.documents ∧ c.rowParentIds = c'.rowParentIds

section

variable {rows rows' : List (Row F D)} {k : ℕ} {children children' : List (ChildImage F D)}

section

variable {i : ℕ} {c : ChildImage F D} (h : ChildOf rows k i c)

include h

lemma ChildOf.mem_rowParentIds {id : U64} :
    id ∈ c.rowParentIds ↔ LiveId rows id ∧ bucketOf id (2 ^ k) = i := by
  obtain ⟨R, slotOffset, _, _, hR, -, -, rfl⟩ := h
  exact hR.mem_childOrder

/-- A hash lies in the range of the child it selects, and in no other. -/
lemma ChildOf.mem_range {hash : ℕ} :
    c.hashLo.val ≤ hash ∧ hash ≤ c.hashHi.val ↔ hash / 2 ^ (64 - k) = i := by
  obtain ⟨R, slotOffset, hashLo, hashHi, -, _, hhi, rfl⟩ := h
  have hpos : 0 < 2 ^ (64 - k) := by positivity
  rw [Nat.div_eq_iff hpos]
  simp only [imageOf]
  rw [Nat.add_mul] at hhi
  omega

end

lemma ChildrenOf.partitionOf (h : ChildrenOf rows k children) (hk : k ≤ 64) :
    PartitionOf rows k children := by
  obtain ⟨hlen, hchild⟩ := h
  have hget : ∀ i < 2 ^ k, ∃ c, children[i]? = some c := fun i hi =>
    ⟨_, getElem?_eq_getElem (hlen ▸ hi)⟩
  refine ⟨hlen, fun i c hc id v => ?_, fun i c hc id d => ?_, fun id => ?_, ?_, fun c hc id hid => ?_,
    fun hash hhash => ?_⟩
  · obtain ⟨R, slotOffset, hashLo, hashHi, hR, -, -, rfl⟩ := hchild i c hc
    exact hR.vectors id v
  · obtain ⟨R, slotOffset, hashLo, hashHi, hR, -, -, rfl⟩ := hchild i c hc
    exact mem_orderedDocuments.trans (hR.documents id d)
  · rw [mem_flatMap]
    constructor
    · rintro ⟨c, hc, hid⟩
      obtain ⟨i, hi⟩ := mem_iff_getElem?.1 hc
      exact ((hchild i c hi).mem_rowParentIds.1 hid).1
    · intro hl
      obtain ⟨c, hc⟩ := hget _ (bucketOf_lt hk)
      exact ⟨c, mem_of_getElem? hc, (hchild _ c hc).mem_rowParentIds.2 ⟨hl, rfl⟩⟩
  · refine nodup_flatMap.2 ⟨fun c hc => ?_, ?_⟩
    · obtain ⟨i, hi⟩ := mem_iff_getElem?.1 hc
      obtain ⟨R, slotOffset, hashLo, hashHi, -, -, -, rfl⟩ := hchild i c hi
      exact nodup_childOrder
    · rw [pairwise_iff_getElem]
      intro i j hi hj hij id hid hid'
      have hci := (hchild i _ (getElem?_eq_getElem hi)).mem_rowParentIds.1 hid
      have hcj := (hchild j _ (getElem?_eq_getElem hj)).mem_rowParentIds.1 hid'
      exact absurd (hci.2.symm.trans hcj.2) hij.ne
  · obtain ⟨i, hi⟩ := mem_iff_getElem?.1 hc
    have hc := hchild i c hi
    rw [hc.mem_range, ← bucketOf_two_pow hk]
    exact (hc.mem_rowParentIds.1 hid).2
  · have hlt : hash / 2 ^ (64 - k) < 2 ^ k := by
      rw [Nat.div_lt_iff_lt_mul (by positivity), two_pow_split hk]
      exact hhash
    obtain ⟨c, hc⟩ := hget _ hlt
    refine ⟨_, ⟨c, hc, (hchild _ c hc).mem_range.2 rfl⟩, ?_⟩
    rintro j ⟨c', hc', hmem⟩
    exact ((hchild j c' hc').mem_range.1 hmem).symm

/-- Children of the same live rows have the same rows. -/
lemma ChildrenOf.sameRows (h : ChildrenOf rows k children) (h' : ChildrenOf rows' k children')
    (hv : ∀ id v, LiveVector rows id v ↔ LiveVector rows' id v)
    (hd : ∀ id d, LiveDocument rows id d ↔ LiveDocument rows' id d) {i : ℕ} {c c' : ChildImage F D}
    (hc : children[i]? = some c) (hc' : children'[i]? = some c') : SameRows c c' := by
  obtain ⟨R, slotOffset, hashLo, hashHi, hR, -, -, rfl⟩ := h.2 i c hc
  obtain ⟨R', slotOffset', _, _, hR', -, -, rfl⟩ := h'.2 i c' hc'
  have heq := hR.image_eq hR' hv hd slotOffset hashLo hashHi
  have hvecs := congrArg ChildImage.vectors heq
  have hdocs := congrArg ChildImage.documents heq
  have hids := congrArg ChildImage.rowParentIds heq
  exact ⟨hvecs, hdocs, hids⟩

end

/-- A checked build reaches the next generation exactly when every log's has a next one. -/
lemma nextGeneration_returns_iff {first : Log F D M C} {logs : List (Log F D M C)} (h : first ∈ logs) :
    (∃ generation, (add true (topGeneration first logs) (wrap 1) : Outcome U64) = .ok generation) ↔
      ∀ l ∈ logs, l.generation.val + 1 < 2 ^ 64 := by
  have htop := topGeneration_lt h (b := 2 ^ 64 - 1)
  have hone : (wrap 1).val = 1 := rfl
  constructor
  · rintro ⟨generation, hok⟩ l hl
    have := htop.1 (by have := (exactly_checked_ok.1 hok).1; omega) l hl
    omega
  · intro hlogs
    have := htop.2 fun l hl => by
      have := hlogs l hl
      omega
    exact ⟨_, exactly_checked_ok.2 ⟨by omega, rfl⟩⟩

section Splits

variable [DecidableEq M] [DecidableEq C] {env : Env F D M C} {logs : List (Log F D M C)}
  {rq : Request} {k : ℕ}

/-- No overflow panics: the build does not check, or the logs do not have one bucket to be split into
one child, and the last slot offset and the next generation fit. -/
def NoPanic (env : Env F D M C) (logs : List (Log F D M C)) (rq : Request) : Prop :=
  env.checks = false ∨
    (∀ l ∈ logs, ¬(l.bucketBits = 0 ∧ rq.n = 1) ∧ l.generation.val + 1 < 2 ^ 64) ∧
      rq.slotBase.val + (rq.n - 1) * rq.slotStride.val < 2 ^ 64

/-- `split_logs` on well-formed logs: what it returns, and when. -/
lemma splitLogs_spec (hwf : WellFormed env logs) (hn : rq.n = 2 ^ k) (hk : k ≤ 63)
    (henc : Encodes env logs rq.vectorsOnly) : (∀ out, splitLogs env logs rq = .ok out →
      ChildrenOf (allRows rq.vectorsOnly logs) k out.children) ∧
    ((∃ out, splitLogs env logs rq = .ok out) ↔ NoPanic env logs rq) := by
  cases logs with
  | nil => exact absurd rfl hwf.nonempty
  | cons first tail =>
  have hfst : first ∈ first :: tail := mem_cons_self
  obtain ⟨binding, hbind⟩ := hwf.readGensBinding_returns
  have hchecks := mapM_ok fun l hl => hwf.checkLog_ok hfst hl
  obtain ⟨hspec, hret⟩ := splitChildren_spec hwf hfst hn henc hk
  have hrun : splitLogs env (first :: tail) rq =
      splitChildren env rq first (first :: tail) binding >>= fun children =>
        add env.checks (topGeneration first (first :: tail)) (wrap 1) >>= fun generation =>
        .ok ⟨generation, children⟩ := by
    simp only [splitLogs, hn, isPowerOfTwo_two_pow, Bool.not_true, refuseIf_false, ok_bind,
      hchecks, hbind]
    rfl
  rw [hrun]
  constructor
  · intro out hout
    obtain ⟨children, hchildren, generation, -, hout⟩ := bind₂_ok.1 hout
    rw [← Except.ok.inj hout]
    exact hspec children hchildren
  have hsplit {x : Outcome (List (ChildImage F D))} {y : Outcome U64} :
      (∃ out, (x >>= fun children => y >>= fun generation =>
        .ok (⟨generation, children⟩ : ReshardOutput F D)) = .ok out) ↔
        (∃ children, x = .ok children) ∧ ∃ generation, y = .ok generation := by
    simp only [bind_ok]
    constructor
    · rintro ⟨_, children, hx, generation, hy, -⟩
      exact ⟨⟨children, hx⟩, generation, hy⟩
    · rintro ⟨⟨children, hx⟩, generation, hy⟩
      exact ⟨_, children, hx, generation, hy, rfl⟩
  rw [hsplit, hret, NoPanic, hn]
  have hpos : 0 < 2 ^ k := by positivity
  have hone : 2 ^ k = 1 ↔ k = 0 := by simp
  cases hck : env.checks with
  | false => exact iff_of_true ⟨fun i _ => .inl hck, _, rfl⟩ (.inl rfl)
  | true =>
    have hbits : ∀ l ∈ first :: tail, l.bucketBits = first.bucketBits := fun l hl =>
      (hwf.uniform l hl first hfst).2.2.2
    rw [nextGeneration_returns_iff hfst]
    simp only [Computes, hck, Bool.true_eq_false, false_or, hone]
    constructor
    · rintro ⟨hchild, hgens⟩
      exact ⟨fun l hl => ⟨hbits l hl ▸ (hchild 0 hpos).1, hgens l hl⟩,
        (hchild (2 ^ k - 1) (by omega)).2⟩
    · rintro ⟨hlogs, _⟩
      refine ⟨fun i hi => ⟨(hlogs first hfst).1, ?_⟩, fun l hl => (hlogs l hl).2⟩
      have := Nat.mul_le_mul_right rq.slotStride.val (show i ≤ 2 ^ k - 1 by omega)
      omega

/-- What a split is for: `split_logs` returns a partition of the live rows, the same rows as any
other split of logs with these live rows, and `split_logs_segmented` cuts the same rows into
segments with slots of their own, whenever the slots it is given suffice. -/
structure Splits (env : Env F D M C) (logs : List (Log F D M C)) (rq : Request) (k : ℕ) : Prop where
  partition : ∃ out, splitLogs env logs rq = .ok out ∧
    PartitionOf (allRows rq.vectorsOnly logs) k out.children ∧
    ∀ (env' : Env F D M C) (logs' : List (Log F D M C)) (rq' : Request) (out' : ReshardOutput F D),
      WellFormed env' logs' → Encodes env' logs' rq'.vectorsOnly → rq'.n = rq.n →
      (∀ id v, LiveVector (allRows rq.vectorsOnly logs) id v ↔
        LiveVector (allRows rq'.vectorsOnly logs') id v) →
      (∀ id d, LiveDocument (allRows rq.vectorsOnly logs) id d ↔
        LiveDocument (allRows rq'.vectorsOnly logs') id d) →
      splitLogs env' logs' rq' = .ok out' →
      ∀ (i : ℕ) (c c' : ChildImage F D), out.children[i]? = some c → out'.children[i]? = some c' →
        SameRows c c'
  segments : ∀ out, splitLogsSegmented env logs rq = .ok out →
    SegmentsOf (allRows rq.vectorsOnly logs) k out.segments
  segmented : rq.slotStride.val ≠ 0 → Roomy rq k (allRows rq.vectorsOnly logs) →
    (∀ l ∈ logs, l.generation.val + 1 < 2 ^ 64) →
      ∃ out, splitLogsSegmented env logs rq = .ok out

/-- **A split of well-formed logs partitions their live rows exactly when no overflow check panics.** -/
theorem splitLogs_partitions_iff (env : Env F D M C) (logs : List (Log F D M C)) (rq : Request)
    (k : ℕ) (hwf : WellFormed env logs) (hn : rq.n = 2 ^ k) (hk : k ≤ 63)
    (henc : Encodes env logs rq.vectorsOnly) : Splits env logs rq k ↔ NoPanic env logs rq := by
  obtain ⟨hspec, hreturns⟩ := splitLogs_spec hwf hn hk henc
  obtain ⟨hsegments, hsegmented⟩ := splitLogsSegmented_spec hwf hn hk henc
  constructor
  · intro h
    obtain ⟨out, hout, -⟩ := h.partition
    exact hreturns.1 ⟨out, hout⟩
  · intro h
    obtain ⟨out, hout⟩ := hreturns.2 h
    refine ⟨⟨out, hout, (hspec out hout).partitionOf (hk.trans (by norm_num)), ?_⟩, hsegments,
      hsegmented⟩
    intro env' logs' rq' out' hwf' henc' hn' hv hd hout' i c c' hc hc'
    obtain ⟨hspec', -⟩ := splitLogs_spec hwf' (hn'.trans hn) hk henc'
    exact (hspec out hout).sameRows (hspec' out' hout') hv hd hc hc'

/-- A log of one added row in `2 ^ bits` buckets. -/
def oneRow (bits : ℕ) (h : bits ≤ 31) : Log Bool Bool Unit Unit where
  generation := wrap 1
  bucketBits := bits
  collection := "docs"
  dim := 1
  backendConfig := some ()
  preexistingVectors := 0
  preexistingDocuments := 0
  file bucket :=
    if bucket = bucketOf (wrap 0) (2 ^ bits) then
      [⟨1, 1, some (.addVectors (wrap 0) [true] [])⟩]
    else []
  markers := []
  bucketBits_le := h

def checkedBuild : Env Bool Bool Unit Unit where
  checks := true
  usable _ _ := true
  badBinding _ := none
  encode _ _ _ _ := none

lemma encodes_checkedBuild (logs : List (Log Bool Bool Unit Unit)) (vectorsOnly : Bool) :
    Encodes checkedBuild logs vectorsOnly := fun _ _ _ _ _ _ => rfl

lemma wellFormed_oneRow {bits : ℕ} (h : bits ≤ 31)
    (hrows : allRows false [oneRow bits h] = [Row.vector (wrap 0) [true] none]) :
    WellFormed checkedBuild [oneRow bits h] where
  nonempty := cons_ne_nil _ _
  configured := by simp [oneRow, checkedBuild]
  complete := by simp [oneRow]
  uniform := by simp
  validBindings := by simp [oneRow]
  oneBinding := by simp [oneRow]
  records := by
    intro l hl bucket _ r hr
    obtain rfl := mem_singleton.1 hl
    simp only [oneRow] at hr
    split at hr
    · rename_i hbkt
      obtain rfl := mem_singleton.1 hr
      refine ⟨hbkt.symm, one_dvd _, .inl rfl, fun i hi => ?_⟩
      obtain rfl : i = 0 := by simpa [oneRow] using hi
      exact ⟨by decide, hbkt.symm⟩
    · exact absurd hr not_mem_nil
  consistent := by
    rw [hrows]
    refine ⟨by decide, by decide, fun row hrow row' _ id k k' hk => ?_⟩
    obtain rfl := mem_singleton.1 hrow
    cases hk

def oneChild : Request := ⟨1, wrap 0, wrap 1, false⟩

theorem splitLogs_partitions_iff_twoBuckets :
    Splits checkedBuild [oneRow 1 (by norm_num)] { oneChild with n := 2 } 1 :=
  (splitLogs_partitions_iff checkedBuild [oneRow 1 (by norm_num)] { oneChild with n := 2 } 1
    (wellFormed_oneRow _ (by decide +kernel)) rfl (by norm_num) (encodes_checkedBuild _ _)).2
    (.inr ⟨by simp [oneRow, wrap], by decide⟩)

/-- **A checked build panics on a one-bucket log split into one child.** -/
theorem not_splits_oneBucket : WellFormed checkedBuild [oneRow 0 (by norm_num)] ∧
      Encodes checkedBuild [oneRow 0 (by norm_num)] oneChild.vectorsOnly ∧
      splitLogs checkedBuild [oneRow 0 (by norm_num)] oneChild = .error .panicked ∧
      ¬Splits checkedBuild [oneRow 0 (by norm_num)] oneChild 0 := by
  have hpanic : splitLogs checkedBuild [oneRow 0 (by norm_num)] oneChild = .error .panicked := by
    rfl
  refine ⟨wellFormed_oneRow _ (by decide +kernel), encodes_checkedBuild _ _, hpanic, fun h => ?_⟩
  obtain ⟨out, hout, -⟩ := h.partition
  cases hout

end Splits

end ProtomoltSearch.Reshard
