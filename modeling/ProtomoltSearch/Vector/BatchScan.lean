import ProtomoltSearch.Vector.Fleet

/-!
# What a batched scan returns

A scan of a batch from its first chunk to its last, with one threshold for each query that stays the
same while it runs (`chunked_topk_batch_observed`). A query's floor rises as its running list fills,
and the kernel call it shares with others is seeded with a lower one; neither shows in its answer,
which is the naive one (`chunkedTopkBatch_eq_naive`).
-/

namespace ProtomoltSearch.Vector

open TopK List

variable {V : Type}

section

variable (b : Batch V) (threshold : ℕ → Option F32)

/-- Scan chunk by chunk while there are slots left. One unit of fuel for each slot is enough. -/
def Batch.scanFrom : ℕ → ScanState → ScanState
  | 0, st => st
  | fuel + 1, st =>
    if st.start < b.index.len then scanFrom fuel (b.scanChunk threshold st) else st

/-- The running lists of the queries when the index is scanned. A NaN is no threshold. -/
def Batch.chunkedTopkBatch : List (List ChunkHit) :=
  (List.range b.queries.length).map (b.scanFrom threshold b.index.len b.begin).heaps

/-- The allowed slots of a query up to `stop` that reach its threshold. -/
def Batch.eligible (q : BatchQuery V) (floor : Option F32) (stop : ℕ) : List ChunkHit :=
  (b.index.hits q.vector (b.mask q.allow 0 stop)).filter fun h => (externalFloor floor).val ≤ h.val

/-- **The naive answer to one query alone**: of its allowed slots that reach its threshold, sorted,
the `k` best, and with `keepTies` every one that ties with the last of them. -/
def Batch.naive (q : BatchQuery V) (floor : Option F32) : List ChunkHit :=
  if q.k = 0 then [] else collected q.k q.keepTies (b.eligible q floor b.index.len)

end

section

variable {b : Batch V} {threshold : ℕ → Option F32} {st : ScanState} {q : BatchQuery V} {pos : ℕ}
  {k : ℕ} {keepTies : Bool} {l : List ChunkHit} {w : ChunkHit}

/-- Hits below the `k`-th best change nothing. -/
lemma collected_append_of_lt (hk : 0 < k) (hw : kthBest cmpRank k l = some w) {xs : List ChunkHit}
    (hxs : ∀ x ∈ xs, x.val < w.val) : collected k keepTies (l ++ xs) = collected k keepTies l := by
  cases keepTies with
  | true => exact topTies_append_of_lt ranksByScore_cmpRank hk hw hxs
  | false =>
    change topK cmpRank k (l ++ xs) = topK cmpRank k l
    rw [topK_eq_of_perm perm_append_comm]
    refine topK_append_of_isFloor ranksByScore_cmpRank fun x hx => ⟨w.val, hxs x hx, ?_⟩
    exact (isFloor_kthBest ranksByScore_cmpRank hk hw).append_left xs

/-- Dropping, of what is added, the hits below the `k`-th best so far changes nothing. -/
lemma collected_append_filter (hk : 0 < k) (hw : kthBest cmpRank k l = some w)
    (xs : List ChunkHit) :
    collected k keepTies (l ++ xs.filter fun h => w.val ≤ h.val) = collected k keepTies (l ++ xs) := by
  obtain ⟨w', hw', hle⟩ := exists_kthBest_append ranksByScore_cmpRank hk hw
    (xs.filter fun h => decide (w.val ≤ h.val))
  have hbelow : ∀ x ∈ xs.filter fun h => !decide (w.val ≤ h.val), x.val < w'.val := by
    intro x hx
    have hlt : x.val < w.val := by simpa using (mem_filter.1 hx).2
    exact hlt.trans_le hle
  rw [← collected_append_of_lt hk hw' hbelow, append_assoc]
  exact collected_eq_of_perm ((filter_append_perm _ xs).append_left l)

/-- Of the hits that reach the threshold, the floor drops only those below the `k`-th best so far. -/
lemma collected_append_queryFloor (hk : 0 < q.k) {heap : List ChunkHit} (floor : Option F32)
    (hheap : heap = collected q.k q.keepTies l) (xs : List ChunkHit) :
    collected q.k q.keepTies (l ++ xs.filter fun h => (queryFloor q heap floor).val ≤ h.val) =
      collected q.k q.keepTies (l ++ xs.filter fun h => (externalFloor floor).val ≤ h.val) := by
  unfold queryFloor
  rw [if_pos hk, hheap, getElem?_collected hk]
  cases hw : kthBest cmpRank q.k l with
  | none => rfl
  | some w =>
    have hmax : (max (externalFloor floor) w.score).val = max (externalFloor floor).val w.val :=
      Monotone.map_max fun _ _ => F32.val_mono
    refine Eq.trans ?_ (collected_append_filter hk hw _)
    rw [filter_filter]
    refine congrArg (fun ys => collected q.k q.keepTies (l ++ ys)) (filter_congr fun h _ => ?_)
    simp only [hmax, max_le_iff, Bool.decide_and]
    exact Bool.and_comm _ _

/-- The running list of a query that asks for something is that of its eligible slots so far. -/
structure Solo (b : Batch V) (q : BatchQuery V) (floor : Option F32) (pos : ℕ) (st : ScanState) :
    Prop where
  start_le : st.start ≤ b.index.len
  heap : st.heaps pos = collected q.k q.keepTies (b.eligible q floor st.start)

open Batch

lemma solo_begin (hq : b.queries[pos]? = some q) (hk : 0 < q.k) (floor : Option F32) :
    Solo b q floor pos b.begin := by
  have hle := (Counting.le_foldl_max 0).2 _
    (mem_map_of_mem (f := fun q : BatchQuery V => q.k) (mem_of_getElem? hq))
  have hstart : b.begin.start = 0 := if_neg (by omega)
  refine ⟨by omega, ?_⟩
  rw [hstart, eligible, hits_mask_zero]
  unfold collected topTies
  simp [begin, kthBest, sortBy, topK]

lemma Solo.scanChunk (hb : b.Exact) (hq : b.queries[pos]? = some q) (hk : 0 < q.k)
    (h : Solo b q (threshold pos) pos st) (hrun : st.start < b.index.len) :
    Solo b q (threshold pos) pos (b.scanChunk threshold st) := by
  have hle : st.start ≤ b.chunkEnd st.start := by
    rw [chunkEnd]
    omega
  have hscored : Scored (b.index.score q.vector) (b.eligible q (threshold pos) st.start) :=
    (scored_hits _ _ _).mono (filter_subset_self _)
  have hheap : (b.scanChunk threshold st).heaps pos = _ := (scanChunk_spec hb hq hk hscored h.heap).heap
  refine ⟨min_le_right _ _, ?_⟩
  rw [hheap, collected_append_queryFloor hk _ h.heap]
  refine collected_eq_of_perm ?_
  rw [eligible, ← filter_append]
  exact ((hits_mask_perm b q.vector q.allow hle).filter _).symm

/-- The scan comes to the end of the index. -/
lemma start_scanFrom {fuel : ℕ} (hst : st.start ≤ b.index.len)
    (hfuel : b.index.len ≤ st.start + fuel) : (b.scanFrom threshold fuel st).start = b.index.len := by
  induction fuel generalizing st with
  | zero => exact le_antisymm hst hfuel
  | succ fuel ih =>
    unfold scanFrom
    split
    · have hend : (b.scanChunk threshold st).start = b.chunkEnd st.start := rfl
      rw [chunkEnd, blockVectors] at hend
      exact ih (by omega) (by omega)
    · omega

lemma Solo.scanFrom (hb : b.Exact) (hq : b.queries[pos]? = some q) (hk : 0 < q.k) {fuel : ℕ}
    (h : Solo b q (threshold pos) pos st) :
    Solo b q (threshold pos) pos (b.scanFrom threshold fuel st) := by
  induction fuel generalizing st with
  | zero => exact h
  | succ fuel ih =>
    unfold scanFrom
    split
    · rename_i hrun
      exact ih (h.scanChunk hb hq hk hrun)
    · exact h

lemma heaps_scanFrom_of_k_eq_zero (hq : b.queries[pos]? = some q) (hk : q.k = 0) {fuel : ℕ} :
    (b.scanFrom threshold fuel st).heaps pos = st.heaps pos := by
  induction fuel generalizing st with
  | zero => rfl
  | succ fuel ih =>
    unfold scanFrom
    split
    · refine ih.trans (congrArg Prod.fst (foldl_scanGroup_view_of_notMem fun r hr hpos => ?_))
      have hr := mk_mem_zipIdx_iff_getElem?.1 ((groupByAllow_perm b.queries).mem_iff.1 hr)
      rw [hpos, hq] at hr
      exact Option.some.inj hr ▸ hk
    · rfl

end

/-- **A batched scan answers each query as if it were alone**: whatever the batch, the size of the
chunks and the thresholds, each query gets its naive answer. -/
theorem chunkedTopkBatch_eq_naive {b : Batch V} (hb : b.Exact) (threshold : ℕ → Option F32) :
    b.chunkedTopkBatch threshold = b.queries.zipIdx.map fun q => b.naive q.1 (threshold q.2) := by
  refine List.ext_getElem? fun pos => ?_
  rw [Batch.chunkedTopkBatch, getElem?_map, getElem?_map, getElem?_zipIdx]
  cases hq : b.queries[pos]? with
  | none =>
    rw [getElem?_eq_none (by simpa using getElem?_eq_none_iff.1 hq)]
    rfl
  | some q =>
    rw [getElem?_range (List.getElem?_eq_some_iff.1 hq).1]
    refine congrArg some ?_
    simp only [Nat.zero_add]
    unfold Batch.naive
    split
    · rename_i hk
      exact heaps_scanFrom_of_k_eq_zero hq hk
    · rename_i hk
      have hk : 0 < q.k := Nat.pos_of_ne_zero hk
      have hbegin := solo_begin hq hk (threshold pos)
      have hsolo : Solo b q (threshold pos) pos (b.scanFrom threshold b.index.len b.begin) :=
        hbegin.scanFrom hb hq hk
      rw [hsolo.heap, start_scanFrom hbegin.start_le (Nat.le_add_left _ _)]

/-- Two zeros, one in each chunk, tie: with ties kept both are answered. -/
theorem chunkedTopkBatch_eq_naive_twoZeros :
    let b := ((Fleet.twoZeros true).shard 0).batch
    b.chunkedTopkBatch (fun _ => none) = [[⟨0, F32.negZero⟩, ⟨32, F32.zero⟩]] ∧
      b.chunkedTopkBatch (fun _ => none) = b.queries.zipIdx.map fun q => b.naive q.1 none :=
  ⟨by decide +kernel, chunkedTopkBatch_eq_naive (Fleet.twoZeros_exact true 0 Nat.one_pos) _⟩

end ProtomoltSearch.Vector
