import ProtomoltSearch.Foundations.Counting
import ProtomoltSearch.Vector.ChunkMerge

/-!
# The chunked scan

A node scans its index for a batch of queries in one pass (`chunked_topk_batch_observed`). Queries
that share an allowlist share a kernel call per chunk, seeded with the least of their floors; each
query's own floor is applied to its row afterwards. The scoring kernel is a parameter, and
`Batch.Exact` is what is assumed of it.

By `scanChunk_spec`, whatever the floors from outside and the other queries are, one chunk takes a
query's running list from the slots kept so far to those and the chunk's allowed slots at or above
its floor.
-/

namespace ProtomoltSearch.Vector

open TopK List Bool

def blockVectors : ℕ := 32

/-- The cap that caps nothing. -/
def usizeMax : ℕ := 2 ^ 64 - 1

/-- An index: its slots, numbered by 32-bit integers, and what a query vector scores on each. -/
structure VectorIndex (V : Type) where
  len : ℕ
  score : V → ℕ → F32
  len_le : len ≤ 2 ^ 32

/-- One query of a batched scan. An allowlist is named by its identity. -/
structure BatchQuery (V : Type) where
  vector : V
  k : ℕ
  keepTies : Bool
  allow : Option ℕ

/-- The arguments of a batched scan. `allowed a slot` reads the allowlist `a`, which covers every
slot; `search` is the kernel, one row of scores and slots for each vector. -/
structure Batch (V : Type) where
  index : VectorIndex V
  queries : List (BatchQuery V)
  chunkBlocks : ℕ
  allowed : ℕ → ℕ → Bool
  search : List V → ℕ → (ℕ → Bool) → F32 → List (List (F32 × ℤ))

/-- What a scan has so far: where the next chunk starts, the running list of each query, and the
floors published, with the query they are of, oldest first. -/
structure ScanState where
  start : ℕ
  heaps : ℕ → List ChunkHit
  published : List (ℕ × F32)

variable {V : Type}

section Model

variable (b : Batch V) (external : ℕ → Option F32) (start stop : ℕ) (st : ScanState)

/-- Add a query to the group of its allowlist, or open that group. -/
def addToGroup (q : BatchQuery V × ℕ) :
    List (Option ℕ × List (BatchQuery V × ℕ)) → List (Option ℕ × List (BatchQuery V × ℕ))
  | [] => [(q.1.allow, [q])]
  | (key, group) :: groups =>
    if key = q.1.allow then (key, group ++ [q]) :: groups
    else (key, group) :: addToGroup q groups

variable (queries : List (BatchQuery V))

/-- The queries, with their positions, grouped by allowlist; the order is preserved. -/
def groupByAllow : List (List (BatchQuery V × ℕ)) :=
  (queries.zipIdx.foldl (fun groups q => addToGroup q groups) []).map Prod.snd

def externalFloor : Option F32 → F32
  | some f => max F32.negInf f
  | none => F32.negInf

/-- The floor of one query at a chunk: the external one, or the `k`-th best so far. -/
def queryFloor (q : BatchQuery V) (heap : List ChunkHit) (external : Option F32) : F32 :=
  if 0 < q.k then
    match heap[q.k - 1]? with
    | some w => max (externalFloor external) w.score
    | none => externalFloor external
  else externalFloor external

def rowHits (row : List (F32 × ℤ)) : List ChunkHit :=
  row.filterMap fun e => if e.2 < 0 then none else some ⟨e.2.toNat, e.1⟩

/-- Take one query's row: drop the hits below its floor, merge the rest, publish the `k`-th best. -/
def takeRow (floor : F32) (row : List (F32 × ℤ)) (q : BatchQuery V × ℕ) (st : ScanState) :
    ScanState :=
  if q.1.k = 0 then st
  else
    let hits := (rowHits row).filter fun h => !decide (h.score.val < floor.val)
    let heap := mergeChunkHits (st.heaps q.2) hits q.1.k q.1.keepTies
    { st with
      heaps := Function.update st.heaps q.2 heap
      published := match heap[q.1.k - 1]? with
        | some w => st.published ++ [(q.2, w.score)]
        | none => st.published }

/-- The slots a group's kernel call may score: those of the chunk that its allowlist allows. -/
def Batch.mask (allow : Option ℕ) (start stop slot : ℕ) : Bool :=
  decide (start ≤ slot) && decide (slot < stop) &&
    match allow with
    | none => true
    | some a => b.allowed a slot

variable (group : List (BatchQuery V × ℕ))

/-- The kernel's quota for a group: no cap when one of its queries keeps ties. -/
def chunkK : ℕ :=
  if group.any fun q => q.1.keepTies then usizeMax
  else (group.map fun q => q.1.k).foldl max 0

/-- The floor of a query, with its position, in a state. -/
def floorOf (q : BatchQuery V × ℕ) : F32 :=
  queryFloor q.1 (st.heaps q.2) (external q.2)

/-- The floor of a group's kernel call: the least of its queries'. -/
def kernelFloor : F32 :=
  (group.map (floorOf external st)).foldl min F32.posInf

/-- Scan one chunk for one group, unless its allowlist allows nothing there. -/
def Batch.scanGroup : ScanState :=
  match group.head? with
  | none => st
  | some first =>
    let mask := b.mask first.1.allow start stop
    if first.1.allow.isSome && !(List.range stop).any mask then st
    else
      let results := b.search (group.map fun q => q.1.vector) (chunkK group) mask
        (kernelFloor external st group)
      (group.zip results).foldl (fun st' r => takeRow (floorOf external st r.1) r.2 r.1 st') st

/-- The end of the chunk that starts at `start`. -/
def Batch.chunkEnd (start : ℕ) : ℕ :=
  min (start + max b.chunkBlocks 1 * blockVectors) b.index.len

def Batch.scanChunk : ScanState :=
  let stop := b.chunkEnd st.start
  let st' := (groupByAllow b.queries).foldl (b.scanGroup external st.start stop) st
  { st' with start := stop }

/-- The state before the first chunk. A scan with nothing to find is over at once. -/
def Batch.begin : ScanState where
  start := if (b.queries.map fun q => q.k).foldl max 0 = 0 then b.index.len else 0
  heaps := fun _ => []
  published := []

/-! ## What is assumed of the kernel -/

/-- The hits of a query vector on the slots a mask leaves. -/
def VectorIndex.hits (index : VectorIndex V) (v : V) (mask : ℕ → Bool) : List ChunkHit :=
  ((List.range index.len).filter mask).map fun slot => ⟨slot, index.score v slot⟩

/-- The kernel is exact: each row holds the `k` best of the masked slots that reach the
threshold, score descending and slot ascending, and padding. -/
def Batch.Exact : Prop :=
  ∀ vectors k mask threshold, (b.search vectors k mask threshold).map rowHits =
    vectors.map fun v => topK cmpRank k
      ((b.index.hits v mask).filter fun h => threshold.val ≤ h.val)

/-- A kernel that sorts everything. -/
def VectorIndex.searchAll (index : VectorIndex V) (vectors : List V) (k : ℕ) (mask : ℕ → Bool)
    (threshold : F32) : List (List (F32 × ℤ)) :=
  vectors.map fun v => (topK cmpRank k
    ((index.hits v mask).filter fun h => threshold.val ≤ h.val)).map fun h => (h.score, (h.slot : ℤ))

lemma rowHits_map (l : List ChunkHit) : rowHits (l.map fun h => (h.score, (h.slot : ℤ))) = l := by
  induction l with
  | nil => rfl
  | cons h t ih =>
    unfold rowHits at ih ⊢
    rw [map_cons, filterMap_cons, ih]
    rfl

lemma exact_of_searchAll {b : Batch V} (h : b.search = b.index.searchAll) : b.Exact := by
  intro vectors k mask threshold
  rw [h, VectorIndex.searchAll, map_map]
  exact map_congr_left fun v _ => rowHits_map _

/-! ## The groups -/

lemma addToGroup_perm (q : BatchQuery V × ℕ) (groups : List (Option ℕ × List (BatchQuery V × ℕ))) :
    ((addToGroup q groups).map Prod.snd).flatten.Perm (q :: (groups.map Prod.snd).flatten) := by
  induction groups with
  | nil => exact List.Perm.refl _
  | cons g groups ih =>
    unfold addToGroup
    split
    · simp only [map_cons, flatten_cons, append_assoc]
      exact perm_middle
    · exact (ih.append_left g.2).trans perm_middle

def SameAllow (groups : List (Option ℕ × List (BatchQuery V × ℕ))) : Prop :=
  ∀ g ∈ groups, ∀ q ∈ g.2, q.1.allow = g.1

lemma SameAllow.addToGroup {groups : List (Option ℕ × List (BatchQuery V × ℕ))}
    (h : SameAllow groups) (q : BatchQuery V × ℕ) : SameAllow (addToGroup q groups) := by
  induction groups with
  | nil =>
    intro g hg x hx
    obtain rfl := mem_singleton.1 hg
    rw [mem_singleton.1 hx]
  | cons g groups ih =>
    have htail : SameAllow groups := fun g hg => h g (mem_cons_of_mem _ hg)
    unfold Vector.addToGroup
    split
    · rename_i hkey
      intro g' hg' x hx
      rcases mem_cons.1 hg' with rfl | hg'
      · rcases mem_append.1 hx with hx | hx
        · exact h g mem_cons_self x hx
        · rw [mem_singleton.1 hx]
          exact hkey.symm
      · exact htail g' hg' x hx
    · intro g' hg' x hx
      rcases mem_cons.1 hg' with rfl | hg'
      exacts [h g mem_cons_self x hx, ih htail g' hg' x hx]

lemma foldl_addToGroup (qs : List (BatchQuery V × ℕ))
    (groups : List (Option ℕ × List (BatchQuery V × ℕ))) (h : SameAllow groups) :
    SameAllow (qs.foldl (fun groups q => addToGroup q groups) groups) ∧
      ((qs.foldl (fun groups q => addToGroup q groups) groups).map Prod.snd).flatten.Perm
        ((groups.map Prod.snd).flatten ++ qs) := by
  induction qs generalizing groups with
  | nil => exact ⟨h, by simp⟩
  | cons q qs ih =>
    obtain ⟨hsame, hperm⟩ := ih (addToGroup q groups) (h.addToGroup q)
    refine ⟨hsame, hperm.trans ?_⟩
    exact ((addToGroup_perm q groups).append_right qs).trans perm_middle.symm

lemma groupByAllow_perm : (groupByAllow queries).flatten.Perm queries.zipIdx := by
  have h := (foldl_addToGroup queries.zipIdx [] (fun _ hg => absurd hg not_mem_nil)).2
  rwa [map_nil, flatten_nil, nil_append] at h

lemma allow_eq_of_mem_group {queries : List (BatchQuery V)} {g : List (BatchQuery V × ℕ)}
    {q q' : BatchQuery V × ℕ} (hg : g ∈ groupByAllow queries) (hq : q ∈ g) (hq' : q' ∈ g) :
    q.1.allow = q'.1.allow := by
  obtain ⟨e, he, rfl⟩ := mem_map.1 hg
  have h := (foldl_addToGroup queries.zipIdx [] (fun _ hg => absurd hg not_mem_nil)).1
  rw [h e he q hq, h e he q' hq']

lemma nodup_positions : ((groupByAllow queries).flatten.map Prod.snd).Nodup := by
  refine ((groupByAllow_perm queries).map Prod.snd).nodup_iff.2 ?_
  rw [zipIdx_map_snd]
  exact nodup_range'

/-! ## One query's share of a state -/

/-- The running list of one query and the floors published for it. -/
def ScanState.view (pos : ℕ) : List ChunkHit × List F32 :=
  (st.heaps pos, (st.published.filter fun e => e.1 = pos).map Prod.snd)

/-- What a query's share becomes when it takes hits. -/
def takeHits (q : BatchQuery V) (v : List ChunkHit × List F32) (hits : List ChunkHit) :
    List ChunkHit × List F32 :=
  let heap := mergeChunkHits v.1 hits q.k q.keepTies
  (heap, v.2 ++ (heap[q.k - 1]?.map ChunkHit.score).toList)

section

variable {floor : F32} {row : List (F32 × ℤ)} {q : BatchQuery V × ℕ} {st : ScanState}

/-- A row of another query, or of one that asks for nothing, leaves a query's share. -/
lemma takeRow_view_of_ne {pos : ℕ} (h : q.2 = pos → q.1.k = 0) :
    (takeRow floor row q st).view pos = st.view pos := by
  unfold takeRow
  split
  · rfl
  · rename_i hk
    have h : q.2 ≠ pos := fun hpos => hk (h hpos)
    refine Prod.ext ?_ ?_
    · exact Function.update_of_ne (Ne.symm h) _ _
    · simp only [ScanState.view]
      split
      · simp [h]
      · rfl

lemma takeRow_view_self (hk : 0 < q.1.k) : (takeRow floor row q st).view q.2 =
      takeHits q.1 (st.view q.2) ((rowHits row).filter fun h => floor.val ≤ h.val) := by
  have hfilt : (rowHits row).filter (fun h => !decide (h.score.val < floor.val)) =
      (rowHits row).filter fun h => floor.val ≤ h.val := by
    refine filter_congr fun h _ => ?_
    rw [Bool.eq_iff_iff, Bool.not_eq_true', decide_eq_false_iff_not, decide_eq_true_iff, not_lt]
    exact Iff.rfl
  unfold takeRow
  rw [if_neg (by omega), hfilt]
  refine Prod.ext ?_ ?_
  · exact Function.update_self _ _ _
  · simp only [ScanState.view, takeHits]
    split <;> rename_i hw <;> simp [hw]

end

lemma foldl_takeRow_view_of_notMem {floor : BatchQuery V × ℕ → F32}
    {rows : List ((BatchQuery V × ℕ) × List (F32 × ℤ))} {st : ScanState} {pos : ℕ}
    (h : ∀ r ∈ rows, r.1.2 = pos → r.1.1.k = 0) :
    (rows.foldl (fun st r => takeRow (floor r.1) r.2 r.1 st) st).view pos = st.view pos := by
  induction rows generalizing st with
  | nil => rfl
  | cons r rows ih =>
    rw [foldl_cons, ih fun r hr => h r (mem_cons_of_mem _ hr),
      takeRow_view_of_ne (h r mem_cons_self)]

end Model

/-! ## One group, one chunk -/

section

variable {b : Batch V} {external : ℕ → Option F32} {start stop : ℕ} {st : ScanState}

variable {group : List (BatchQuery V × ℕ)}

lemma scanGroup_view_of_notMem {pos : ℕ} (h : ∀ q ∈ group, q.2 = pos → q.1.k = 0) :
    (b.scanGroup external start stop st group).view pos = st.view pos := by
  unfold Batch.scanGroup
  split
  · rfl
  dsimp only
  split
  · rfl
  refine foldl_takeRow_view_of_notMem fun r hr => h r.1 (of_mem_zip hr).1

lemma foldl_scanGroup_view_of_notMem {groups : List (List (BatchQuery V × ℕ))} {pos : ℕ}
    (h : ∀ q ∈ groups.flatten, q.2 = pos → q.1.k = 0) :
    (groups.foldl (b.scanGroup external start stop) st).view pos = st.view pos := by
  induction groups generalizing st with
  | nil => rfl
  | cons g groups ih =>
    rw [foldl_cons, ih fun q hq => h q (mem_append_right _ hq)]
    exact scanGroup_view_of_notMem fun q hq => h q (mem_append_left _ hq)

variable {q : BatchQuery V × ℕ}

/-- Each query of a group takes its own row, once. -/
lemma foldl_takeRow_view {floor : BatchQuery V × ℕ → F32}
    {rows : List ((BatchQuery V × ℕ) × List (F32 × ℤ))}
    {row : List (F32 × ℤ)} (hn : (rows.map fun r => r.1.2).Nodup) (hr : (q, row) ∈ rows)
    (hk : 0 < q.1.k) : (rows.foldl (fun st r => takeRow (floor r.1) r.2 r.1 st) st).view q.2 =
      takeHits q.1 (st.view q.2) ((rowHits row).filter fun h => (floor q).val ≤ h.val) := by
  obtain ⟨before, after, rfl⟩ := append_of_mem hr
  rw [map_append, map_cons, nodup_append, nodup_cons] at hn
  have hbef : ∀ r ∈ before, r.1.2 = q.2 → r.1.1.k = 0 := fun r hr h =>
    absurd h (hn.2.2 r.1.2 (mem_map_of_mem hr) q.2 (by simp))
  have haft : ∀ r ∈ after, r.1.2 = q.2 → r.1.1.k = 0 := fun r hr h =>
    absurd (h ▸ mem_map_of_mem hr) hn.2.1.1
  rw [foldl_append]
  refine (foldl_takeRow_view_of_notMem haft).trans ?_
  refine (takeRow_view_self hk).trans ?_
  exact congrArg (takeHits q.1 · _) (foldl_takeRow_view_of_notMem hbef)

lemma foldl_min_le {l : List F32} (init : F32) :
    l.foldl min init ≤ init ∧ ∀ f ∈ l, l.foldl min init ≤ f := by
  induction l generalizing init with
  | nil => exact ⟨le_rfl, by simp⟩
  | cons a l ih =>
    obtain ⟨hinit, hall⟩ := ih (min init a)
    refine ⟨hinit.trans (min_le_left _ _), fun f hf => ?_⟩
    rcases mem_cons.1 hf with rfl | hf
    exacts [hinit.trans (min_le_right _ _), hall f hf]

section

variable (index : VectorIndex V) (v : V) (mask : ℕ → Bool)

lemma scored_hits : Scored (index.score v) (index.hits v mask) := by
  intro h hh
  obtain ⟨slot, -, rfl⟩ := mem_map.1 hh
  rfl

lemma length_hits_le : (index.hits v mask).length ≤ 2 ^ 32 := by
  rw [VectorIndex.hits, length_map]
  exact (length_filter_le _ _).trans (by simpa using index.len_le)

end

/-- The next chunk's candidates follow those before it. -/
lemma hits_mask_perm (b : Batch V) (v : V) (allow : Option ℕ) (h : start ≤ stop) :
    (b.index.hits v (b.mask allow 0 stop)).Perm
      (b.index.hits v (b.mask allow 0 start) ++ b.index.hits v (b.mask allow start stop)) := by
  unfold VectorIndex.hits
  rw [← map_append]
  refine List.Perm.map _ ?_
  have hsplit := filter_append_perm (fun slot => decide (slot < start))
    ((List.range b.index.len).filter (b.mask allow 0 stop))
  rw [filter_filter, filter_filter] at hsplit
  refine hsplit.symm.trans (List.Perm.of_eq (congrArg₂ (· ++ ·) ?_ ?_)) <;>
  · refine filter_congr fun slot _ => ?_
    rw [Bool.eq_iff_iff]
    simp only [Batch.mask, Bool.and_eq_true, decide_eq_true_iff, Bool.not_eq_true',
      decide_eq_false_iff_not]
    constructor
    · rintro ⟨h₁, ⟨h₂, h₃⟩, h₄⟩
      exact ⟨⟨by omega, by omega⟩, h₄⟩
    · rintro ⟨⟨h₁, h₂⟩, h₃⟩
      exact ⟨by omega, ⟨by omega, by omega⟩, h₃⟩

lemma hits_mask_zero (b : Batch V) (v : V) (allow : Option ℕ) :
    b.index.hits v (b.mask allow 0 0) = [] := by
  rw [VectorIndex.hits, map_eq_nil_iff, filter_eq_nil_iff]
  intro slot _ h
  simp [Batch.mask] at h

/-- The kernel's quota for the group does not show in one query's running list. -/
lemma collected_append_topK_chunkK
    (hq : q ∈ group) {l xs : List ChunkHit} (hxs : xs.length ≤ 2 ^ 32) :
    collected q.1.k q.1.keepTies (l ++ topK cmpRank (chunkK group) xs) =
      collected q.1.k q.1.keepTies (l ++ xs) := by
  unfold chunkK
  split
  · have hall : topK cmpRank usizeMax xs = sortBy cmpRank xs :=
      topK_of_length_le (hxs.trans (by unfold usizeMax; norm_num))
    rw [hall]
    exact collected_eq_of_perm (List.Perm.append_left l (sortBy_perm xs))
  · rename_i hties
    have hno : q.1.keepTies = false := by
      rw [any_eq_true] at hties
      by_contra h
      exact hties ⟨q, hq, by simpa using h⟩
    have hle : q.1.k ≤ (group.map fun q => q.1.k).foldl max 0 :=
      (Counting.le_foldl_max 0).2 q.1.k (mem_map_of_mem hq)
    rw [hno]
    change topK cmpRank q.1.k _ = topK cmpRank q.1.k _
    rw [← topK_append_topK, topK_topK_of_le hle, topK_append_topK]

/-- What a chunk does for a query: its allowed hits at or above the floor are kept with the others,
and the floors published are `k`-th best scores of what is kept. -/
structure Advanced (q : BatchQuery V) (kept new : List ChunkHit)
    (v v' : List ChunkHit × List F32) : Prop where
  heap : v'.1 = collected q.k q.keepTies (kept ++ new)
  floors : ∀ f ∈ v'.2, f ∈ v.2 ∨ ∃ w, kthBest cmpRank q.k (kept ++ new) = some w ∧ f = w.score

lemma takeHits_advanced {q : BatchQuery V} {kept hits new : List ChunkHit}
    {score : ℕ → F32} {v : List ChunkHit × List F32} (hk : 0 < q.k)
    (hs : Scored score (kept ++ hits)) (hv : v.1 = collected q.k q.keepTies kept)
    (hnew : collected q.k q.keepTies (kept ++ hits) = collected q.k q.keepTies (kept ++ new)) :
    Advanced q kept new v (takeHits q v hits) := by
  have hheap : (takeHits q v hits).1 = collected q.k q.keepTies (kept ++ new) := by
    rw [← hnew, ← mergeChunkHits_spec hk hs, ← hv]
    rfl
  refine ⟨hheap, fun f hf => ?_⟩
  have hf' : f ∈ v.2 ++ ((takeHits q v hits).1[q.k - 1]?.map ChunkHit.score).toList := hf
  rw [hheap, getElem?_collected hk, mem_append] at hf'
  refine hf'.imp_right fun hf => ?_
  obtain ⟨w, hw, rfl⟩ := Option.map_eq_some_iff.1 (Option.mem_toList.1 hf)
  exact ⟨w, hw, rfl⟩

/-- The hits a query keeps of its row. -/
lemma filter_row (hq : q ∈ group) (l : List ChunkHit) : (topK cmpRank (chunkK group)
        (l.filter fun h => (kernelFloor external st group).val ≤ h.val)).filter
        (fun h => (floorOf external st q).val ≤ h.val) =
      topK cmpRank (chunkK group) (l.filter fun h => (floorOf external st q).val ≤ h.val) := by
  have hle : (kernelFloor external st group).val ≤ (floorOf external st q).val :=
    F32.val_mono ((foldl_min_le F32.posInf).2 _ (mem_map_of_mem hq))
  rw [filter_topK ranksByScore_cmpRank, filter_filter]
  refine congrArg _ (filter_congr fun h _ => ?_)
  rw [and_eq_left_iff_imp, decide_eq_true_iff, decide_eq_true_iff]
  exact fun h => hle.trans h

lemma scanGroup_spec (hb : b.Exact) {kept : List ChunkHit}
    (hsame : ∀ q' ∈ group, q'.1.allow = q.1.allow) (hn : (group.map Prod.snd).Nodup)
    (hq : q ∈ group) (hk : 0 < q.1.k) (hs : Scored (b.index.score q.1.vector) kept)
    (hv : st.heaps q.2 = collected q.1.k q.1.keepTies kept) :
    Advanced q.1 kept ((b.index.hits q.1.vector (b.mask q.1.allow start stop)).filter
    fun h => (floorOf external st q).val ≤ h.val)
    (st.view q.2) ((b.scanGroup external start stop st group).view q.2) := by
  have hscored : Scored (b.index.score q.1.vector)
      ((b.index.hits q.1.vector (b.mask q.1.allow start stop)).filter
        fun h => (floorOf external st q).val ≤ h.val) :=
    (scored_hits _ _ _).mono (filter_subset_self _)
  unfold Batch.scanGroup
  split
  · rename_i hnone
    rw [head?_eq_none_iff.1 hnone] at hq
    exact absurd hq not_mem_nil
  rename_i first hfirst
  rw [hsame first (mem_of_mem_head? hfirst)]
  dsimp only
  split
  · -- nothing of the chunk is allowed
    rename_i hskip
    have hnil : b.index.hits q.1.vector (b.mask q.1.allow start stop) = [] := by
      rw [VectorIndex.hits, map_eq_nil_iff, filter_eq_nil_iff]
      intro slot _ hslot
      rw [and_eq_true, not_eq_true', any_eq_false] at hskip
      refine hskip.2 slot (mem_range.2 ?_) hslot
      unfold Batch.mask at hslot
      simp only [and_eq_true, decide_eq_true_iff] at hslot
      exact hslot.1.2
    rw [hnil, filter_nil]
    refine ⟨?_, fun f hf => .inl hf⟩
    rw [append_nil]
    exact hv
  · have hrows := hb (group.map fun q => q.1.vector) (chunkK group)
      (b.mask q.1.allow start stop) (kernelFloor external st group)
    set results := b.search (group.map fun q => q.1.vector) (chunkK group)
      (b.mask q.1.allow start stop) (kernelFloor external st group)
    have hlen : group.length = results.length := by
      have := congrArg List.length hrows
      simpa using this.symm
    -- the query's row is the one at its place in the group
    obtain ⟨i, hi, rfl⟩ := getElem_of_mem hq
    have hi' := hlen ▸ hi
    have hrow : rowHits results[i] = topK cmpRank (chunkK group)
        ((b.index.hits group[i].1.vector (b.mask group[i].1.allow start stop)).filter
          fun h => (kernelFloor external st group).val ≤ h.val) := by
      have := congrArg (fun l => l[i]?) hrows
      simpa [hi, hi'] using this
    have hmem : (group[i], results[i]) ∈ group.zip results :=
      mem_iff_getElem.2 ⟨i, by simp [hi, hi'], by simp⟩
    have hnd : ((group.zip results).map fun r => r.1.2).Nodup := by
      have hfst : (group.zip results).map (fun r => r.1.2) = group.map Prod.snd := by
        have hzip := map_fst_zip hlen.le
        calc (group.zip results).map (fun r => r.1.2)
            = ((group.zip results).map Prod.fst).map Prod.snd := (map_map ..).symm
          _ = group.map Prod.snd := by rw [hzip]
      rwa [hfst]
    rw [foldl_takeRow_view hnd hmem hk, hrow, filter_row hq]
    refine takeHits_advanced hk (hs.append (hscored.mono ?_)) hv ?_
    · intro x hx
      exact mem_of_mem_topK hx
    · refine collected_append_topK_chunkK hq ((length_filter_le _ _).trans ?_)
      exact length_hits_le _ _ _

/-- **One chunk of the scan**, for the query at one position, whatever the rest of the batch. -/
theorem scanChunk_spec (hb : b.Exact) {q : BatchQuery V} {pos : ℕ} {kept : List ChunkHit}
    (hq : b.queries[pos]? = some q) (hk : 0 < q.k) (hs : Scored (b.index.score q.vector) kept)
    (hv : st.heaps pos = collected q.k q.keepTies kept) :
    Advanced q kept ((b.index.hits q.vector (b.mask q.allow st.start (b.chunkEnd st.start))).filter
        fun h => (queryFloor q (st.heaps pos) (external pos)).val ≤ h.val)
      (st.view pos) ((b.scanChunk external st).view pos) := by
  have hmem := (groupByAllow_perm b.queries).mem_iff.2 (mk_mem_zipIdx_iff_getElem?.2 hq)
  obtain ⟨group, hgroup, hqg⟩ := mem_flatten.1 hmem
  have hsame : ∀ q' ∈ group, q'.1.allow = q.allow := fun q' hq' =>
    allow_eq_of_mem_group hgroup hq' hqg
  have hn := nodup_positions b.queries
  obtain ⟨before, after, hsplit⟩ := append_of_mem hgroup
  rw [hsplit, flatten_append, flatten_cons, map_append, map_append,
    nodup_append, nodup_append] at hn
  have hpos : pos ∈ group.map Prod.snd := mem_map_of_mem hqg
  have hbef : ∀ r ∈ before.flatten, r.2 = pos → r.1.k = 0 := fun r hr h =>
    absurd rfl (hn.2.2 pos (h ▸ mem_map_of_mem hr) pos (mem_append_left _ hpos))
  have haft : ∀ r ∈ after.flatten, r.2 = pos → r.1.k = 0 := fun r hr h =>
    absurd rfl (hn.2.1.2.2 pos hpos pos (h ▸ mem_map_of_mem hr))
  set st₁ := before.foldl (b.scanGroup external st.start (b.chunkEnd st.start)) st with hst₁
  have hview₁ : st₁.view pos = st.view pos := foldl_scanGroup_view_of_notMem hbef
  have hheap₁ : st₁.heaps pos = st.heaps pos := congrArg Prod.fst hview₁
  have hview : (b.scanChunk external st).view pos =
      (b.scanGroup external st.start (b.chunkEnd st.start) st₁ group).view pos := by
    change ((groupByAllow b.queries).foldl (b.scanGroup external st.start
      (b.chunkEnd st.start)) st).view pos = _
    rw [hsplit, foldl_append]
    exact foldl_scanGroup_view_of_notMem haft
  rw [hview, ← hview₁, ← hheap₁]
  exact scanGroup_spec hb hsame hn.2.1.1 hqg hk hs (hheap₁.trans hv)

end

end ProtomoltSearch.Vector
