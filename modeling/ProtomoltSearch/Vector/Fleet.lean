import ProtomoltSearch.Coordinator.Merge
import ProtomoltSearch.Vector.Chunked

/-!
# A fleet of chunked scans

A query is fanned out to shards that scan chunk by chunk. After a chunk a shard may publish the
`k`-th best score it holds; the coordinator pushes the raises of the maximum back, and a shard reads
some pushed floor, or none, before each chunk. A floor may be lost, delayed or delivered twice.

Every floor in flight is safe for the union of the allowed candidates (`Scanning`). What a shard may
still drop is a tie: the two zeros are equal to it, while the coordinator's order ranks `+0.0` before
`-0.0`. `TiesAgree` is the exact condition.
-/

namespace ProtomoltSearch.Vector

open TopK Coordinator List F32

variable {V : Type}

/-- One shard of a fan-out: the batch the query rides in, and its place there. -/
structure Shard (V : Type) where
  batch : Batch V
  pos : ℕ
  query : BatchQuery V
  slotOffset : ℕ
  carries : batch.queries[pos]? = some query

/-- A fan-out of one query. -/
structure Fleet (V : Type) where
  nodes : ℕ
  shard : ℕ → Shard V
  k : ℕ
  keepTies : Bool
  same : ∀ i < nodes, (shard i).query.k = k ∧ (shard i).query.keepTies = keepTies

/-- The scans of the shards, the coordinator's floor, and the floors it has pushed so far. -/
structure FleetState where
  scans : ℕ → ScanState
  tracker : FloorTracker
  pushed : List F32

variable (s : Shard V) (stop : ℕ)

def Shard.globalHit (i : ℕ) (h : ChunkHit) : MergedHit :=
  ⟨⟨(s.slotOffset + h.slot) % 2 ^ 64, Nat.mod_lt _ (by norm_num)⟩, i, h.score⟩

def Shard.candidatesTo : List ChunkHit :=
  s.batch.index.hits s.query.vector (s.batch.mask s.query.allow 0 stop)

def Shard.candidates : List ChunkHit := s.candidatesTo s.batch.index.len

namespace Fleet

variable (c : Fleet V)

/-- Before any chunk. -/
def init : FleetState where
  scans i := (c.shard i).batch.begin
  tracker := FloorTracker.new
  pushed := []

/-- One event. -/
inductive Step : FleetState → FleetState → Prop
  /-- A shard scans its next chunk; the query's external floor is a pushed one, or none. The other
  queries of the batch have any floors. -/
  | chunk {st : FleetState} {i : ℕ} {external : ℕ → Option F32} (hi : i < c.nodes)
      (hrun : (st.scans i).start < (c.shard i).batch.index.len)
      (hext : ∀ f, external (c.shard i).pos = some f → f ∈ st.pushed) :
      Step st { st with
        scans := Function.update st.scans i ((c.shard i).batch.scanChunk external (st.scans i)) }
  /-- A floor that a shard has published reaches the coordinator, which pushes raises. -/
  | report {st : FleetState} {i : ℕ} {f : F32} (hi : i < c.nodes)
      (hf : ((c.shard i).pos, f) ∈ (st.scans i).published) :
      Step st { st with
        tracker := (st.tracker.observe f).1
        pushed := st.pushed ++ (st.tracker.observe f).2.toList }

def Reachable (st : FleetState) : Prop := Relation.ReflTransGen c.Step c.init st

/-- Every shard has scanned its index. -/
def Complete (st : FleetState) : Prop :=
  ∀ i < c.nodes, ¬ (st.scans i).start < (c.shard i).batch.index.len

def merged (st : FleetState) : List MergedHit :=
  mergeTopk ((List.range c.nodes).map fun i =>
    (i, ((st.scans i).heaps (c.shard i).pos).map fun h =>
      (((c.shard i).globalHit i h).vectorId, h.score))) c.k

/-- All allowed candidates of all shards. -/
def union : List MergedHit :=
  (List.range c.nodes).flatMap fun i =>
    (c.shard i).candidates.map ((c.shard i).globalHit i)

end Fleet

/-! ## Candidates -/

lemma Shard.scored_candidatesTo :
    Scored (s.batch.index.score s.query.vector) (s.candidatesTo stop) :=
  scored_hits _ _ _

lemma Shard.nodup_candidatesTo : (s.candidatesTo stop).Nodup := by
  refine (nodup_range.filter _).map ?_
  intro a b hab
  exact congrArg ChunkHit.slot hab

lemma Shard.candidatesTo_perm {start stop : ℕ} (h : start ≤ stop) :
    (s.candidatesTo stop).Perm (s.candidatesTo start ++
      s.batch.index.hits s.query.vector (s.batch.mask s.query.allow start stop)) :=
  hits_mask_perm _ _ _ h

lemma Shard.slot_lt {s : Shard V} {h : ChunkHit} (hh : h ∈ s.candidates) : h.slot < 2 ^ 32 := by
  obtain ⟨slot, hslot, rfl⟩ := mem_map.1 hh
  exact (mem_range.1 (mem_filter.1 hslot).1).trans_le s.batch.index.len_le

/-- A global hit tells its local one. -/
lemma Shard.globalHit_injective {s : Shard V} {i : ℕ} {a b : ChunkHit} (ha : a ∈ s.candidates)
    (hb : b ∈ s.candidates) (h : s.globalHit i a = s.globalHit i b) : a = b := by
  have hid : (s.slotOffset + a.slot) % 2 ^ 64 = (s.slotOffset + b.slot) % 2 ^ 64 :=
    congrArg (fun h : MergedHit => h.vectorId.val) h
  have ha' := Shard.slot_lt ha
  have hb' := Shard.slot_lt hb
  exact (s.scored_candidatesTo _).eq ha hb (by omega)

/-! ## Every floor is safe -/

namespace Fleet

variable {c : Fleet V}

/-- A floor that `k` of all the candidates reach. -/
def Safe (c : Fleet V) (f : ℤ) : Prop := IsFloor (fun h : MergedHit => h.score.val) c.k c.union f

/-- A floor safe for a part of one shard's candidates is safe. -/
lemma safe_of_isFloor {i stop : ℕ} {f : ℤ} {kept dropped : List ChunkHit} (hi : i < c.nodes)
    (hstop : stop ≤ (c.shard i).batch.index.len)
    (hp : ((c.shard i).candidatesTo stop).Perm (dropped ++ kept))
    (hf : IsFloor ChunkHit.val c.k kept f) : c.Safe f := by
  have hcand := (((hf.append_left dropped).of_perm hp.symm).append_right _).of_perm
      ((c.shard i).candidatesTo_perm hstop).symm
  have hmap : IsFloor (fun h : MergedHit => h.score.val) c.k
      ((c.shard i).candidates.map ((c.shard i).globalHit i)) f := by
    rw [IsFloor, countP_map]
    exact hcand
  obtain ⟨before, after, hrange⟩ := append_of_mem (mem_range.2 hi)
  unfold Safe Fleet.union
  rw [hrange, flatMap_append]
  exact (hmap.append_right _).append_left _

/-- The floor of a query is one of the floors it was made from, or prunes nothing. -/
lemma queryFloor_cases {q : BatchQuery V} {heap : List ChunkHit} {external : Option F32}
    {P : F32 → Prop} (hext : ∀ f, external = some f → P f)
    (hheap : ∀ w, heap[q.k - 1]? = some w → P w.score) :
    queryFloor q heap external = negInf ∨ P (queryFloor q heap external) := by
  have hmax : ∀ a b : F32, (a = negInf ∨ P a) → P b → max a b = negInf ∨ P (max a b) := by
    intro a b ha hb
    rcases max_choice a b with h | h <;> rw [h]
    exacts [ha, .inr hb]
  have hbase : externalFloor external = negInf ∨ P (externalFloor external) := by
    cases external with
    | none => exact .inl rfl
    | some f => exact hmax _ f (.inl rfl) (hext f rfl)
  unfold queryFloor
  split
  · split
    · rename_i w hw
      exact hmax _ _ hbase (hheap w hw)
    · exact hbase
  · exact hbase

/-- The scan of one shard: what it keeps and what it has dropped are its candidates so far, what it
dropped was below a safe floor, and the floors it has published are safe. -/
structure ShardOk (c : Fleet V) (i : ℕ) (st : ScanState) (kept dropped : List ChunkHit) : Prop where
  start_le : st.start ≤ (c.shard i).batch.index.len
  perm : ((c.shard i).candidatesTo st.start).Perm (dropped ++ kept)
  heap : st.heaps (c.shard i).pos = collected c.k c.keepTies kept
  below : ∀ d ∈ dropped, ∃ f, d.val < f ∧ c.Safe f
  published : ∀ f, ((c.shard i).pos, f) ∈ st.published → c.Safe f.val

/-- The whole fleet in a run. -/
structure Scanning (c : Fleet V) (st : FleetState) : Prop where
  shards : ∀ i < c.nodes, ∃ kept dropped, ShardOk c i (st.scans i) kept dropped
  pushed : ∀ f ∈ st.pushed, c.Safe f.val

lemma shardOk_begin {i : ℕ} (hk : 0 < c.k) (hi : i < c.nodes) :
    ShardOk c i (c.shard i).batch.begin [] [] := by
  have hstart : (c.shard i).batch.begin.start = 0 := by
    have hmem := mem_of_getElem? (c.shard i).carries
    have hle := (Counting.le_foldl_max 0).2 _
      (mem_map_of_mem (f := fun q : BatchQuery V => q.k) hmem)
    have hsame := (c.same i hi).1
    refine if_neg ?_
    omega
  refine ⟨by omega, ?_, ?_, by simp, fun f hf => absurd hf not_mem_nil⟩
  · rw [hstart, Shard.candidatesTo, hits_mask_zero]
    exact List.Perm.refl _
  · unfold collected topTies
    simp [Batch.begin, kthBest, sortBy]

lemma ShardOk.chunk {i : ℕ} {st : ScanState} {kept dropped : List ChunkHit}
    {external : ℕ → Option F32} (h : ShardOk c i st kept dropped) (hk : 0 < c.k) (hi : i < c.nodes)
    (hb : (c.shard i).batch.Exact) (hrun : st.start < (c.shard i).batch.index.len)
    (hext : ∀ f, external (c.shard i).pos = some f → c.Safe f.val) :
    ∃ kept dropped, ShardOk c i ((c.shard i).batch.scanChunk external st) kept dropped := by
  set s := c.shard i with hs
  obtain ⟨hqk, hqt⟩ := c.same i hi
  set stop := s.batch.chunkEnd st.start with hstop
  set floor := queryFloor s.query (st.heaps s.pos) (external s.pos) with hfloor
  set new := s.batch.index.hits s.query.vector (s.batch.mask s.query.allow st.start stop) with hnew
  have hle : st.start ≤ stop := by
    rw [hstop, Batch.chunkEnd]
    omega
  have hscored := (s.scored_candidatesTo st.start).mono fun x hx =>
      h.perm.mem_iff.2 (mem_append_right _ hx)
  have hadv : Advanced s.query kept (new.filter fun h => floor.val ≤ h.val) (st.view s.pos)
      ((s.batch.scanChunk external st).view s.pos) :=
    scanChunk_spec hb s.carries (hqk ▸ hk) hscored (by rw [h.heap, hqk, hqt])
  -- the floor in force is safe, or it drops nothing
  have hsafe : floor = negInf ∨ c.Safe floor.val := by
    refine queryFloor_cases (P := fun f => c.Safe f.val) hext fun w hw => ?_
    rw [h.heap, hqk, getElem?_collected hk] at hw
    exact safe_of_isFloor hi h.start_le h.perm (isFloor_kthBest ranksByScore_cmpRank hk hw)
  have hperm : (s.candidatesTo stop).Perm
      ((dropped ++ new.filter fun h => !decide (floor.val ≤ h.val)) ++
        (kept ++ new.filter fun h => floor.val ≤ h.val)) := by
    have hsplit := (filter_append_perm (fun h => decide (floor.val ≤ h.val)) new).symm
    refine (s.candidatesTo_perm hle).trans ((h.perm.append hsplit).trans ?_)
    rw [append_assoc, append_assoc, ← append_assoc kept]
    exact List.Perm.append_left dropped perm_append_comm
  have hend : stop ≤ s.batch.index.len := Nat.min_le_right _ _
  refine ⟨kept ++ new.filter fun h => floor.val ≤ h.val,
    dropped ++ new.filter fun h => !decide (floor.val ≤ h.val), hend, hperm, ?_, ?_, ?_⟩
  · rw [← hqk, ← hqt]
    exact hadv.heap
  · intro d hd
    rcases mem_append.1 hd with hd | hd
    · exact h.below d hd
    · have hlt : d.val < floor.val := by simpa using (mem_filter.1 hd).2
      rcases hsafe with hinf | hsafe
      · have := negInf_val_le d.score
        rw [hinf] at hlt
        exact absurd hlt (not_lt.2 this)
      · exact ⟨floor.val, hlt, hsafe⟩
  · intro f hf
    have hmem : f ∈ ((s.batch.scanChunk external st).view s.pos).2 :=
      mem_map.2 ⟨(s.pos, f), mem_filter.2 ⟨hf, by simp⟩, rfl⟩
    rcases hadv.floors f hmem with hold | ⟨w, hw, rfl⟩
    · obtain ⟨e, he, rfl⟩ := mem_map.1 hold
      obtain ⟨he, hpos⟩ := mem_filter.1 he
      have hpos' : e.1 = s.pos := by simpa using hpos
      exact h.published e.2 (hpos' ▸ he)
    · rw [hqk] at hw
      exact safe_of_isFloor hi hend hperm (isFloor_kthBest ranksByScore_cmpRank hk hw)

/-- One event keeps the fleet's invariant. -/
lemma Scanning.step {st st' : FleetState} (h : Scanning c st) (hk : 0 < c.k)
    (hb : ∀ i < c.nodes, (c.shard i).batch.Exact) (hstep : c.Step st st') : Scanning c st' := by
  cases hstep with
  | chunk hi hrun hext =>
    rename_i i external
    refine ⟨fun j hj => ?_, h.pushed⟩
    dsimp only
    by_cases hji : j = i
    · subst hji
      obtain ⟨kept, dropped, hok⟩ := h.shards j hj
      rw [Function.update_self]
      exact hok.chunk hk hj (hb j hj) hrun fun f hf => h.pushed f (hext f hf)
    · rw [Function.update_of_ne hji]
      exact h.shards j hj
  | report hi hf =>
    rename_i i f
    refine ⟨h.shards, fun g hg => ?_⟩
    rcases mem_append.1 hg with hg | hg
    · exact h.pushed g hg
    · obtain ⟨kept, dropped, hok⟩ := h.shards i hi
      have hgf : g = f := by
        unfold FloorTracker.observe at hg
        split at hg
        · cases hg
        · simpa using hg
      exact hgf ▸ hok.published f hf

lemma scanning_of_reachable {st : FleetState} (hk : 0 < c.k)
    (hb : ∀ i < c.nodes, (c.shard i).batch.Exact) (h : c.Reachable st) : Scanning c st := by
  induction h with
  | refl => exact ⟨fun i hi => ⟨[], [], shardOk_begin hk hi⟩, fun f hf => absurd hf not_mem_nil⟩
  | tail _ hstep ih => exact ih.step hk hb hstep

/-! ## The answer -/

/-- Fewer than `k` candidates rank ahead of a hit under the coordinator's order. -/
def Wins (c : Fleet V) (x : MergedHit) : Prop :=
  c.union.countP (fun y => cmpHits y x = .lt) < c.k

/-- **The condition.** A shard that does not keep ties ranks no `k` of its own candidates ahead of a
candidate that fewer than `k` of all rank ahead of under the coordinator's order. -/
def TiesAgree (c : Fleet V) : Prop :=
  ∀ i < c.nodes, ∀ h ∈ (c.shard i).candidates, c.Wins ((c.shard i).globalHit i h) →
    c.keepTies = true ∨ (c.shard i).candidates.countP (fun y => ranksBefore y h) < c.k

lemma Safe.le_of_wins {f : ℤ} (hf : c.Safe f) {x : MergedHit} (hx : c.Wins x) :
    f ≤ x.score.val := by
  by_contra hlt
  refine absurd hx (not_lt.2 (le_trans hf (countP_mono_left fun y _ hy => ?_)))
  refine decide_eq_true (ranksByScore_cmpHits ?_)
  exact (not_le.1 hlt).trans_le (of_decide_eq_true hy)

/-- Whether a shard that is done returns a winner. -/
lemma mem_heap_iff {i : ℕ} {st : ScanState} {kept dropped : List ChunkHit} {h : ChunkHit}
    (hok : ShardOk c i st kept dropped) (hi : i < c.nodes) (hk : 0 < c.k)
    (hdone : ¬ st.start < (c.shard i).batch.index.len) (hh : h ∈ (c.shard i).candidates)
    (hwin : c.Wins ((c.shard i).globalHit i h)) : h ∈ st.heaps (c.shard i).pos ↔ c.keepTies = true ∨
      (c.shard i).candidates.countP (fun y => ranksBefore y h) < c.k := by
  have hstart := le_antisymm hok.start_le (not_lt.1 hdone)
  have hperm : (c.shard i).candidates.Perm (dropped ++ kept) := by
    have := hok.perm
    rwa [hstart] at this
  have hnd := hperm.nodup_iff.1 ((c.shard i).nodup_candidatesTo _)
  -- what was dropped scores below the winner, so the winner was kept and is not behind it
  have hbelow : ∀ d ∈ dropped, d.val < h.val := fun d hd => by
    obtain ⟨f, hdf, hf⟩ := hok.below d hd
    exact hdf.trans_le (hf.le_of_wins hwin)
  have hkept : h ∈ kept := by
    rcases mem_append.1 (hperm.mem_iff.1 hh) with hd | hkept
    · exact absurd (hbelow h hd) (lt_irrefl _)
    · exact hkept
  rw [hok.heap]
  cases hties : c.keepTies with
  | true =>
    refine iff_of_true ?_ (.inl rfl)
    change h ∈ topTies cmpRank ChunkHit.val c.k kept
    unfold topTies
    split
    · exact mem_sortBy.2 hkept
    · rename_i w hw
      have hsafe : c.Safe w.val := safe_of_isFloor hi le_rfl hperm
        (isFloor_kthBest ranksByScore_cmpRank hk hw)
      exact mem_sortBy.2 (mem_filter.2 ⟨hkept, decide_eq_true (hsafe.le_of_wins hwin)⟩)
  | false =>
    change h ∈ topK cmpRank c.k kept ↔ _
    have hzero : dropped.countP (fun y => ranksBefore y h) = 0 := by
      refine countP_eq_zero.2 fun d hd => ?_
      have := hbelow d hd
      rw [ranksBefore_iff]
      omega
    have hsame : kept.countP (fun y => cmpRank y h = .lt) =
        kept.countP (fun y => ranksBefore y h) := by
      refine countP_congr fun y hy => ?_
      rw [decide_eq_true_iff, ranksBefore_iff_cmpRank ((c.shard i).scored_candidatesTo _) ?_ hh]
      exact hperm.mem_iff.2 (mem_append_right _ hy)
    rw [mem_topK_iff (nodup_append.1 hnd).2.1 hkept, hperm.countP_eq, countP_append,
      hzero, Nat.zero_add, hsame]
    simp

/-- Parts of the shards' candidates, under their global ids, are disjoint. -/
lemma nodup_flatMap_globalHit {part : ℕ → List ChunkHit}
    (hsub : ∀ i < c.nodes, part i ⊆ (c.shard i).candidates)
    (hnd : ∀ i < c.nodes, (part i).Nodup) : ((List.range c.nodes).flatMap fun i =>
      (part i).map ((c.shard i).globalHit i)).Nodup := by
  rw [nodup_flatMap]
  constructor
  · intro i hi
    have hi' := mem_range.1 hi
    exact (hnd i hi').map_on fun a ha b hb hab =>
      Shard.globalHit_injective (hsub i hi' ha) (hsub i hi' hb) hab
  · refine nodup_range.pairwise_of_forall_ne fun i _ j _ hij => ?_
    intro x hx hy
    obtain ⟨a, -, rfl⟩ := mem_map.1 hx
    obtain ⟨b, -, hb⟩ := mem_map.1 hy
    exact hij (congrArg MergedHit.shard hb).symm

lemma nodup_union : c.union.Nodup :=
  nodup_flatMap_globalHit (fun _ _ => List.Subset.refl _)
    fun i _ => (c.shard i).nodup_candidatesTo _

lemma mem_union {x : MergedHit} :
    x ∈ c.union ↔ ∃ i < c.nodes, ∃ h ∈ (c.shard i).candidates, (c.shard i).globalHit i h = x := by
  simp [Fleet.union]

/-- The shards' answers, under their global ids. -/
def gathered (c : Fleet V) (st : FleetState) : List MergedHit :=
  (List.range c.nodes).flatMap fun i =>
    ((st.scans i).heaps (c.shard i).pos).map ((c.shard i).globalHit i)

lemma merged_eq_topK (st : FleetState) : c.merged st = topK cmpHits c.k (c.gathered st) := by
  unfold Fleet.merged mergeTopk gathered
  rw [flatMap_map]
  simp only [map_map]
  rfl

lemma nodup_collected {k : ℕ} {keepTies : Bool} {l : List ChunkHit} (h : l.Nodup) :
    (collected k keepTies l).Nodup := by
  unfold collected topTies
  split
  · split
    · exact (sortBy_perm l).nodup_iff.2 h
    · exact (sortBy_perm _).nodup_iff.2 (h.filter _)
  · exact ((sortBy_perm l).nodup_iff.2 h).sublist (take_sublist _ _)

/-- **When the merged answer is exact.** In every run that scans every shard to its end, the merge
of the shards' answers is the top `k` of all the allowed candidates exactly when the shards' ranking
of ties cuts no winner. -/
theorem merged_eq_topK_union_iff {st : FleetState} (hb : ∀ i < c.nodes, (c.shard i).batch.Exact)
    (hr : c.Reachable st) (hdone : c.Complete st) :
    c.merged st = topK cmpHits c.k c.union ↔ c.TiesAgree := by
  rcases Nat.eq_zero_or_pos c.k with hk | hk
  · refine iff_of_true ?_ fun i _ h _ hwin => ?_
    · rw [merged_eq_topK, hk, topK_zero, topK_zero]
    · unfold Wins at hwin
      omega
  have hscan := scanning_of_reachable hk hb hr
  have hwins : ∀ x ∈ c.union, x ∈ topK cmpHits c.k c.union ↔ c.Wins x := fun x hx =>
    mem_topK_iff nodup_union hx
  have hsub : ∀ i < c.nodes, (st.scans i).heaps (c.shard i).pos ⊆ (c.shard i).candidates := by
    intro i hi x hx
    obtain ⟨kept, dropped, hok⟩ := hscan.shards i hi
    rw [hok.heap] at hx
    refine ((c.shard i).candidatesTo_perm hok.start_le).mem_iff.2 (mem_append_left _ ?_)
    exact hok.perm.mem_iff.2 (mem_append_right _ (mem_of_mem_collected hx))
  rw [merged_eq_topK]
  constructor
  · intro heq i hi h hh hwin
    have hx : (c.shard i).globalHit i h ∈ topK cmpHits c.k (c.gathered st) := by
      rw [heq, hwins _ (mem_union.2 ⟨i, hi, h, hh, rfl⟩)]
      exact hwin
    obtain ⟨j, hj, hx⟩ := mem_flatMap.1 (mem_of_mem_topK hx)
    obtain ⟨h', hh', heq'⟩ := mem_map.1 hx
    obtain rfl := congrArg MergedHit.shard heq'
    obtain ⟨kept, dropped, hok⟩ := hscan.shards j hi
    obtain rfl := Shard.globalHit_injective (hsub j hi hh') hh heq'
    exact (mem_heap_iff hok hi hk (hdone j hi) hh hwin).1 hh'
  · intro hties
    refine topK_of_topK_subset (nodup_flatMap_globalHit hsub ?_) nodup_union ?_ ?_
    · intro i hi
      obtain ⟨kept, dropped, hok⟩ := hscan.shards i hi
      rw [hok.heap]
      refine nodup_collected (nodup_append.1 (hok.perm.nodup_iff.1 ?_)).2.1
      exact (c.shard i).nodup_candidatesTo _
    · intro x hx
      obtain ⟨i, hi, hx⟩ := mem_flatMap.1 hx
      obtain ⟨h, hh, rfl⟩ := mem_map.1 hx
      have hi' := mem_range.1 hi
      exact mem_union.2 ⟨i, hi', h, hsub i hi' hh, rfl⟩
    · intro x hx
      obtain ⟨i, hi, h, hh, rfl⟩ := mem_union.1 (mem_of_mem_topK hx)
      have hwin := (hwins _ (mem_of_mem_topK hx)).1 hx
      obtain ⟨kept, dropped, hok⟩ := hscan.shards i hi
      refine mem_flatMap.2 ⟨i, mem_range.2 hi, mem_map_of_mem ?_⟩
      exact (mem_heap_iff hok hi hk (hdone i hi) hh hwin).2 (hties i hi h hh hwin)

/-! ## Two zeros -/

variable (keepTies : Bool)

/-- One shard of two chunks: slot 0 scores `-0.0`, slot 32 `+0.0`, and only these are allowed. -/
def twoZeros : Fleet Unit where
  nodes := 1
  shard _ :=
    { batch :=
        { index := zerosIndex
          queries := [⟨(), 1, keepTies, some 0⟩]
          chunkBlocks := 1
          allowed := fun _ slot => slot == 0 || slot == 32
          search := zerosIndex.searchAll }
      pos := 0
      query := ⟨(), 1, keepTies, some 0⟩
      slotOffset := 0
      carries := rfl }
  k := 1
  keepTies := keepTies
  same _ _ := ⟨rfl, rfl⟩
where
  zerosIndex : VectorIndex Unit :=
    ⟨33, fun _ slot => if slot = 32 then zero else negZero, by norm_num⟩

/-- The floor `-0.0` of the first chunk goes to the coordinator and back, and bounds the second. -/
def twoZerosEnd : FleetState :=
  let b := ((twoZeros keepTies).shard 0).batch
  let st := (twoZeros keepTies).init
  let scan := b.scanChunk (fun _ => none) (st.scans 0)
  let observed := st.tracker.observe negZero
  { scans := Function.update (Function.update st.scans 0 scan) 0
      (b.scanChunk (fun _ => some negZero) scan)
    tracker := observed.1
    pushed := observed.2.toList }

lemma twoZeros_exact :
    ∀ i < (twoZeros keepTies).nodes, ((twoZeros keepTies).shard i).batch.Exact :=
  fun _ _ => exact_of_searchAll rfl

lemma twoZeros_reachable : (twoZeros keepTies).Reachable (twoZerosEnd keepTies) := by
  refine ((Relation.ReflTransGen.refl.tail (@Step.chunk _ _ _ 0 (fun _ => none)
    Nat.one_pos ?_ ?_)).tail (@Step.report _ _ _ 0 negZero Nat.one_pos ?_)).tail
    (@Step.chunk _ _ _ 0 (fun _ => some negZero) Nat.one_pos ?_ ?_)
  · cases keepTies <;> decide +kernel
  · intro f hf
    cases hf
  · cases keepTies <;> decide +kernel
  · cases keepTies <;> decide +kernel
  · intro f hf
    obtain rfl : f = negZero := by simpa using hf.symm
    cases keepTies <;> decide +kernel

lemma twoZeros_complete : (twoZeros keepTies).Complete (twoZerosEnd keepTies) := by
  cases keepTies <;> unfold Complete <;> decide +kernel

/-- With ties kept, the run returns the union's best hit. -/
theorem merged_eq_topK_union_iff_twoZeros :
    (twoZeros true).merged (twoZerosEnd true) = [⟨⟨32, by norm_num⟩, 0, zero⟩] ∧
      ((twoZeros true).merged (twoZerosEnd true) =
        topK cmpHits (twoZeros true).k (twoZeros true).union ↔ (twoZeros true).TiesAgree) :=
  ⟨by decide +kernel, merged_eq_topK_union_iff (twoZeros_exact true) (twoZeros_reachable true)
    (twoZeros_complete true)⟩

/-- **The two zeros part the orders.** Without ties the shard answers slot 0, whose score `-0.0`
its own order ranks level with slot 32's `+0.0`; the coordinator's order puts slot 32 first. -/
theorem merged_ne_topK_union_twoZeros :
    (∀ i < (twoZeros false).nodes, ((twoZeros false).shard i).batch.Exact) ∧
      (twoZeros false).Reachable (twoZerosEnd false) ∧
      (twoZeros false).Complete (twoZerosEnd false) ∧
      (twoZeros false).merged (twoZerosEnd false) = [⟨⟨0, U64.zero_lt⟩, 0, negZero⟩] ∧
      topK cmpHits (twoZeros false).k (twoZeros false).union = [⟨⟨32, by norm_num⟩, 0, zero⟩] :=
  ⟨twoZeros_exact false, twoZeros_reachable false, twoZeros_complete false, by decide +kernel,
    by decide +kernel⟩

end Fleet

end ProtomoltSearch.Vector
