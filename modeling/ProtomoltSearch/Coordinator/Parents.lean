import ProtomoltSearch.Coordinator.Merge
import ProtomoltSearch.Foundations.Champions

/-!
# Parents and their chunks

A collapsed search ranks parent documents by their best chunks. The coordinator keeps a map from
parents to the best chunk and all chunks that arrived (`ParentAgg` in `coordinator.rs`).

* `collapse` states what a collapsed search is for, over one list of chunks: the `k` parents with
  the best chunks, and for each of them every chunk at or above the final floor.
* `Gathered` ties the map of parents to the chunks that went into it; ranking the map gives the
  ranking of `collapse` (`Gathered.ranked`).
-/

namespace ProtomoltSearch.Coordinator

open TopK List

/-- A record of a collapse batch: a chunk, its score, and its parent. -/
structure Chunk where
  id : U64
  score : F32
  parent : U64
  deriving DecidableEq

structure ParentAgg where
  bestScore : F32
  bestId : U64
  chunks : List (U64 × F32)

namespace ParentAgg

/-- A parent without chunks. -/
def new : ParentAgg := ⟨F32.negInf, U64.max, []⟩

/-- Whether a chunk becomes the parent's best. -/
def improves (agg : ParentAgg) (r : Chunk) : Bool :=
  decide (agg.bestScore.val < r.score.val) ||
    (decide (r.score.val = agg.bestScore.val) && decide (r.id < agg.bestId))

def add (agg : ParentAgg) (r : Chunk) : ParentAgg :=
  let chunks := agg.chunks ++ [(r.id, r.score)]
  if agg.improves r then ⟨r.score, r.id, chunks⟩ else ⟨agg.bestScore, agg.bestId, chunks⟩

end ParentAgg

def cmpScores (a b : F32) : Ordering := compare b a

/-- The order of a parent's chunks: score descending, then id ascending. -/
def cmpChunks (a b : U64 × F32) : Ordering := (compare b.2 a.2).then (compare a.1 b.1)

/-- The order of parents: best score descending, then best id ascending. -/
def cmpParents (agg : U64 → ParentAgg) (a b : U64) : Ordering :=
  (compare (agg b).bestScore (agg a).bestScore).then (compare (agg a).bestId (agg b).bestId)

/-- One record: the parents, and whether the `k`-th parent may have moved. -/
def takeRecord (kth : F32) (p : (List U64 × (U64 → ParentAgg)) × Bool) (r : Chunk) :
    (List U64 × (U64 → ParentAgg)) × Bool :=
  let keys := p.1.1
  let agg := p.1.2 r.parent
  let isNew := !keys.contains r.parent
  let raises := agg.improves r && decide (agg.bestScore.val < r.score.val) &&
    decide (kth.val < r.score.val)
  ((if isNew then keys ++ [r.parent] else keys, Function.update p.1.2 r.parent (agg.add r)),
    p.2 || isNew || raises)

/-- The order of one parent's chunks that decides its best: value descending, then id. -/
def cmpBest (a b : Chunk) : Ordering := (compare b.score.val a.score.val).then (compare a.id b.id)

/-- The order of parents by their best chunks. -/
def cmpRanked (a b : Chunk) : Ordering :=
  (compare b.score a.score).then ((compare a.id b.id).then (compare a.parent b.parent))

def chunkScore (x : Chunk) : ℤ := x.score.val

def rankedParents (l : List Chunk) : List Chunk := sortBy cmpRanked (champions Chunk.parent cmpBest l)

/-- One step below the `k`-th best parent. -/
def finalFloor (k : ℕ) (l : List Chunk) : F32 :=
  if 0 < k then
    match (rankedParents l)[k - 1]? with
    | some x => x.score.nextDown
    | none => F32.negInf
  else F32.negInf

/-- A collapsed search over one list of chunks: the best chunks of the `k` best parents, and
each of these parents with every chunk at or above the final floor. -/
def collapse (k : ℕ) (l : List Chunk) : List Chunk × List (U64 × List (U64 × F32)) :=
  let best := (rankedParents l).take k
  (best, best.map fun x => (x.parent,
    sortBy cmpChunks ((l.filter fun y => y.parent = x.parent ∧ (finalFloor k l).val ≤ y.score.val).map
      fun y => (y.id, y.score))))

/-- A chunk has one parent and one score. -/
def UniqueIds (l : List Chunk) : Prop := ∀ x ∈ l, ∀ y ∈ l, x.id = y.id → x = y

instance : Std.TransCmp cmpBest :=
  inferInstanceAs (Std.TransCmp (compareLex (fun a b => compareOn chunkScore b a)
    (compareOn Chunk.id)))

instance : Std.TransCmp cmpRanked :=
  inferInstanceAs (Std.TransCmp (compareLex (fun a b => compareOn Chunk.score b a)
    (compareLex (compareOn Chunk.id) (compareOn Chunk.parent))))

instance : Std.LawfulEqCmp cmpRanked where
  eq_of_compare {a b} h := by
    obtain ⟨hs, h⟩ := Ordering.then_eq_eq.1 h
    obtain ⟨hi, hp⟩ := Ordering.then_eq_eq.1 h
    rw [compare_eq_iff_eq] at hs hi hp
    cases a
    cases b
    simp_all

instance : Std.TransCmp cmpChunks :=
  inferInstanceAs (Std.TransCmp (compareLex (fun a b : U64 × F32 => compareOn Prod.snd b a)
    (compareOn Prod.fst)))

instance : Std.LawfulEqCmp cmpChunks where
  eq_of_compare {a b} h := by
    obtain ⟨hs, hi⟩ := Ordering.then_eq_eq.1 h
    rw [compare_eq_iff_eq] at hs hi
    exact Prod.ext hi hs.symm

instance : Std.TransCmp cmpScores := inferInstanceAs (Std.TransCmp fun a b : F32 => compare b a)

lemma ranksByScore_cmpBest : RanksByScore cmpBest chunkScore := by
  intro a b h
  have : compare b.score.val a.score.val = .lt := compare_lt_iff_lt.2 h
  rw [cmpBest, this]
  rfl

lemma ranksByScore_cmpRanked : RanksByScore cmpRanked chunkScore := by
  intro a b h
  have : compare b.score a.score = .lt := compare_lt_iff_lt.2 (F32.lt_of_val_lt h)
  rw [cmpRanked, this]
  rfl

lemma ranksByScore_cmpScores : RanksByScore cmpScores F32.val := fun _ _ h =>
  compare_lt_iff_lt.2 (F32.lt_of_val_lt h)

lemma UniqueIds.decided {l : List Chunk} (h : UniqueIds l) : Decided Chunk.parent cmpBest l := by
  intro x hx y hy _ hcmp
  exact h x hx y hy (compare_eq_iff_eq.1 (Ordering.then_eq_eq.1 hcmp).2)

variable {k : ℕ} {l : List Chunk}

lemma finalFloor_eq (hk : 0 < k) :
    finalFloor k l = match (topK cmpRanked k (champions Chunk.parent cmpBest l))[k - 1]? with
      | some x => x.score.nextDown
      | none => F32.negInf := by
  rw [finalFloor, if_pos hk, topK, getElem?_take_of_lt (by omega)]
  rfl

section

variable {l' : List Chunk} (h : l.Perm l')

include h

lemma rankedParents_perm : rankedParents l = rankedParents l' :=
  sortBy_eq_of_perm (champions_perm h)

lemma finalFloor_perm : finalFloor k l = finalFloor k l' := by
  rw [finalFloor, finalFloor, rankedParents_perm h]

/-- The answer depends on which chunks there are, not on their order. -/
lemma collapse_perm : collapse k l = collapse k l' := by
  rw [collapse, rankedParents_perm h, finalFloor_perm h]
  refine Prod.ext rfl (map_congr_left fun x _ => Prod.ext rfl ?_)
  exact sortBy_eq_of_perm ((h.filter _).map _)

end

/-- A floor above some chunk is one step below the `k`-th best parent. -/
lemma exists_of_lt_finalFloor {d : Chunk} (h : chunkScore d < (finalFloor k l).val) :
    0 < k ∧ ∃ w, kthBest cmpRanked k (champions Chunk.parent cmpBest l) = some w ∧
      finalFloor k l = w.score.nextDown := by
  unfold finalFloor at h ⊢
  split at h
  · next hk =>
    rw [if_pos hk]
    split at h
    · next x hx => exact ⟨hk, x, hx, rfl⟩
    · exact absurd (F32.negInf_val_le d.score) (not_le.2 h)
  · exact absurd (F32.negInf_val_le d.score) (not_le.2 h)

section

variable {dropped kept : List Chunk} (hids : UniqueIds (dropped ++ kept))
  (hbelow : ∀ d ∈ dropped, chunkScore d < (finalFloor k kept).val)
include hids hbelow

/-- Losing chunks below the final floor keeps the best parents. -/
lemma topK_ranked_append : topK cmpRanked k (champions Chunk.parent cmpBest (dropped ++ kept)) =
      topK cmpRanked k (champions Chunk.parent cmpBest kept) := by
  rcases eq_or_ne dropped [] with rfl | hne
  · rfl
  obtain ⟨d, hd⟩ := exists_mem_of_ne_nil _ hne
  obtain ⟨hk, w, hw, hfloor⟩ := exists_of_lt_finalFloor (hbelow d hd)
  refine topK_champions_append ranksByScore_cmpBest ranksByScore_cmpRanked hids.decided hbelow ?_
  rw [hfloor]
  exact (isFloor_kthBest ranksByScore_cmpRanked hk hw).anti (F32.nextDown_val_le _)

lemma finalFloor_append : finalFloor k (dropped ++ kept) = finalFloor k kept := by
  rcases Nat.eq_zero_or_pos k with rfl | hk
  · rfl
  · rw [finalFloor_eq hk, finalFloor_eq hk, topK_ranked_append hids hbelow]

/-- Chunks below the final floor of the others may be lost. -/
lemma collapse_append : collapse k (dropped ++ kept) = collapse k kept := by
  have hbest : (rankedParents (dropped ++ kept)).take k = (rankedParents kept).take k :=
    topK_ranked_append hids hbelow
  rw [collapse, hbest, finalFloor_append hids hbelow]
  refine Prod.ext rfl (map_congr_left fun x _ => Prod.ext rfl ?_)
  have hnil : (dropped.filter fun y => y.parent = x.parent ∧
      (finalFloor k kept).val ≤ y.score.val) = [] := by
    refine filter_eq_nil_iff.2 fun y hy => ?_
    have hlt : y.score.val < (finalFloor k kept).val := hbelow y hy
    simp [hlt]
  rw [filter_append, hnil, nil_append]

end

lemma ranksLE_cmpBest {x y : Chunk} : RanksLE cmpBest x y ↔
      y.score.val < x.score.val ∨ (y.score.val = x.score.val ∧ x.id ≤ y.id) := by
  rw [RanksLE, cmpBest]
  rcases lt_trichotomy y.score.val x.score.val with h | h | h
  · simp [compare_lt_iff_lt.2 h, h]
  · simp [h, Ordering.isLE_iff_ne_gt, compare_gt_iff_gt]
  · simp [compare_gt_iff_gt.2 h, h.not_gt, h.ne']

lemma not_improves {agg : ParentAgg} {r : Chunk} (h : agg.improves r = false) :
    r.score.val < agg.bestScore.val ∨ (r.score.val = agg.bestScore.val ∧ agg.bestId ≤ r.id) := by
  simp only [ParentAgg.improves, Bool.or_eq_false_iff, decide_eq_false_iff_not, not_lt,
    Bool.and_eq_false_iff] at h
  rcases lt_or_eq_of_le h.1 with hlt | heq
  · exact .inl hlt
  · exact .inr ⟨heq, h.2.resolve_left (not_not.2 heq)⟩

def aggregate (m : List Chunk) : ParentAgg := m.foldl ParentAgg.add .new

lemma aggregate_snoc (m : List Chunk) (r : Chunk) : aggregate (m ++ [r]) = (aggregate m).add r := by
  simp [aggregate]

lemma aggregate_chunks (m : List Chunk) : (aggregate m).chunks = m.map fun r => (r.id, r.score) := by
  induction m using List.reverseRecOn with
  | nil => rfl
  | append_singleton m r ih =>
    rw [aggregate_snoc, ParentAgg.add]
    split <;> simp [ih]

/-- The aggregate's best is the best of the chunks. -/
lemma aggregate_best (m : List Chunk) (hm : m ≠ []) : ∃ r ∈ m, r.score = (aggregate m).bestScore ∧
    r.id = (aggregate m).bestId ∧ ∀ x ∈ m, RanksLE cmpBest r x := by
  induction m using List.reverseRecOn with
  | nil => exact absurd rfl hm
  | append_singleton m r ih =>
    rw [aggregate_snoc, ParentAgg.add]
    rcases eq_or_ne m [] with rfl | hne
    · refine ⟨r, by simp, ?_, ?_, fun x hx => ?_⟩
      · split
        · rfl
        · next h =>
          rcases not_improves (Bool.eq_false_iff.2 h) with hlt | ⟨heq, -⟩
          · exact absurd (F32.negInf_val_le r.score) (not_le.2 hlt)
          · exact F32.eq_negInf heq
      · split
        · rfl
        · next h =>
          rcases not_improves (Bool.eq_false_iff.2 h) with hlt | ⟨-, hle⟩
          · exact absurd (F32.negInf_val_le r.score) (not_le.2 hlt)
          · have hmax : r.id ≤ U64.max := by
              exact Nat.le_sub_one_of_lt r.id.upper
            exact le_antisymm hmax hle
      · rw [nil_append, mem_singleton] at hx
        rw [hx]
        exact RanksLE.refl _
    · obtain ⟨b, hb, hscore, hid, hbest⟩ := ih hne
      split
      · next h =>
        have hrb : RanksLE cmpBest r b := by
          rw [ranksLE_cmpBest, hscore, hid]
          simp only [ParentAgg.improves, Bool.or_eq_true, decide_eq_true_eq, Bool.and_eq_true] at h
          rcases h with h | h
          · exact .inl h
          · exact .inr ⟨h.1.symm, h.2.le⟩
        refine ⟨r, by simp, rfl, rfl, fun x hx => ?_⟩
        rcases mem_append.1 hx with hx | hx
        · exact hrb.trans (hbest x hx)
        · rw [mem_singleton.1 hx]
          exact RanksLE.refl _
      · next h =>
        refine ⟨b, by simp [hb], hscore, hid, fun x hx => ?_⟩
        rcases mem_append.1 hx with hx | hx
        · exact hbest x hx
        · rw [mem_singleton.1 hx, ranksLE_cmpBest, hscore, hid]
          exact not_improves (Bool.eq_false_iff.2 h)

def aggOf (l : List Chunk) (p : U64) : ParentAgg := aggregate (l.filter fun r => r.parent = p)

def bestOf (l : List Chunk) (p : U64) : Chunk := ⟨(aggOf l p).bestId, (aggOf l p).bestScore, p⟩

/-- The map of parents after some chunks. -/
structure Gathered (l : List Chunk) (keys : List U64) (agg : U64 → ParentAgg) : Prop where
  agg_eq : agg = aggOf l
  nodup : keys.Nodup
  mem_keys : ∀ p, p ∈ keys ↔ ∃ x ∈ l, x.parent = p

lemma gathered_nil : Gathered [] [] fun _ => .new :=
  ⟨rfl, nodup_nil, by simp⟩

variable {keys : List U64} {agg : U64 → ParentAgg}

/-- One record goes into its parent. -/
lemma Gathered.takeRecord (h : Gathered l keys agg) (kth : F32) (dirty : Bool) (r : Chunk) :
    Gathered (l ++ [r]) (takeRecord kth ((keys, agg), dirty) r).1.1
      (takeRecord kth ((keys, agg), dirty) r).1.2 where
  agg_eq := by
    funext p
    show Function.update agg r.parent ((agg r.parent).add r) p = _
    rw [h.agg_eq]
    by_cases hp : p = r.parent
    · subst hp
      rw [aggOf, aggOf]
      simp [aggregate_snoc]
    · rw [Function.update_of_ne hp, aggOf, aggOf]
      simp [Ne.symm hp]
  nodup := by
    show (if !keys.contains r.parent then keys ++ [r.parent] else keys).Nodup
    split
    · next hnew =>
      have hnot : r.parent ∉ keys := by simpa using hnew
      exact nodup_append.2 ⟨h.nodup, by simp, by
        rintro a ha b hb rfl
        rw [mem_singleton] at hb
        exact hnot (hb ▸ ha)⟩
    · exact h.nodup
  mem_keys p := by
    show p ∈ (if !keys.contains r.parent then keys ++ [r.parent] else keys) ↔ _
    have hkeys := h.mem_keys
    split
    · rw [mem_append, hkeys, mem_singleton]
      constructor
      · rintro (⟨x, hx, rfl⟩ | rfl)
        · exact ⟨x, by simp [hx], rfl⟩
        · exact ⟨r, by simp, rfl⟩
      · rintro ⟨x, hx, rfl⟩
        rcases mem_append.1 hx with hx | hx
        · exact .inl ⟨x, hx, rfl⟩
        · exact .inr (by rw [mem_singleton.1 hx])
    · next hold =>
      have hmem : r.parent ∈ keys := by simpa using hold
      constructor
      · intro hp
        obtain ⟨x, hx, rfl⟩ := (hkeys p).1 hp
        exact ⟨x, by simp [hx], rfl⟩
      · rintro ⟨x, hx, rfl⟩
        rcases mem_append.1 hx with hx | hx
        · exact (hkeys _).2 ⟨x, hx, rfl⟩
        · rw [mem_singleton.1 hx]
          exact hmem

/-- A batch goes into its parents. -/
lemma Gathered.foldl (h : Gathered l keys agg) (kth : F32) (dirty : Bool) (xs : List Chunk) :
    Gathered (l ++ xs) (xs.foldl (Coordinator.takeRecord kth) ((keys, agg), dirty)).1.1
      (xs.foldl (Coordinator.takeRecord kth) ((keys, agg), dirty)).1.2 := by
  induction xs generalizing l keys agg dirty with
  | nil => rwa [append_nil]
  | cons r xs ih =>
    rw [← singleton_append, ← append_assoc]
    exact ih (h.takeRecord kth dirty r) _

/-- The best chunk of a parent is one of the list, and its champion. -/
lemma bestOf_isChampion {p : U64} (hp : ∃ x ∈ l, x.parent = p) :
    bestOf l p ∈ l ∧ IsChampion Chunk.parent cmpBest l (bestOf l p) := by
  obtain ⟨x, hx, rfl⟩ := hp
  have hne : (l.filter fun r => r.parent = x.parent) ≠ [] :=
    ne_nil_of_mem (mem_filter.2 ⟨hx, by simp⟩)
  obtain ⟨r, hr, _, _, hbest⟩ := aggregate_best _ hne
  have hparent : r ∈ l ∧ r.parent = x.parent := by simpa using hr
  obtain rfl : r = bestOf l x.parent := by
    cases r
    simp_all [bestOf, aggOf]
  exact ⟨hparent.1, fun y hy hkey => hbest y (by simp [hy, hkey, bestOf])⟩

section

variable (h : Gathered l keys agg) (hids : UniqueIds l) {ps : List U64} (hps : ps.Perm keys)

include h hids hps

/-- The parents by their best chunks are the champions. -/
lemma Gathered.perm_champions : (ps.map (bestOf l)).Perm (champions Chunk.parent cmpBest l) := by
  have hmem : ∀ p, p ∈ ps ↔ ∃ x ∈ l, x.parent = p := fun p => hps.mem_iff.trans (h.mem_keys p)
  refine TopK.perm_champions ?_ fun c => ?_
  · refine (hps.nodup_iff.2 h.nodup).map ?_
    intro p q hpq
    exact congrArg Chunk.parent hpq
  · rw [mem_map]
    constructor
    · rintro ⟨p, hp, rfl⟩
      exact bestOf_isChampion ((hmem p).1 hp)
    · rintro ⟨hc, hchamp⟩
      have hp : ∃ x ∈ l, x.parent = c.parent := ⟨c, hc, rfl⟩
      refine ⟨c.parent, (hmem _).2 hp, ?_⟩
      exact eq_of_champions hids.decided (mem_champions.2 (bestOf_isChampion hp))
        (mem_champions.2 ⟨hc, hchamp⟩) rfl

/-- **Ranking the map of parents ranks their best chunks**, in whatever order the map is read. -/
theorem Gathered.ranked : (sortBy (cmpParents agg) ps).map (bestOf l) = rankedParents l := by
  rw [rankedParents, ← sortBy_eq_of_perm (h.perm_champions hids hps)]
  refine map_insertionSort _ _ _ _ fun p hp q hq => ?_
  have hbest : ∀ a ∈ ps, bestOf l a ∈ l := fun a ha =>
    (bestOf_isChampion ((h.mem_keys a).1 (hps.mem_iff.1 ha))).1
  have hcmp : cmpParents agg p q = cmpRanked (bestOf l p) (bestOf l q) := by
    rw [h.agg_eq, cmpParents]
    refine congrArg _ ?_
    -- one best chunk for two parents would be one parent
    cases hid : compare (bestOf l p).id (bestOf l q).id with
    | lt => exact hid
    | gt => exact hid
    | eq =>
      have : p = q := congrArg Chunk.parent
        (hids _ (hbest p hp) _ (hbest q hq) (compare_eq_iff_eq.1 hid))
      subst this
      simp [bestOf]
  rw [RanksLE, RanksLE, hcmp]

end

end ProtomoltSearch.Coordinator
