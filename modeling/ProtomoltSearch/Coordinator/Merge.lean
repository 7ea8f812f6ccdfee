import ProtomoltSearch.Foundations.Floors
import ProtomoltSearch.Foundations.Numbers

/-!
# Merging hits and floors

The coordinator's order on hits, its merge of per-shard lists, and the running maximum of the
floors shards publish (`merge.rs`).
-/

namespace ProtomoltSearch.Coordinator

open TopK

/-- A hit in the global ranking, with the index of the shard it came from. -/
structure MergedHit where
  vectorId : U64
  shard : ℕ
  score : F32
  deriving DecidableEq

/-- The order on hits: score descending, then id ascending, then shard ascending. -/
def cmpHits (a b : MergedHit) : Ordering :=
  (compare b.score a.score).then
    ((compare a.vectorId b.vectorId).then (compare a.shard b.shard))

instance : Std.TransCmp cmpHits :=
  inferInstanceAs (Std.TransCmp (compareLex (fun a b => compareOn MergedHit.score b a)
    (compareLex (compareOn MergedHit.vectorId) (compareOn MergedHit.shard))))

instance : Std.LawfulEqCmp cmpHits where
  eq_of_compare {a b} h := by
    obtain ⟨hs, h⟩ := Ordering.then_eq_eq.1 h
    obtain ⟨hv, hd⟩ := Ordering.then_eq_eq.1 h
    rw [compare_eq_iff_eq] at hs hv hd
    cases a
    cases b
    simp_all

lemma ranksByScore_cmpHits : RanksByScore cmpHits fun h => h.score.val := by
  intro a b h
  have : compare b.score a.score = .lt := compare_lt_iff_lt.2 (F32.lt_of_val_lt h)
  rw [cmpHits, this]
  rfl

/-- Merge per-shard lists into the global top `k`. -/
def mergeTopk (shardHits : List (ℕ × List (U64 × F32))) (k : ℕ) : List MergedHit :=
  topK cmpHits k (shardHits.flatMap fun s => s.2.map fun h => ⟨h.1, s.1, h.2⟩)

/-- A hit as the ranking shows it, without its shard. -/
def MergedHit.bare (h : MergedHit) : MergedHit := { h with shard := 0 }

lemma bare_mergeTopk (a : List (ℕ × List (U64 × F32))) (k : ℕ) :
    (mergeTopk a k).map MergedHit.bare = mergeTopk [(0, a.flatMap (·.2))] k := by
  -- hits in order stay in order on one shard, where equal ones are the same
  have hsorted (l : List MergedHit) :
      (sortBy cmpHits l).map MergedHit.bare = sortBy cmpHits (l.map MergedHit.bare) := by
    refine .trans (sortBy_eq_self ?_).symm (sortBy_eq_of_perm ((sortBy_perm l).map _))
    refine List.pairwise_map.2 ((pairwise_sortBy l).imp fun {x y} h => ?_)
    simp only [RanksLE, cmpHits, MergedHit.bare] at h ⊢
    revert h
    cases compare y.score x.score <;> cases compare x.vectorId y.vectorId <;> simp
  rw [mergeTopk, topK, List.map_take, hsorted]
  simp [mergeTopk, topK, List.map_flatMap, Function.comp_def, MergedHit.bare]

/-- **The layout of the shards does not change the ranking**, nor does the order of arrival. -/
theorem mergeTopk_layout {a b : List (ℕ × List (U64 × F32))}
    (h : (a.flatMap (·.2)).Perm (b.flatMap (·.2))) (k : ℕ) :
    (mergeTopk a k).map MergedHit.bare = (mergeTopk b k).map MergedHit.bare := by
  rw [bare_mergeTopk, bare_mergeTopk]
  refine topK_eq_of_perm ?_
  simpa using h.map _

theorem mergeTopk_layout_sample : let x := (U64.max, F32.zero); let y := (U64.max, F32.negInf)
    (mergeTopk [(0, [x, y])] 1).map MergedHit.bare =
      (mergeTopk [(1, [y]), (0, [x])] 1).map MergedHit.bare :=
  mergeTopk_layout (by exact .swap _ _ []) 1

/-- The running maximum of published floors. -/
structure FloorTracker where
  current : F32

namespace FloorTracker

/-- No floor yet. -/
def new : FloorTracker := ⟨F32.negInf⟩

/-- Observe a floor: the new maximum, when the floor raised it. -/
def observe (t : FloorTracker) (floor : F32) : FloorTracker × Option F32 :=
  if floor.val ≤ t.current.val then (t, none) else (⟨floor⟩, some floor)

end FloorTracker

end ProtomoltSearch.Coordinator
