import ProtomoltSearch.Foundations.Floors

/-!
# Merging sorted lists, and ties at the cut

A two-pointer merge that stops after `k` elements, and a cut at the `k`-th best that keeps every
element tied with it. Both are compared with sorting everything: the merge is the `k` best of the
two lists, and cutting with ties may be done part by part.
-/

namespace ProtomoltSearch.TopK

open List

variable {α S : Type*} [LinearOrder S]

/-- Merge two lists up to `k` elements, taking from the first while its head ranks `before`: the
merged elements, and what is left of each list. -/
def mergeUpTo (before : α → α → Bool) : ℕ → List α → List α → List α × List α × List α
  | 0, xs, ys => ([], xs, ys)
  | _ + 1, [], [] => ([], [], [])
  | k + 1, x :: xs, [] =>
    let r := mergeUpTo before k xs []
    (x :: r.1, r.2)
  | k + 1, [], y :: ys =>
    let r := mergeUpTo before k [] ys
    (y :: r.1, r.2)
  | k + 1, x :: xs, y :: ys =>
    if before x y then
      let r := mergeUpTo before k xs (y :: ys)
      (x :: r.1, r.2)
    else
      let r := mergeUpTo before k (x :: xs) ys
      (y :: r.1, r.2)

/-- The `k` best of a list and every element tied with the last of them, the best first; the whole
list when it has fewer than `k` elements. -/
def topTies (cmp : α → α → Ordering) (score : α → S) (k : ℕ) (l : List α) : List α :=
  match kthBest cmp k l with
  | none => sortBy cmp l
  | some w => sortBy cmp (l.filter fun x => score w ≤ score x)

variable {cmp : α → α → Ordering} {score : α → S} {before : α → α → Bool} {k : ℕ} {l : List α}

lemma topTies_eq_of_kthBest {w : α} (h : kthBest cmp k l = some w) :
    topTies cmp score k l = sortBy cmp (l.filter fun x => score w ≤ score x) := by
  rw [topTies, h]

/-- What a two-pointer merge of sorted lists leaves behind: the first `k` of the sorted whole, and
an end of each list that together hold the rest. -/
structure MergedUpTo (cmp : α → α → Ordering) (k : ℕ) (xs ys : List α)
    (r : List α × List α × List α) : Prop where
  merged : r.1 = topK cmp k (xs ++ ys)
  rest : (r.2.1 ++ r.2.2).Perm ((sortBy cmp (xs ++ ys)).drop k)
  left : r.2.1 <:+ xs
  right : r.2.2 <:+ ys

section

variable [Std.TransCmp cmp] [Std.LawfulEqCmp cmp]

lemma MergedUpTo.cons {x : α} {xs ys xs' ys' : List α} {r : List α × List α × List α}
    (h : MergedUpTo cmp k xs ys r) (hp : (xs' ++ ys').Perm (x :: (xs ++ ys)))
    (hx : ∀ y ∈ xs ++ ys, RanksLE cmp x y) (hxs : xs <:+ xs') (hys : ys <:+ ys') :
    MergedUpTo cmp (k + 1) xs' ys' (x :: r.1, r.2) := by
  have hsort : sortBy cmp (xs' ++ ys') = x :: sortBy cmp (xs ++ ys) := by
    rw [sortBy_eq_of_perm hp, sortBy_cons_of_ranksLE hx]
  refine ⟨?_, ?_, h.left.trans hxs, h.right.trans hys⟩
  · rw [topK, hsort, take_succ_cons, h.merged, topK]
  · rw [hsort]
    exact h.rest

/-- **The merge is right** when its test is the ranking, on the elements of the two lists. -/
theorem mergeUpTo_spec {xs ys : List α} (hxs : xs.Pairwise (RanksLE cmp))
    (hys : ys.Pairwise (RanksLE cmp)) (hb : ∀ x ∈ xs, ∀ y ∈ ys, before x y = true ↔ cmp x y = .lt)
    (k : ℕ) : MergedUpTo cmp k xs ys (mergeUpTo before k xs ys) := by
  induction k generalizing xs ys with
  | zero =>
    unfold mergeUpTo
    exact ⟨by simp, by simpa using (sortBy_perm _).symm, suffix_rfl, suffix_rfl⟩
  | succ k ih =>
    match xs, ys with
    | [], [] => exact ⟨by simp [mergeUpTo], by simp [mergeUpTo, sortBy], by simp [mergeUpTo],
        by simp [mergeUpTo]⟩
    | x :: xs, [] =>
      obtain ⟨hx, hxs⟩ := pairwise_cons.1 hxs
      exact (ih hxs hys (by simp)).cons (by simp) (by simpa using hx) (suffix_cons _ _) suffix_rfl
    | [], y :: ys =>
      obtain ⟨hy, hys⟩ := pairwise_cons.1 hys
      exact (ih hxs hys (by simp)).cons (by simp) (by simpa using hy) suffix_rfl (suffix_cons _ _)
    | x :: xs, y :: ys =>
      obtain ⟨hx, hxs'⟩ := pairwise_cons.1 hxs
      obtain ⟨hy, hys'⟩ := pairwise_cons.1 hys
      rw [mergeUpTo]
      split
      · rename_i hxy
        have hlt : cmp x y = .lt := (hb x (by simp) y (by simp)).1 hxy
        refine (ih hxs' hys fun a ha b hb' => hb a (by simp [ha]) b hb').cons (by simp) ?_
          (suffix_cons _ _) suffix_rfl
        intro z hz
        rcases mem_append.1 hz with hz | hz
        · exact hx z hz
        · rcases mem_cons.1 hz with rfl | hz
          exacts [RanksLE.of_lt hlt, (RanksLE.of_lt hlt).trans (hy z hz)]
      · rename_i hxy
        have hle : RanksLE cmp y x := by
          by_contra h
          exact hxy ((hb x (by simp) y (by simp)).2 ((not_ranksLE_iff cmp).1 h))
        refine (ih hxs hys' fun a ha b hb' => hb a ha b (by simp [hb'])).cons
          perm_middle ?_ suffix_rfl (suffix_cons _ _)
        intro z hz
        rcases mem_append.1 hz with hz | hz
        · rcases mem_cons.1 hz with rfl | hz
          exacts [hle, hle.trans (hx z hz)]
        · exact hy z hz

lemma topTies_eq_of_perm {l' : List α} (h : l.Perm l') :
    topTies cmp score k l = topTies cmp score k l' := by
  have hk : kthBest cmp k l = kthBest cmp k l' := by rw [kthBest, kthBest, sortBy_eq_of_perm h]
  unfold topTies
  rw [hk]
  split
  · exact sortBy_eq_of_perm h
  · exact sortBy_eq_of_perm (h.filter _)

section

variable (hs : RanksByScore cmp score) (hk : 0 < k)

include hs hk

/-- Ties are kept behind the cut. -/
lemma topTies_eq_topK_append {w : α} (h : kthBest cmp k l = some w) : topTies cmp score k l =
      topK cmp k l ++ ((sortBy cmp l).drop k).filter fun x => score x = score w := by
  obtain ⟨t, -, htop⟩ := kthBest_split hk h
  have hw : w ∈ topK cmp k l := by rw [htop]; simp
  have hp : (topK cmp k l).Pairwise (RanksLE cmp) := pairwise_topK k l
  rw [htop, pairwise_append] at hp
  rw [topTies_eq_of_kthBest h, sortBy_filter]
  nth_rewrite 1 [← take_append_drop k (sortBy cmp l)]
  rw [filter_append]
  refine congrArg₂ (· ++ ·) (filter_eq_self.2 fun x hx => decide_eq_true ?_)
    (filter_congr fun x hx => ?_)
  · have hx' : x ∈ topK cmp (k - 1) l ++ [w] := htop ▸ hx
    rcases mem_append.1 hx' with hx' | hx'
    · exact hs.score_le (hp.2.2 x hx' w (by simp))
    · rw [mem_singleton.1 hx']
  · have hle := hs.score_le (ranksLE_of_mem_topK hw hx)
    rw [Bool.eq_iff_iff, decide_eq_true_iff, decide_eq_true_iff]
    exact ⟨fun h => le_antisymm hle h, fun h => h.ge⟩

lemma topK_topTies (l : List α) : topK cmp k (topTies cmp score k l) = topK cmp k l := by
  cases h : kthBest cmp k l with
  | none =>
    rw [topTies, h]
    exact topK_eq_of_perm (sortBy_perm l)
  | some w =>
    rw [topTies_eq_of_kthBest h, topK_eq_of_perm (sortBy_perm _)]
    exact (topK_filter_of_isFloor hs (isFloor_kthBest hs hk h)).symm

lemma topK_topTies_append (l xs : List α) :
    topK cmp k (topTies cmp score k l ++ xs) = topK cmp k (l ++ xs) := by
  rw [← topK_topK_append, topK_topTies hs hk, topK_topK_append]

/-- **Keeping ties part by part.** -/
theorem topTies_topTies_append (l xs : List α) :
    topTies cmp score k (topTies cmp score k l ++ xs) = topTies cmp score k (l ++ xs) := by
  cases h : kthBest cmp k l with
  | none =>
    refine topTies_eq_of_perm (List.Perm.append_right xs ?_)
    rw [topTies, h]
    exact sortBy_perm l
  | some w =>
    have hkth : kthBest cmp k (topTies cmp score k l ++ xs) = kthBest cmp k (l ++ xs) := by
      rw [kthBest_eq_getElem?_topK hk, kthBest_eq_getElem?_topK hk, topK_topTies_append hs hk]
    obtain ⟨w', hw', hle⟩ := exists_kthBest_append hs hk h xs
    rw [topTies_eq_of_kthBest hw', topTies_eq_of_kthBest (hkth.trans hw')]
    refine sortBy_eq_of_perm ?_
    rw [filter_append, filter_append]
    refine List.Perm.append_right _ ?_
    rw [topTies_eq_of_kthBest h]
    refine ((sortBy_perm _).filter _).trans ?_
    rw [filter_filter]
    refine List.Perm.of_eq (filter_congr fun x _ => ?_)
    rw [Bool.and_eq_left_iff_imp, decide_eq_true_iff, decide_eq_true_iff]
    exact fun hx => hle.trans hx

/-- Elements below the `k`-th best leave it and its ties alone. -/
lemma topTies_append_of_lt {w : α} {xs : List α}
    (h : kthBest cmp k l = some w) (hxs : ∀ x ∈ xs, score x < score w) :
    topTies cmp score k (l ++ xs) = topTies cmp score k l := by
  have htop : topK cmp k (l ++ xs) = topK cmp k l := by
    rw [topK_eq_of_perm perm_append_comm]
    refine topK_append_of_isFloor hs fun d hd => ⟨score w, hxs d hd, ?_⟩
    exact (isFloor_kthBest hs hk h).append_left xs
  have hkth : kthBest cmp k (l ++ xs) = some w := by
    rw [kthBest_eq_getElem?_topK hk, htop, ← kthBest_eq_getElem?_topK hk, h]
  have hnil : xs.filter (fun x => score w ≤ score x) = [] :=
    filter_eq_nil_iff.2 fun x hx => by simpa using hxs x hx
  rw [topTies_eq_of_kthBest hkth, topTies_eq_of_kthBest h, filter_append, hnil, append_nil]

end

end

end ProtomoltSearch.TopK
