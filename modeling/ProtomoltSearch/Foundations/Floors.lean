import ProtomoltSearch.Foundations.TopK

/-!
# Floors: lower bounds on the `k`-th best score

A party of a distributed top-`k` search skips the candidates that score below a floor. A floor is
safe when `k` of all the candidates score at or above it. Candidates that scored below some safe
floor, each below its own, may be lost together (`topK_append_of_isFloor`).
-/

namespace ProtomoltSearch.TopK

open List

variable {α S : Type*} [LinearOrder S]

/-- The `k`-th best element of a list, counted from one. -/
def kthBest (cmp : α → α → Ordering) (k : ℕ) (l : List α) : Option α := (sortBy cmp l)[k - 1]?

/-- A higher score ranks first. -/
def RanksByScore (cmp : α → α → Ordering) (score : α → S) : Prop :=
  ∀ ⦃a b⦄, score b < score a → cmp a b = .lt

/-- **A safe floor**: `k` elements of the list score at or above it. -/
def IsFloor (score : α → S) (k : ℕ) (l : List α) (f : S) : Prop :=
  k ≤ l.countP (fun x => decide (f ≤ score x))

variable {cmp : α → α → Ordering} {score : α → S} {k : ℕ} {l : List α} {f : S}

lemma RanksByScore.score_le [Std.TransCmp cmp] (h : RanksByScore cmp score) {a b : α}
    (hab : RanksLE cmp a b) : score b ≤ score a := by
  by_contra hlt
  exact ((not_ranksLE_iff cmp).2 (h (not_le.1 hlt))) hab

section

variable (h : IsFloor score k l f)

include h

lemma IsFloor.anti {f' : S} (hf : f' ≤ f) : IsFloor score k l f' :=
  h.trans (countP_mono_left fun x _ hx => by
    rw [decide_eq_true_iff] at hx ⊢
    exact hf.trans hx)

lemma IsFloor.of_perm {l' : List α} (hl : l.Perm l') : IsFloor score k l' f := by
  rwa [IsFloor, ← hl.countP_eq]

lemma IsFloor.append_right (l' : List α) : IsFloor score k (l ++ l') f := by
  rw [IsFloor] at h ⊢
  rw [countP_append]
  omega

lemma IsFloor.append_left (l' : List α) : IsFloor score k (l' ++ l) f :=
  (h.append_right l').of_perm perm_append_comm

lemma IsFloor.length_le : k ≤ l.length :=
  le_trans h countP_le_length

end

lemma kthBest_eq_some (hk : 0 < k) (hl : k ≤ l.length) : ∃ w ∈ l, kthBest cmp k l = some w := by
  have hlt : k - 1 < (sortBy cmp l).length := by rw [length_sortBy]; omega
  exact ⟨(sortBy cmp l)[k - 1], mem_sortBy.1 (getElem_mem hlt), getElem?_eq_getElem hlt⟩

/-- The worst element of a full heap is the `k`-th best of what it was offered. -/
lemma peek_topK (hk : 0 < k) (hl : k ≤ l.length) : peek (topK cmp k l) = kthBest cmp k l := by
  rw [peek, getLast?_eq_getElem?, length_topK, min_eq_left hl, topK, kthBest,
    getElem?_take, if_pos (by omega)]

lemma kthBest_eq_getElem?_topK (hk : 0 < k) (l : List α) :
    kthBest cmp k l = (topK cmp k l)[k - 1]? := by
  rw [kthBest, topK, getElem?_take, if_pos (by omega)]

/-- The `k`-th best of a list splits its sorted form. -/
lemma kthBest_split {w : α} (hk : 0 < k) (h : kthBest cmp k l = some w) :
    ∃ t, sortBy cmp l = topK cmp (k - 1) l ++ w :: t ∧ topK cmp k l = topK cmp (k - 1) l ++ [w] := by
  obtain ⟨_, hw⟩ := List.getElem?_eq_some_iff.1 h
  refine ⟨(sortBy cmp l).drop (k - 1 + 1), ?_, ?_⟩
  · rw [topK, ← hw, ← List.drop_eq_getElem_cons, List.take_append_drop]
  · rw [topK, topK, ← hw, ← take_succ_eq_append_getElem, Nat.sub_add_cancel hk]

section

variable [Std.TransCmp cmp]

section

variable (hs : RanksByScore cmp score) (hk : 0 < k)

include hs hk

/-- The score of the `k`-th best is a safe floor. -/
lemma isFloor_kthBest {w : α} (h : kthBest cmp k l = some w) : IsFloor score k l (score w) := by
  obtain ⟨t, hsort, htop⟩ := kthBest_split hk h
  have hlen : (topK cmp (k - 1) l ++ [w]).length = k := by
    have hl : (sortBy cmp l).length = l.length := length_sortBy l
    rw [hsort, length_append, length_cons, length_topK] at hl
    rw [length_append, length_topK, length_singleton]
    omega
  have hp : (topK cmp k l).Pairwise (RanksLE cmp) := pairwise_topK k l
  have hall : (topK cmp k l).countP (fun x => decide (score w ≤ score x)) = k := by
    refine (countP_eq_length.2 fun x hx => ?_).trans (htop ▸ hlen)
    rw [decide_eq_true_iff]
    rw [htop, mem_append, mem_singleton] at hx
    rw [htop, pairwise_append] at hp
    rcases hx with hx | rfl
    · exact hs.score_le (hp.2.2 x hx w (by simp))
    · exact le_rfl
  rw [IsFloor, ← (topK_append_drop_perm cmp k l).countP_eq, countP_append, hall]
  exact Nat.le_add_right _ _

/-- A safe floor is at most the score of the `k`-th best. -/
lemma IsFloor.le_kthBest {w : α}
    (hf : IsFloor score k l f) (h : kthBest cmp k l = some w) : f ≤ score w := by
  by_contra hlt
  obtain ⟨t, hsort, -⟩ := kthBest_split hk h
  have hp : (sortBy cmp l).Pairwise (RanksLE cmp) := pairwise_sortBy l
  rw [hsort, pairwise_append, pairwise_cons] at hp
  -- nothing from the `k`-th place on scores at or above the floor
  have hzero : (w :: t).countP (fun x => decide (f ≤ score x)) = 0 := by
    refine countP_eq_zero.2 fun x hx => ?_
    rw [decide_eq_true_iff]
    rcases mem_cons.1 hx with rfl | hx
    · exact hlt
    · exact fun hfx => hlt (hfx.trans (hs.score_le (hp.2.1.1 x hx)))
  rw [IsFloor, ← (sortBy_perm l).countP_eq, hsort, countP_append] at hf
  have := countP_le_length (p := fun x => decide (f ≤ score x)) (l := topK cmp (k - 1) l)
  rw [length_topK] at this
  omega

/-- More elements only raise the `k`-th best. -/
lemma exists_kthBest_append {w : α} (h : kthBest cmp k l = some w) (xs : List α) :
    ∃ w', kthBest cmp k (l ++ xs) = some w' ∧ score w ≤ score w' := by
  have hfloor := (isFloor_kthBest hs hk h).append_right xs
  obtain ⟨w', -, hw'⟩ := kthBest_eq_some hk hfloor.length_le
  exact ⟨w', hw', hfloor.le_kthBest hs hk hw'⟩

end

end

lemma exists_max_score (score : α → S) {l : List α} (h : l ≠ []) :
    ∃ x ∈ l, ∀ y ∈ l, score y ≤ score x := by
  induction l with
  | nil => exact absurd rfl h
  | cons a t ih =>
    rcases eq_or_ne t [] with rfl | ht
    · exact ⟨a, by simp, fun y hy => by simp_all⟩
    · obtain ⟨x, hx, hmax⟩ := ih ht
      rcases le_total (score a) (score x) with hax | hxa
      · refine ⟨x, by simp [hx], fun y hy => ?_⟩
        rcases mem_cons.1 hy with rfl | hy
        exacts [hax, hmax y hy]
      · refine ⟨a, by simp, fun y hy => ?_⟩
        rcases mem_cons.1 hy with rfl | hy
        exacts [le_rfl, (hmax y hy).trans hxa]

/-- Elements below a safe floor are not the ones that make it safe. -/
lemma IsFloor.of_append_below {dropped : List α} (hf : IsFloor score k (dropped ++ l) f)
    (h : ∀ d ∈ dropped, score d < f) : IsFloor score k l f := by
  have hzero : dropped.countP (fun x => decide (f ≤ score x)) = 0 :=
    countP_eq_zero.2 fun d hd => by simpa using h d hd
  rw [IsFloor, countP_append] at hf
  rw [IsFloor]
  omega

section

variable [Std.TransCmp cmp] [Std.LawfulEqCmp cmp] (hs : RanksByScore cmp score)

include hs

/-- **Pruning below safe floors loses nothing.** Each lost element scored below some floor that
`k` of all the elements, the lost ones included, reach. -/
theorem topK_append_of_isFloor {kept dropped : List α}
    (h : ∀ d ∈ dropped, ∃ f, score d < f ∧ IsFloor score k (dropped ++ kept) f) :
    topK cmp k (dropped ++ kept) = topK cmp k kept := by
  rcases eq_or_ne dropped [] with rfl | hne
  · rfl
  -- the floor of the best lost element is above every lost element, so `k` kept ones reach it
  obtain ⟨m, hm, hmax⟩ := exists_max_score score hne
  obtain ⟨f, hmf, hf⟩ := h m hm
  have hkept := hf.of_append_below fun d hd => (hmax d hd).trans_lt hmf
  refine topK_append_of_countP fun d hd => hkept.trans (countP_mono_left fun x _ hx => ?_)
  rw [decide_eq_true_iff] at hx ⊢
  exact RanksLE.of_lt (hs (((hmax d hd).trans_lt hmf).trans_le hx))

/-- Only elements at or above a safe floor matter. -/
lemma topK_filter_of_isFloor (hf : IsFloor score k l f) :
    topK cmp k l = topK cmp k (l.filter fun x => f ≤ score x) := by
  have hperm := (filter_append_perm (fun x => decide (f ≤ score x)) l).symm.trans perm_append_comm
  rw [topK_eq_of_perm hperm]
  refine topK_append_of_isFloor hs fun d hd => ⟨f, ?_, hf.of_perm hperm⟩
  simpa using (mem_filter.1 hd).2

end

section

variable {p : α → Bool} (h : l.Pairwise fun x y => p y → p x)

include h

/-- A test that only the first elements of a list pass commutes with a cut. -/
lemma filter_take_of_pairwise (k : ℕ) : (l.take k).filter p = (l.filter p).take k := by
  induction l generalizing k with
  | nil => simp
  | cons x t ih =>
    obtain ⟨hx, ht⟩ := pairwise_cons.1 h
    cases k with
    | zero => simp
    | succ k =>
      rw [take_succ_cons]
      by_cases hp : p x
      · rw [filter_cons_of_pos hp, filter_cons_of_pos hp, take_succ_cons, ih ht]
      · have hnil : t.filter p = [] := filter_eq_nil_iff.2 fun y hy hpy => hp (hx y hy hpy)
        rw [filter_cons_of_neg hp, filter_cons_of_neg hp, ih ht, hnil]
        simp

lemma takeWhile_eq_filter : l.takeWhile p = l.filter p := by
  induction l with
  | nil => rfl
  | cons x t ih =>
    obtain ⟨hx, ht⟩ := pairwise_cons.1 h
    by_cases hp : p x
    · rw [takeWhile_cons_of_pos hp, filter_cons_of_pos hp, ih ht]
    · have hnil : t.filter p = [] := filter_eq_nil_iff.2 fun y hy hpy => hp (hx y hy hpy)
      rw [takeWhile_cons_of_neg hp, filter_cons_of_neg hp, hnil]

end

/-- Cutting and then raising the floor is raising the floor and then cutting. -/
lemma filter_topK [Std.TransCmp cmp] [Std.LawfulEqCmp cmp] (hs : RanksByScore cmp score) (f : S)
    (k : ℕ) (l : List α) :
    (topK cmp k l).filter (fun x => f ≤ score x) = topK cmp k (l.filter fun x => f ≤ score x) := by
  rw [topK, topK, sortBy_filter]
  refine filter_take_of_pairwise ((pairwise_sortBy l).imp fun {x y} hxy => ?_) k
  intro hf
  exact decide_eq_true ((of_decide_eq_true hf).trans (hs.score_le hxy))

end ProtomoltSearch.TopK
