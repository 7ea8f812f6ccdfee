import Mathlib

/-!
# The `k` best of a list

A ranking is given by a comparison function `cmp`, the better of two elements comparing `lt`. `sortBy
cmp` sorts by it and `topK cmp k` sorts and cuts. A distributed top-`k` rests on what may be left out
of a list without changing its `k` best:

* an element that `k` others rank at or before (`topK_append_of_countP`);
* everything a first cut removed (`topK_topK_append`, `topK_append_topK`), so that the cuts of the
  parts of a list may be merged.

The second half is the bounded heap of the `k` best elements offered so far (`offer`, `foldl_offer`).
-/

namespace ProtomoltSearch.TopK

open List

variable {α : Type*} (cmp : α → α → Ordering)

/-- `a` ranks at or before `b`. -/
def RanksLE (a b : α) : Prop := (cmp a b).isLE = true

instance : DecidableRel (RanksLE cmp) := fun a b =>
  inferInstanceAs (Decidable ((cmp a b).isLE = true))

section

variable [Std.TransCmp cmp]

lemma cmp_swap (a b : α) : cmp a b = (cmp b a).swap := Std.OrientedCmp.eq_swap

instance : IsTrans α (RanksLE cmp) := ⟨fun _ _ _ => Std.TransCmp.isLE_trans⟩

instance : Std.Total (RanksLE cmp) := by
  refine ⟨fun a b => ?_⟩
  rw [RanksLE, RanksLE, cmp_swap cmp b a]
  cases cmp a b <;> simp

instance [Std.LawfulEqCmp cmp] : Std.Antisymm (RanksLE cmp) := by
  refine ⟨fun a b hab hba => ?_⟩
  rw [RanksLE, cmp_swap cmp b a] at hba
  rw [RanksLE] at hab
  have h : cmp a b = .eq := by
    cases h : cmp a b <;> simp_all
  exact Std.LawfulEqCmp.eq_of_compare h

lemma not_ranksLE_iff {a b : α} : ¬ RanksLE cmp a b ↔ cmp b a = .lt := by
  rw [RanksLE, cmp_swap cmp a b]
  cases cmp b a <;> simp

variable {cmp}

lemma RanksLE.trans {a b c : α} (hab : RanksLE cmp a b) (hbc : RanksLE cmp b c) :
    RanksLE cmp a c := IsTrans.trans a b c hab hbc

lemma RanksLE.refl (a : α) : RanksLE cmp a a := (Std.Total.total a a).elim id id

end

lemma RanksLE.of_lt {cmp : α → α → Ordering} {a b : α} (h : cmp a b = .lt) : RanksLE cmp a b := by
  rw [RanksLE, h]; rfl

/-- Sort by `cmp`, the best first. The sort is stable. -/
def sortBy (l : List α) : List α := l.insertionSort (RanksLE cmp)

/-- The `k` best of a list, the best first. -/
def topK (k : ℕ) (l : List α) : List α := (sortBy cmp l).take k

variable {cmp} {k : ℕ} {l : List α}

lemma sortBy_perm (l : List α) : (sortBy cmp l).Perm l := List.perm_insertionSort _ _

@[simp]
lemma mem_sortBy {x : α} : x ∈ sortBy cmp l ↔ x ∈ l := List.mem_insertionSort _

@[simp]
lemma length_sortBy (l : List α) : (sortBy cmp l).length = l.length := List.length_insertionSort _ _

@[simp]
lemma length_topK (k : ℕ) (l : List α) : (topK cmp k l).length = min k l.length := by
  simp [topK]

lemma mem_of_mem_topK {x : α} (h : x ∈ topK cmp k l) : x ∈ l :=
  mem_sortBy.1 (mem_of_mem_take h)

lemma topK_of_length_le (h : l.length ≤ k) : topK cmp k l = sortBy cmp l :=
  take_of_length_le (by simpa using h)

@[simp]
lemma topK_nil : topK cmp k [] = [] := by simp [topK, sortBy]

@[simp]
lemma topK_zero : topK cmp 0 l = [] := by simp [topK]

lemma topK_append_drop_perm (cmp : α → α → Ordering) (k : ℕ) (l : List α) :
    (topK cmp k l ++ (sortBy cmp l).drop k).Perm l := by
  rw [topK, take_append_drop]
  exact sortBy_perm l

lemma sortBy_eq_self (h : l.Pairwise (RanksLE cmp)) : sortBy cmp l = l := h.insertionSort_eq

lemma orderedInsert_congr {r s : α → α → Prop} [DecidableRel r] [DecidableRel s] {x : α}
    (h : ∀ y ∈ l, r x y ↔ s x y) : l.orderedInsert r x = l.orderedInsert s x := by
  induction l with
  | nil => rfl
  | cons y t ih =>
    rw [orderedInsert_cons, orderedInsert_cons, ih fun z hz => h z (by simp [hz])]
    exact if_congr (h y (by simp)) rfl rfl

lemma sortBy_congr {cmp' : α → α → Ordering} (h : ∀ x ∈ l, ∀ y ∈ l, cmp x y = cmp' x y) :
    sortBy cmp l = sortBy cmp' l := by
  induction l with
  | nil => rfl
  | cons x t ih =>
    rw [sortBy, sortBy, insertionSort_cons, insertionSort_cons, ← sortBy, ← sortBy,
      ih fun a ha b hb => h a (by simp [ha]) b (by simp [hb])]
    refine orderedInsert_congr fun y hy => ?_
    rw [RanksLE, RanksLE, h x (by simp) y (by simp [mem_sortBy.1 hy])]

lemma countP_sortBy (p : α → Bool) (l : List α) : (sortBy cmp l).countP p = l.countP p :=
  (sortBy_perm l).countP_eq p

section

variable [Std.TransCmp cmp]

lemma pairwise_sortBy (l : List α) : (sortBy cmp l).Pairwise (RanksLE cmp) :=
  pairwise_insertionSort _ _

lemma pairwise_topK (k : ℕ) (l : List α) : (topK cmp k l).Pairwise (RanksLE cmp) :=
  (pairwise_sortBy l).sublist (take_sublist k _)

lemma sortBy_topK (k : ℕ) (l : List α) : sortBy cmp (topK cmp k l) = topK cmp k l :=
  sortBy_eq_self (pairwise_topK k l)

lemma topK_topK_of_le {j : ℕ} (h : k ≤ j) : topK cmp k (topK cmp j l) = topK cmp k l := by
  rw [topK, sortBy_topK, topK, topK, take_take, min_eq_left h]

/-- Every element a cut keeps ranks at or before every element it removes. -/
lemma ranksLE_of_mem_topK {x y : α} (hx : x ∈ topK cmp k l) (hy : y ∈ (sortBy cmp l).drop k) :
    RanksLE cmp x y := by
  have h : (sortBy cmp l).Pairwise (RanksLE cmp) := pairwise_sortBy l
  rw [← take_append_drop k (sortBy cmp l), pairwise_append] at h
  exact h.2.2 x hx y hy

/-- Everything a cut keeps ranks at or before each element it removes: `k` of them. -/
lemma le_countP_topK_of_mem_drop {d : α} (hd : d ∈ (sortBy cmp l).drop k) :
    k ≤ (topK cmp k l).countP (RanksLE cmp · d) := by
  have hlen : k < l.length := by
    have := length_pos_of_mem hd
    simp only [length_drop, length_sortBy] at this
    omega
  rw [countP_eq_length.2 fun x hx => decide_eq_true (ranksLE_of_mem_topK hx hd), length_topK]
  omega

end

section

variable [Std.TransCmp cmp] [Std.LawfulEqCmp cmp]

lemma sortBy_eq_of_perm {l₁ l₂ : List α} (h : l₁.Perm l₂) : sortBy cmp l₁ = sortBy cmp l₂ :=
  List.Perm.eq_of_pairwise' (pairwise_sortBy l₁) (pairwise_sortBy l₂)
    ((sortBy_perm l₁).trans (h.trans (sortBy_perm l₂).symm))

lemma topK_eq_of_perm {l₁ l₂ : List α} (h : l₁.Perm l₂) : topK cmp k l₁ = topK cmp k l₂ := by
  rw [topK, topK, sortBy_eq_of_perm h]

/-- Inserting behind `k` elements of a sorted list leaves its first `k` elements alone. -/
lemma take_orderedInsert_of_countP {d : α} {s : List α} (hs : s.Pairwise (RanksLE cmp)) {k : ℕ}
    (h : k ≤ s.countP (RanksLE cmp · d)) : (s.orderedInsert (RanksLE cmp) d).take k = s.take k := by
  induction s generalizing k with
  | nil =>
    obtain rfl : k = 0 := by simpa using h
    rfl
  | cons b t ih =>
    cases k with
    | zero => rfl
    | succ k =>
      rw [pairwise_cons] at hs
      have hk : k ≤ t.countP (RanksLE cmp · d) := by
        rw [countP_cons] at h
        split at h <;> omega
      by_cases hdb : RanksLE cmp d b
      · -- some element ranks at or before `d`, so the head does, and equals it
        have hbd : RanksLE cmp b d := by
          obtain ⟨x, hx, hxd⟩ := countP_pos_iff.1 (lt_of_lt_of_le (Nat.succ_pos k) h)
          rw [decide_eq_true_iff] at hxd
          rcases mem_cons.1 hx with rfl | hx
          · exact hxd
          · exact (hs.1 x hx).trans hxd
        obtain rfl := Std.Antisymm.antisymm b d hbd hdb
        have hins : t.orderedInsert (RanksLE cmp) b = b :: t := by
          cases t with
          | nil => rfl
          | cons c t => exact orderedInsert_cons_of_le _ _ (hs.1 c (by simp))
        rw [orderedInsert_cons_of_le _ _ hdb, take_succ_cons, take_succ_cons, ← hins, ih hs.2 hk]
      · rw [orderedInsert_of_not_le _ _ hdb, take_succ_cons, take_succ_cons, ih hs.2 hk]

/-- An element that `k` others rank at or before is not among the `k` best. -/
lemma topK_cons_of_countP {d : α} (h : k ≤ l.countP (RanksLE cmp · d)) :
    topK cmp k (d :: l) = topK cmp k l := by
  exact take_orderedInsert_of_countP (pairwise_sortBy l) (by rwa [countP_sortBy])

/-- Losing elements that `k` kept ones rank at or before changes nothing. -/
lemma topK_append_of_countP {kept dropped : List α}
    (h : ∀ d ∈ dropped, k ≤ kept.countP (RanksLE cmp · d)) :
    topK cmp k (dropped ++ kept) = topK cmp k kept := by
  induction dropped with
  | nil => rfl
  | cons d ds ih =>
    have hd := h d (by simp)
    rw [cons_append, topK_cons_of_countP, ih fun d hd => h d (by simp [hd])]
    rw [countP_append]
    omega

/-- A first cut loses nothing: cutting a part of the list before the rest is added. -/
lemma topK_topK_append (k : ℕ) (a b : List α) :
    topK cmp k (topK cmp k a ++ b) = topK cmp k (a ++ b) := by
  have hp : (a ++ b).Perm ((sortBy cmp a).drop k ++ (topK cmp k a ++ b)) := by
    rw [← append_assoc]
    exact ((topK_append_drop_perm cmp k a).symm.trans perm_append_comm).append_right b
  rw [topK_eq_of_perm hp]
  refine (topK_append_of_countP fun d hd => ?_).symm
  rw [countP_append]
  have := le_countP_topK_of_mem_drop hd
  omega

lemma topK_append_topK (k : ℕ) (a b : List α) :
    topK cmp k (a ++ topK cmp k b) = topK cmp k (a ++ b) := by
  rw [topK_eq_of_perm perm_append_comm, topK_topK_append, topK_eq_of_perm perm_append_comm]

lemma sortBy_cons_of_ranksLE {x : α} (h : ∀ y ∈ l, RanksLE cmp x y) :
    sortBy cmp (x :: l) = x :: sortBy cmp l := by
  refine List.Perm.eq_of_pairwise' (r := RanksLE cmp) (pairwise_sortBy _)
    (pairwise_cons.2 ⟨fun y hy => h y (mem_sortBy.1 hy), pairwise_sortBy l⟩) ?_
  exact (sortBy_perm _).trans ((sortBy_perm l).symm.cons x)

lemma sortBy_filter (p : α → Bool) (l : List α) :
    sortBy cmp (l.filter p) = (sortBy cmp l).filter p :=
  List.Perm.eq_of_pairwise' (r := RanksLE cmp) (pairwise_sortBy _) ((pairwise_sortBy l).filter p)
    ((sortBy_perm _).trans ((sortBy_perm l).filter p).symm)

/-- Being among the `k` best is having fewer than `k` elements ahead. -/
lemma mem_topK_iff {x : α} (hl : l.Nodup) (hx : x ∈ l) :
    x ∈ topK cmp k l ↔ l.countP (fun y => cmp y x = .lt) < k := by
  have hx' : x ∈ sortBy cmp l := mem_sortBy.2 hx
  have hcnt : (sortBy cmp l).countP (fun y => cmp y x = .lt) =
      l.countP fun y => cmp y x = .lt := countP_sortBy _ l
  obtain ⟨a, b, hab⟩ := append_of_mem hx'
  have hs : (sortBy cmp l).Pairwise (RanksLE cmp) := pairwise_sortBy l
  have hn : (sortBy cmp l).Nodup := (sortBy_perm l).nodup_iff.2 hl
  rw [hab] at hs hn
  rw [pairwise_append, pairwise_cons] at hs
  -- what stands before `x` ranks ahead of it, what stands after does not
  have hbef : a.countP (fun y => cmp y x = .lt) = a.length := by
    refine countP_eq_length.2 fun y hy => decide_eq_true ?_
    by_contra hlt
    have hxy : RanksLE cmp x y := by
      by_contra h
      exact hlt ((not_ranksLE_iff cmp).1 h)
    obtain rfl := Std.Antisymm.antisymm y x (hs.2.2 y hy x (by simp)) hxy
    exact (nodup_append.1 hn).2.2 y hy y (by simp) rfl
  have haft : (x :: b).countP (fun y => cmp y x = .lt) = 0 := by
    refine countP_eq_zero.2 fun y hy => ?_
    rw [decide_eq_true_iff, ← not_ranksLE_iff, not_not]
    rcases mem_cons.1 hy with rfl | hy
    exacts [RanksLE.refl y, hs.2.1.1 y hy]
  rw [← hcnt, hab, countP_append, hbef, haft, topK, hab, take_append, mem_append]
  constructor
  · rintro (h | h)
    · exact absurd rfl ((nodup_append.1 hn).2.2 x (mem_of_mem_take h) x (by simp))
    · by_contra hk
      rw [show k - a.length = 0 by omega] at h
      simp at h
  · intro h
    right
    obtain ⟨m, hm⟩ : ∃ m, k - a.length = m + 1 := ⟨k - a.length - 1, by omega⟩
    rw [hm]
    exact mem_cons_self

/-- A part that holds the `k` best has the same `k` best. -/
lemma topK_of_topK_subset {kept all : List α} (hk : kept.Nodup) (ha : all.Nodup)
    (hsub : kept ⊆ all) (h : ∀ x ∈ topK cmp k all, x ∈ kept) :
    topK cmp k kept = topK cmp k all := by
  obtain ⟨l, hl, hsubl⟩ := subperm_of_subset hk hsub
  obtain ⟨dropped, hdropped⟩ := hsubl.exists_perm_append
  have hperm := hdropped.trans ((hl.append_right dropped).trans perm_append_comm)
  have hdisj := (nodup_append.1 (hperm.nodup_iff.1 ha)).2.2
  rw [topK_eq_of_perm hperm]
  refine (topK_append_of_countP fun d hd => ?_).symm
  have hmem : d ∈ (sortBy cmp all).drop k := by
    have hd' : d ∈ sortBy cmp all := mem_sortBy.2 (hperm.mem_iff.2 (mem_append_left _ hd))
    rw [← take_append_drop k (sortBy cmp all), mem_append] at hd'
    exact hd'.resolve_left fun htop => hdisj d hd d (h d htop) rfl
  have hnd : (topK cmp k all).Nodup :=
    ((sortBy_perm all).nodup_iff.2 ha).sublist (take_sublist _ _)
  exact (le_countP_topK_of_mem_drop hmem).trans ((subperm_of_subset hnd h).countP_le _)

end

/-- Insert into a heap, held as the sorted list of its elements. -/
def push (cmp : α → α → Ordering) (h : List α) (x : α) : List α := h.orderedInsert (RanksLE cmp) x

/-- The worst element of a heap. -/
def peek (h : List α) : Option α := h.getLast?

/-- Remove the worst element of a heap. -/
def pop (h : List α) : List α := h.dropLast

/-- One round of a bounded heap: a heap below its capacity takes the element, a full one
takes it in place of its worst element when it is strictly better. -/
def offer (cmp : α → α → Ordering) (k : ℕ) (h : List α) (x : α) : List α :=
  if h.length < k then push cmp h x
  else
    match peek h with
    | some worst => if cmp x worst = .lt then push cmp (pop h) x else h
    | none => h

lemma topK_succ_eq (hl : k + 1 ≤ l.length) :
    ∃ w t, topK cmp (k + 1) l = topK cmp k l ++ [w] ∧ (sortBy cmp l).drop k = w :: t := by
  have hlt : k < (sortBy cmp l).length := by rw [length_sortBy]; omega
  refine ⟨(sortBy cmp l)[k], (sortBy cmp l).drop (k + 1), ?_, drop_eq_getElem_cons hlt⟩
  rw [topK, topK, take_succ_eq_append_getElem hlt]

/-- The elements of a full heap rank at or before its worst element: `k` of them. -/
lemma le_countP_of_topK {w : α} (hl : k ≤ l.length)
    (hw : ∀ x ∈ topK cmp k l, RanksLE cmp x w) : k ≤ l.countP (RanksLE cmp · w) := by
  have hle : (topK cmp k l).countP (RanksLE cmp · w) ≤ l.countP (RanksLE cmp · w) := by
    rw [← (topK_append_drop_perm cmp k l).countP_eq, countP_append]
    omega
  rw [countP_eq_length.2 fun x hx => decide_eq_true (hw x hx), length_topK] at hle
  omega

/-- Inserting before everything a cut removes and cutting one later is inserting into the cut. -/
lemma take_succ_orderedInsert {x : α} {s : List α} {k : ℕ} (h : ∀ y ∈ s.drop k, RanksLE cmp x y) :
    (s.orderedInsert (RanksLE cmp) x).take (k + 1) = (s.take k).orderedInsert (RanksLE cmp) x := by
  induction s generalizing k with
  | nil => simp
  | cons b t ih =>
    cases k with
    | zero => simp [orderedInsert_cons_of_le _ _ (h b (by simp))]
    | succ k =>
      by_cases hxb : RanksLE cmp x b
      · simp [hxb]
      · rw [orderedInsert_of_not_le _ _ hxb, take_succ_cons, ih (by simpa using h),
          take_succ_cons, orderedInsert_of_not_le _ _ hxb]

section

variable [Std.TransCmp cmp] [Std.LawfulEqCmp cmp]

/-- A bounded heap holds the `k` best elements it was offered, one round. -/
lemma offer_topK (k : ℕ) (l : List α) (x : α) :
    offer cmp k (topK cmp k l) x = topK cmp k (x :: l) := by
  by_cases hl : l.length < k
  · rw [offer, if_pos (by rw [length_topK]; omega), topK_of_length_le hl.le,
      topK_of_length_le (by rw [length_cons]; omega)]
    rfl
  rw [not_lt] at hl
  rw [offer, if_neg (by rw [length_topK]; omega)]
  cases k with
  | zero => simp [peek]
  | succ k =>
    obtain ⟨w, t, hw, hd⟩ := topK_succ_eq hl
    have hs : ((sortBy cmp l).drop k).Pairwise (RanksLE cmp) :=
      (pairwise_sortBy l).sublist (drop_sublist k _)
    rw [hw, peek, getLast?_concat]
    dsimp only
    split
    · next hxw =>
      -- the element goes in front of all that a cut at `k` removes
      rw [pop, dropLast_concat]
      refine (take_succ_orderedInsert fun y hy => (RanksLE.of_lt hxw).trans ?_).symm
      change y ∈ (sortBy cmp l).drop k at hy
      rw [hd] at hy hs
      rcases mem_cons.1 hy with rfl | hy
      · exact RanksLE.refl y
      · exact (pairwise_cons.1 hs).1 y hy
    · next hxw =>
      have hwx : RanksLE cmp w x := by
        by_contra h
        exact hxw ((not_ranksLE_iff cmp).1 h)
      rw [← hw]
      refine (topK_cons_of_countP (le_countP_of_topK hl fun y hy => ?_)).symm
      rw [hw, mem_append, mem_singleton] at hy
      rcases hy with hy | rfl
      · exact (ranksLE_of_mem_topK hy (by rw [hd]; simp)).trans hwx
      · exact hwx

/-- **The whole loop of a bounded heap.** -/
theorem foldl_offer (k : ℕ) (l xs : List α) :
    xs.foldl (offer cmp k) (topK cmp k l) = topK cmp k (l ++ xs) := by
  induction xs generalizing l with
  | nil => rw [append_nil, foldl_nil]
  | cons x xs ih =>
    rw [foldl_cons, offer_topK, ih]
    exact topK_eq_of_perm perm_middle.symm

end

end ProtomoltSearch.TopK
