import ProtomoltSearch.Foundations.Numbers
import ProtomoltSearch.Foundations.Ties

/-!
# The running top-`k` of a chunked scan

A vector scan visits its index chunk by chunk and merges each chunk's hits into a running list
(`chunked.rs`). The list is ordered by `ranksBefore`: numeric score descending, then slot
ascending. The two zeros compare equal here and are ranked by slot.

The merge takes the running list of the slots seen so far to that of those slots and the chunk's
(`mergeChunkHits_spec`).
-/

namespace ProtomoltSearch.Vector

open TopK List

/-- One candidate of a scan: a slot of the index and its score. -/
structure ChunkHit where
  slot : ℕ
  score : F32
  deriving DecidableEq

def ChunkHit.val (h : ChunkHit) : ℤ := h.score.val

/-- Whether `a` ranks ahead of `b`: score descending, ties by ascending slot. -/
def ranksBefore (a b : ChunkHit) : Bool :=
  decide (b.score.val < a.score.val) ||
    (decide (a.score.val = b.score.val) && decide (a.slot < b.slot))

def cmpChunk (a b : ChunkHit) : Ordering :=
  if ranksBefore a b then .lt else if ranksBefore b a then .gt else .eq

/-- Whether the best hit of a sorted chunk cannot change the running list. -/
def cannotDisplace (heap chunk : List ChunkHit) (k : ℕ) (keepTies : Bool) : Bool :=
  match heap[k - 1]?, chunk.head? with
  | some w, some c =>
    if keepTies then decide (c.score.val < w.score.val)
    else heap.length == k && !ranksBefore c w
  | _, _ => false

/-- The hits of a sorted list that tie with the boundary, from its start. -/
def tiesOf (boundary : ChunkHit) (l : List ChunkHit) : List ChunkHit :=
  l.takeWhile fun h => h.score.val = boundary.score.val

/-- The end of a merge: with `keepTies`, and a merge that reached `k` hits, every remaining hit
that ties with the `k`-th rides along, in slot order. -/
def keepBoundaryTies (k : ℕ) (keepTies : Bool) (r : List ChunkHit × List ChunkHit × List ChunkHit) :
    List ChunkHit :=
  match keepTies, r.1[k - 1]? with
  | true, some boundary =>
    r.1 ++ sortBy (compareOn ChunkHit.slot) (tiesOf boundary r.2.1 ++ tiesOf boundary r.2.2)
  | _, _ => r.1

/-- Merge one chunk's hits into the running list: the `k` best, with `keepTies` the ties as well. -/
def mergeChunkHits (heap chunk : List ChunkHit) (k : ℕ) (keepTies : Bool) : List ChunkHit :=
  if chunk.isEmpty then heap
  else
    let chunk := sortBy cmpChunk chunk
    if cannotDisplace heap chunk k keepTies then heap
    else keepBoundaryTies k keepTies (mergeUpTo ranksBefore k heap chunk)

/-- The order of the scan, made total on hits: `cmpChunk`, then the score's place. -/
def cmpRank (a b : ChunkHit) : Ordering :=
  (compare b.val a.val).then ((compare a.slot b.slot).then (compare a.score b.score))

instance : Std.TransCmp cmpRank :=
  inferInstanceAs (Std.TransCmp (compareLex (fun a b => compareOn ChunkHit.val b a)
    (compareLex (compareOn ChunkHit.slot) (compareOn ChunkHit.score))))

instance : Std.LawfulEqCmp cmpRank where
  eq_of_compare {a b} h := by
    obtain ⟨-, h⟩ := Ordering.then_eq_eq.1 h
    obtain ⟨hslot, hscore⟩ := Ordering.then_eq_eq.1 h
    rw [compare_eq_iff_eq] at hslot hscore
    cases a
    cases b
    simp_all

lemma ranksByScore_cmpRank : RanksByScore cmpRank ChunkHit.val := by
  intro a b h
  have : compare b.val a.val = .lt := compare_lt_iff_lt.2 h
  rw [cmpRank, this]
  rfl

/-- Every hit carries the score of its slot. -/
def Scored (score : ℕ → F32) (l : List ChunkHit) : Prop := ∀ h ∈ l, h.score = score h.slot

variable {score : ℕ → F32} {l l' chunk : List ChunkHit} {k : ℕ}

lemma Scored.mono (h : Scored score l) (hl : l' ⊆ l) : Scored score l' := fun x hx => h x (hl hx)

lemma Scored.append (h : Scored score l) (h' : Scored score l') : Scored score (l ++ l') := by
  intro x hx
  rcases mem_append.1 hx with hx | hx
  exacts [h x hx, h' x hx]

variable {a b : ChunkHit}

lemma Scored.eq (h : Scored score l) (ha : a ∈ l) (hb : b ∈ l)
    (hab : a.slot = b.slot) : a = b := by
  have : a.score = b.score := by rw [h a ha, h b hb, hab]
  cases a
  cases b
  simp_all

lemma ranksBefore_iff :
    ranksBefore a b = true ↔ b.val < a.val ∨ a.val = b.val ∧ a.slot < b.slot := by
  simp [ranksBefore, ChunkHit.val]

lemma ranksBefore_iff_cmpRank (h : Scored score l) (ha : a ∈ l) (hb : b ∈ l) :
    ranksBefore a b = true ↔ cmpRank a b = .lt := by
  rw [ranksBefore_iff, cmpRank, Ordering.then_eq_lt, Ordering.then_eq_lt, compare_lt_iff_lt,
    compare_eq_iff_eq, compare_lt_iff_lt, compare_eq_iff_eq, compare_lt_iff_lt]
  constructor
  · rintro (h | ⟨h₁, h₂⟩)
    exacts [.inl h, .inr ⟨h₁.symm, .inl h₂⟩]
  · rintro (hv | ⟨h₁, h₂ | ⟨h₂, h₃⟩⟩)
    · exact .inl hv
    · exact .inr ⟨h₁.symm, h₂⟩
    · rw [h.eq ha hb h₂] at h₃
      exact absurd h₃ (lt_irrefl _)

lemma cmpChunk_eq_cmpRank (h : Scored score l) (ha : a ∈ l) (hb : b ∈ l) :
    cmpChunk a b = cmpRank a b := by
  have hab := ranksBefore_iff_cmpRank h ha hb
  have hba := ranksBefore_iff_cmpRank h hb ha
  rw [cmp_swap cmpRank b a] at hba
  unfold cmpChunk
  cases hc : cmpRank a b <;> simp_all

lemma sortBy_cmpChunk (h : Scored score l) : sortBy cmpChunk l = sortBy cmpRank l :=
  sortBy_congr fun _ ha _ hb => cmpChunk_eq_cmpRank h ha hb

/-- The running list of scanned hits: the `k` best, with or without the ties of the last. -/
def collected (k : ℕ) (keepTies : Bool) (l : List ChunkHit) : List ChunkHit :=
  if keepTies then topTies cmpRank ChunkHit.val k l else topK cmpRank k l

variable {keepTies : Bool}

lemma mem_of_mem_collected {x : ChunkHit} (h : x ∈ collected k keepTies l) : x ∈ l := by
  unfold collected topTies at h
  split at h
  · split at h
    · exact mem_sortBy.1 h
    · exact (mem_filter.1 (mem_sortBy.1 h)).1
  · exact mem_of_mem_topK h

lemma collected_collected_append (hk : 0 < k) (keepTies : Bool) (l xs : List ChunkHit) :
    collected k keepTies (collected k keepTies l ++ xs) = collected k keepTies (l ++ xs) := by
  unfold collected
  split
  · exact topTies_topTies_append ranksByScore_cmpRank hk l xs
  · exact topK_topK_append k l xs

lemma collected_eq_of_perm (h : l.Perm l') :
    collected k keepTies l = collected k keepTies l' := by
  unfold collected
  split
  · exact topTies_eq_of_perm h
  · exact topK_eq_of_perm h

/-- The boundary of the running list is the `k`-th best of what it was offered. -/
lemma getElem?_collected (hk : 0 < k) (keepTies : Bool) (l : List ChunkHit) :
    (collected k keepTies l)[k - 1]? = kthBest cmpRank k l := by
  cases keepTies with
  | false => exact (kthBest_eq_getElem?_topK hk l).symm
  | true =>
    change (topTies cmpRank ChunkHit.val k l)[k - 1]? = _
    cases h : kthBest cmpRank k l with
    | none =>
      rw [topTies, h]
      exact h
    | some w =>
      have htop : (topK cmpRank k l)[k - 1]? = some w := by rw [← kthBest_eq_getElem?_topK hk, h]
      rw [topTies_eq_topK_append ranksByScore_cmpRank hk h,
        List.getElem?_append_left (List.getElem?_eq_some_iff.1 htop).1, htop]

lemma pairwise_collected (keepTies : Bool) (l : List ChunkHit) :
    (collected k keepTies l).Pairwise (RanksLE cmpRank) := by
  unfold collected topTies
  split
  · split <;> exact pairwise_sortBy _
  · exact pairwise_topK k l

/-- A chunk whose best hit cannot displace the boundary changes nothing. -/
lemma collected_append_of_cannotDisplace (hk : 0 < k) (hs : Scored score (l ++ chunk))
    (h : cannotDisplace (collected k keepTies l) (sortBy cmpRank chunk) k keepTies = true) :
    collected k keepTies (l ++ chunk) = collected k keepTies l := by
  unfold cannotDisplace at h
  rw [getElem?_collected hk] at h
  split at h
  · rename_i w c hw hc
    have hbest : ∀ x ∈ chunk, RanksLE cmpRank c x := by
      intro x hx
      obtain ⟨t, ht⟩ := head?_eq_some_iff.1 hc
      have hp : (sortBy cmpRank chunk).Pairwise (RanksLE cmpRank) := pairwise_sortBy chunk
      have hx' : x ∈ sortBy cmpRank chunk := mem_sortBy.2 hx
      rw [ht] at hp hx'
      rcases mem_cons.1 hx' with rfl | hx'
      exacts [RanksLE.refl x, (pairwise_cons.1 hp).1 x hx']
    have hwl : w ∈ l := by
      obtain ⟨hlt, hw'⟩ := List.getElem?_eq_some_iff.1 hw
      exact mem_sortBy.1 (hw' ▸ List.getElem_mem hlt)
    have hcl : c ∈ chunk := mem_sortBy.1 (mem_of_mem_head? hc)
    split at h
    · rename_i hties
      subst hties
      refine topTies_append_of_lt ranksByScore_cmpRank hk hw fun x hx => ?_
      exact (ranksByScore_cmpRank.score_le (hbest x hx)).trans_lt (of_decide_eq_true h)
    · rename_i hties
      obtain rfl : keepTies = false := by simpa using hties
      rw [Bool.and_eq_true, Bool.not_eq_true'] at h
      have hwc : RanksLE cmpRank w c := by
        by_contra hlt
        rw [not_ranksLE_iff, ← ranksBefore_iff_cmpRank hs (by simp [hcl]) (by simp [hwl])] at hlt
        exact absurd hlt (by simp [h.2])
      obtain ⟨t, -, htop⟩ := kthBest_split hk hw
      change topK cmpRank k (l ++ chunk) = topK cmpRank k l
      rw [topK_eq_of_perm perm_append_comm]
      refine topK_append_of_countP fun d hd => ?_
      -- the `k` best rank at or before the boundary, the boundary at or before the chunk
      have hfull : (topK cmpRank k l).countP (fun x => RanksLE cmpRank x d) = k := by
        refine (countP_eq_length.2 fun x hx => decide_eq_true ?_).trans ?_
        · have hp : (topK cmpRank k l).Pairwise (RanksLE cmpRank) := pairwise_topK k l
          rw [htop] at hx hp
          rcases mem_append.1 hx with hx | hx
          · exact ((pairwise_append.1 hp).2.2 x hx w (by simp)).trans (hwc.trans (hbest d hd))
          · rw [mem_singleton.1 hx]
            exact hwc.trans (hbest d hd)
        · have := (List.getElem?_eq_some_iff.1 hw).1
          rw [length_sortBy] at this
          rw [length_topK]
          omega
      rw [← (topK_append_drop_perm cmpRank k l).countP_eq, countP_append, hfull]
      exact Nat.le_add_right _ _
  · exact absurd h (by simp)

/-- Of a sorted list nothing of which scores above the boundary, the ties come first. -/
lemma tiesOf_eq_filter {boundary : ChunkHit} (hl : l.Pairwise (RanksLE cmpRank))
    (hb : ∀ x ∈ l, x.val ≤ boundary.val) :
    tiesOf boundary l = l.filter fun h => h.val = boundary.val := by
  refine takeWhile_eq_filter (List.Pairwise.imp_of_mem (fun {x y} hx hy hxy hp => ?_) hl)
  have hp' := of_decide_eq_true hp
  exact decide_eq_true (le_antisymm (hb x hx) (hp'.ge.trans (ranksByScore_cmpRank.score_le hxy)))

/-- The slots of tied hits decide their order. -/
lemma sortBy_slot_eq {ties rest : List ChunkHit} {v : ℤ} (hs : Scored score rest)
    (hrest : rest.Pairwise (RanksLE cmpRank)) (hv : ∀ x ∈ rest, x.val = v)
    (hp : ties.Perm rest) : sortBy (compareOn ChunkHit.slot) ties = rest := by
  have hslot : rest.Pairwise (RanksLE (compareOn ChunkHit.slot)) := by
    refine List.Pairwise.imp_of_mem (fun {x y} hx hy hxy => ?_) hrest
    by_contra hlt
    have hyx := ranksBefore_iff.2 (.inr ⟨(hv y hy).trans (hv x hx).symm,
        compare_lt_iff_lt.1 ((not_ranksLE_iff _).1 hlt)⟩)
    rw [ranksBefore_iff_cmpRank hs hy hx] at hyx
    exact (not_ranksLE_iff cmpRank).2 hyx hxy
  have hperm : (sortBy (compareOn ChunkHit.slot) ties).Perm rest := (sortBy_perm ties).trans hp
  refine List.Perm.eq_of_pairwise (fun a b ha hb hab hba => ?_) (pairwise_sortBy _) hslot hperm
  refine hs.eq (hperm.mem_iff.1 ha) hb ?_
  by_contra hne
  rcases lt_or_gt_of_ne hne with h | h
  · exact (not_ranksLE_iff _).2 (compare_lt_iff_lt.2 h) hba
  · exact (not_ranksLE_iff _).2 (compare_lt_iff_lt.2 h) hab

/-- Finishing a merge of sorted lists gives the running list of the whole. -/
lemma keepBoundaryTies_spec {xs ys : List ChunkHit}
    {r : List ChunkHit × List ChunkHit × List ChunkHit} (hk : 0 < k)
    (hs : Scored score (xs ++ ys)) (hxs : xs.Pairwise (RanksLE cmpRank))
    (hys : ys.Pairwise (RanksLE cmpRank)) (hr : MergedUpTo cmpRank k xs ys r) :
    keepBoundaryTies k keepTies r = collected k keepTies (xs ++ ys) := by
  cases keepTies with
  | false => exact hr.merged
  | true =>
    change _ = topTies cmpRank ChunkHit.val k (xs ++ ys)
    have hkth : r.1[k - 1]? = kthBest cmpRank k (xs ++ ys) := by
      rw [hr.merged, ← kthBest_eq_getElem?_topK hk]
    unfold keepBoundaryTies
    cases hb : kthBest cmpRank k (xs ++ ys) with
    | none =>
      -- fewer than `k` hits in all, so there is no boundary and everything is kept
      have hlen : (xs ++ ys).length ≤ k := by
        have := getElem?_eq_none_iff.1 hb
        rw [length_sortBy] at this
        omega
      rw [hkth, topTies, hb]
      exact hr.merged.trans (topK_of_length_le hlen)
    | some boundary =>
      have hrest : ∀ x ∈ r.2.1 ++ r.2.2, x.val ≤ boundary.val := by
        intro x hx
        obtain ⟨t, -, htop⟩ := kthBest_split hk hb
        refine ranksByScore_cmpRank.score_le (ranksLE_of_mem_topK ?_ (hr.rest.mem_iff.1 hx))
        rw [htop]
        simp
      rw [hkth, hb, topTies_eq_topK_append ranksByScore_cmpRank hk hb]
      refine congrArg₂ (· ++ ·) hr.merged (sortBy_slot_eq (v := boundary.val) (hs.mono ?_) ?_ ?_ ?_)
      · intro x hx
        exact mem_sortBy.1 (mem_of_mem_drop (mem_filter.1 hx).1)
      · exact ((pairwise_sortBy _).sublist (drop_sublist _ _)).filter _
      · intro x hx
        exact of_decide_eq_true (mem_filter.1 hx).2
      · rw [tiesOf_eq_filter (hxs.sublist hr.left.sublist) fun x hx => hrest x (by simp [hx]),
          tiesOf_eq_filter (hys.sublist hr.right.sublist) fun x hx => hrest x (by simp [hx]),
          ← filter_append]
        exact hr.rest.filter _

/-- **The merge keeps the running list**: that of `l` becomes that of `l` and the chunk. -/
theorem mergeChunkHits_spec (hk : 0 < k) (hs : Scored score (l ++ chunk)) :
    mergeChunkHits (collected k keepTies l) chunk k keepTies =
      collected k keepTies (l ++ chunk) := by
  unfold mergeChunkHits
  split
  · rename_i hnil
    rw [isEmpty_iff.1 hnil, append_nil]
  dsimp only
  rw [sortBy_cmpChunk (hs.mono (subset_append_right _ _))]
  split
  · rename_i hskip
    exact (collected_append_of_cannotDisplace hk hs hskip).symm
  have hsm : Scored score (collected k keepTies l ++ sortBy cmpRank chunk) := by
    refine hs.mono fun x hx => ?_
    rcases mem_append.1 hx with hx | hx
    · exact mem_append_left _ (mem_of_mem_collected hx)
    · exact mem_append_right _ (mem_sortBy.1 hx)
  have hmerge := mergeUpTo_spec (pairwise_collected keepTies l) (pairwise_sortBy chunk)
    (fun x hx y hy => ranksBefore_iff_cmpRank hsm (mem_append_left _ hx) (mem_append_right _ hy)) k
  rw [keepBoundaryTies_spec hk hsm (pairwise_collected keepTies l) (pairwise_sortBy chunk) hmerge,
    collected_eq_of_perm (List.Perm.append_left _ (sortBy_perm chunk)),
    collected_collected_append hk]

end ProtomoltSearch.Vector
