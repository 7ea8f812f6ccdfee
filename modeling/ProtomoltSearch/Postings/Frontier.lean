import Mathlib

/-!
# The frontier of a block of postings

A block keeps the pairs of term frequency and document length that no other pair dominates, and
merges close neighbours into their corner until at most `maxFrontier` are left.
-/

namespace ProtomoltSearch.Postings

open List

/-- A term frequency and a document length. -/
abbrev Pair := ℕ × ℕ

def maxFrontier : ℕ := 8

/-- The greatest frequency first, then the shortest document. -/
def before (a b : Pair) : Bool := b.1 < a.1 ∨ b.1 = a.1 ∧ a.2 ≤ b.2

/-- The pairs shorter than every pair before them. -/
def keep (minDl : ℕ) : List Pair → List Pair
  | [] => []
  | p :: rest => if p.2 < minDl then p :: keep p.2 rest else keep minDl rest

/-- The distances between neighbours; no subtraction wraps on a staircase. -/
def gaps (kept : List Pair) : List ℕ :=
  zipWith (fun a b => (b.1 - a.1) + (b.2 - a.2)) kept kept.tail

/-- The place of the first least gap. -/
def closest (kept : List Pair) : ℕ :=
  ((gaps kept).zipIdx.foldl (fun best g => if g.1 < best.1 then g else best) (2 ^ 64 - 1, 0)).2

/-- Put the dominating corner in the place of two neighbours. -/
def splice : ℕ → List Pair → List Pair
  | 0, a :: b :: rest => (b.1, a.2) :: rest
  | i + 1, a :: rest => a :: splice i rest
  | _, kept => kept

variable {i minDl : ℕ} {kept l : List Pair} {p q : Pair}

lemma closest_lt (h : 1 < kept.length) : closest kept + 1 < kept.length := by
  refine foldlRecOn (motive := fun g : ℕ × ℕ => g.2 + 1 < kept.length) _ _ h fun best hbest g hg => ?_
  split
  · have := snd_lt_of_mem_zipIdx hg
    simp [gaps] at this
    omega
  · exact hbest

lemma length_splice (h : i + 1 < kept.length) : (splice i kept).length < kept.length := by
  fun_induction splice i kept with
  | case1 => simp
  | case2 i a rest ih => simpa using ih (by simpa using h)
  | case3 i kept => rcases i with _ | i <;> rcases kept with _ | ⟨a, _ | ⟨b, rest⟩⟩ <;> simp_all

/-- The loop that merges the closest neighbours. -/
def collapse (kept : List Pair) : List Pair :=
  if maxFrontier < kept.length then collapse (splice (closest kept) kept) else kept
termination_by kept.length
decreasing_by exact length_splice (closest_lt (lt_trans (by decide) ‹maxFrontier < kept.length›))

def paretoFrontier (pairs : List Pair) : List Pair :=
  collapse (keep (2 ^ 32 - 1) (pairs.mergeSort before)).reverse

/-- Strictly increasing in both coordinates. -/
def Staircase : List Pair → Prop := Pairwise fun a b => a.1 < b.1 ∧ a.2 < b.2

/-- Some pair of the list dominates `p`. -/
def Covers (out : List Pair) (p : Pair) : Prop := ∃ q ∈ out, p.1 ≤ q.1 ∧ q.2 ≤ p.2

lemma mem_splice (h : q ∈ splice i kept) : ∃ a ∈ kept, ∃ b ∈ kept, q = (b.1, a.2) := by
  fun_induction splice i kept <;> grind

lemma staircase_splice (h : Staircase kept) : Staircase (splice i kept) := by
  fun_induction splice i kept with
  | case1 a b rest =>
    obtain ⟨ha, hrest⟩ := pairwise_cons.1 h
    obtain ⟨hb, hrest⟩ := pairwise_cons.1 hrest
    exact pairwise_cons.2 ⟨fun q hq => ⟨(hb q hq).1, (ha q (by simp [hq])).2⟩, hrest⟩
  | case2 i a rest ih =>
    obtain ⟨ha, hrest⟩ := pairwise_cons.1 h
    refine pairwise_cons.2 ⟨fun q hq => ?_, ih hrest⟩
    obtain ⟨x, hx, y, hy, rfl⟩ := mem_splice hq
    exact ⟨(ha y hy).1, (ha x hx).2⟩
  | case3 => exact h

lemma covers_splice (h : Staircase kept) (hp : p ∈ kept) : Covers (splice i kept) p := by
  simp only [Covers, Staircase] at *
  fun_induction splice i kept with
  | case1 a b rest =>
    have hcorner : (b.1, a.2) ∈ (b.1, a.2) :: rest := mem_cons_self
    grind [pairwise_cons]
  | case2 => grind [pairwise_cons]
  | case3 => grind

lemma collapse_spec (h : Staircase kept) :
    (collapse kept).length ≤ maxFrontier ∧ Staircase (collapse kept) ∧
      ∀ p, Covers kept p → Covers (collapse kept) p := by
  fun_induction collapse kept with
  | case1 kept _ ih =>
    obtain ⟨hlen, hstair, hcovers⟩ := ih (staircase_splice h)
    refine ⟨hlen, hstair, fun p ⟨q, hq, hle⟩ => hcovers p ?_⟩
    obtain ⟨r, hr, hle'⟩ := covers_splice h hq
    exact ⟨r, hr, hle.1.trans hle'.1, hle'.2.trans hle.2⟩
  | case2 kept hle => exact ⟨not_lt.1 hle, h, fun _ => id⟩

lemma mem_keep (h : p ∈ keep minDl l) : p ∈ l ∧ p.2 < minDl := by
  fun_induction keep minDl l <;> grind

lemma staircase_keep (h : l.Pairwise fun a b => before a b) :
    Staircase (keep minDl l).reverse := by
  have := @mem_keep
  simp only [Staircase, pairwise_reverse, before] at *
  fun_induction keep minDl l <;> grind [pairwise_cons]

lemma covers_keep (h : l.Pairwise fun a b => before a b) (hp : p ∈ l) (hdl : p.2 < minDl) :
    Covers (keep minDl l) p := by
  simp only [Covers, before] at *
  fun_induction keep minDl l <;> grind [pairwise_cons]

/-- **The frontier dominates its block.** At most `maxFrontier` pairs, strictly increasing in both
coordinates, and every pair of the block shorter than the greatest length is dominated by one. -/
theorem paretoFrontier_spec (pairs : List Pair) :
    (paretoFrontier pairs).length ≤ maxFrontier ∧ Staircase (paretoFrontier pairs) ∧
      ∀ p ∈ pairs, p.2 < 2 ^ 32 - 1 → Covers (paretoFrontier pairs) p := by
  have hsorted : (pairs.mergeSort before).Pairwise fun a b => before a b :=
    pairwise_mergeSort (by simp [before]; omega) (by simp [before]; omega) pairs
  obtain ⟨hlen, hstair, hcovers⟩ := collapse_spec (staircase_keep hsorted)
  refine ⟨hlen, hstair, fun p hp hdl => hcovers p ?_⟩
  obtain ⟨q, hq, hle⟩ := covers_keep hsorted (mem_mergeSort.2 hp) hdl
  exact ⟨q, mem_reverse.2 hq, hle⟩

end ProtomoltSearch.Postings
