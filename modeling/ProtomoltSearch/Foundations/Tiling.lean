import Mathlib

/-!
# Tilings by inclusive ranges

Ranges `(a, b)` of numbers, both ends included, tile `[lo, hi)` when each starts where the one before
it ended (`Tiles`). A sorted list of nonempty ranges tiles exactly when every number below `hi` and
not below `lo` lies in exactly one of them, and no other number in any (`tiles_iff_countP`).
-/

namespace ProtomoltSearch

open List

/-- The ranges, in order, tile the numbers from `lo` to below `hi`. -/
def Tiles : ℕ → List (ℕ × ℕ) → ℕ → Prop
  | lo, [], hi => lo = hi
  | lo, r :: rs, hi => r.1 = lo ∧ r.1 ≤ r.2 ∧ Tiles (r.2 + 1) rs hi

/-- The number lies in the range. -/
def covers (x : ℕ) (r : ℕ × ℕ) : Bool := decide (r.1 ≤ x ∧ x ≤ r.2)

@[simp] lemma covers_iff {x : ℕ} {r : ℕ × ℕ} : covers x r = true ↔ r.1 ≤ x ∧ x ≤ r.2 :=
  decide_eq_true_iff

namespace Tiles

variable {lo hi : ℕ} {rs : List (ℕ × ℕ)}

lemma le (h : Tiles lo rs hi) : lo ≤ hi := by
  induction rs generalizing lo with
  | nil => exact Nat.le_of_eq h
  | cons r rs ih =>
    obtain ⟨h₁, h₂, h₃⟩ := h
    have := ih h₃
    omega

lemma range_le (h : Tiles lo rs hi) : ∀ r ∈ rs, lo ≤ r.1 ∧ r.1 ≤ r.2 ∧ r.2 < hi := by
  induction rs generalizing lo with
  | nil => exact fun r hr => absurd hr not_mem_nil
  | cons r rs ih =>
    obtain ⟨h₁, h₂, h₃⟩ := h
    have hle := h₃.le
    refine forall_mem_cons.2 ⟨by omega, fun s hs => ?_⟩
    have := ih h₃ s hs
    omega

/-- **A tiling covers each number of the interval once**, and no other. -/
theorem countP_covers (h : Tiles lo rs hi) (x : ℕ) :
    rs.countP (covers x) = if lo ≤ x ∧ x < hi then 1 else 0 := by
  induction rs generalizing lo with
  | nil =>
    have hlo : lo = hi := h
    rw [if_neg (by omega)]
    rfl
  | cons r rs ih =>
    obtain ⟨h₁, h₂, h₃⟩ := h
    have hle := h₃.le
    rw [countP_cons, ih h₃]
    simp only [covers_iff]
    split <;> split <;> split <;> omega

end Tiles

section

variable {lo hi : ℕ} {rs : List (ℕ × ℕ)} (hlohi : lo ≤ hi)
  (hsorted : rs.Pairwise fun r s => r.1 ≤ s.1) (hne : ∀ r ∈ rs, r.1 ≤ r.2)

include hlohi hsorted hne

/-- A sorted list of nonempty ranges that covers each number of an interval once tiles it. -/
lemma tiles_of_countP (h : ∀ x, rs.countP (covers x) = if lo ≤ x ∧ x < hi then 1 else 0) :
    Tiles lo rs hi := by
  induction rs generalizing lo with
  | nil =>
    have hlo := h lo
    rw [countP_nil] at hlo
    show lo = hi
    split at hlo <;> omega
  | cons r rs ih =>
    obtain ⟨hfst, hsorted⟩ := pairwise_cons.1 hsorted
    obtain ⟨hr, hne⟩ := forall_mem_cons.1 hne
    -- the ends of the first range are covered, so they lie in the interval
    have hends (x) (hx : r.1 ≤ x ∧ x ≤ r.2) : lo ≤ x ∧ x < hi := by
      by_contra hout
      have hcnt := h x
      rw [if_neg hout, countP_cons_of_pos (covers_iff.2 hx)] at hcnt
      omega
    have hstart := hends r.1 ⟨le_rfl, hr⟩
    have hend := hends r.2 ⟨hr, le_rfl⟩
    -- the start of the interval is covered, by a range that starts there
    have hlo : r.1 = lo := by
      have hcnt := h lo
      rw [if_pos (by omega)] at hcnt
      obtain ⟨s, hs, hcov⟩ := countP_pos_iff.1 (by omega : 0 < (r :: rs).countP (covers lo))
      rw [covers_iff] at hcov
      have hle : r.1 ≤ s.1 := by
        rcases mem_cons.1 hs with rfl | hs
        · exact le_rfl
        · exact hfst s hs
      omega
    refine ⟨hlo, hr, ih (by omega) hsorted hne fun x => ?_⟩
    have hcnt := h x
    rw [countP_cons] at hcnt
    simp only [covers_iff] at hcnt
    split at hcnt <;> split at hcnt <;> split <;> omega

/-- **A sorted list of nonempty ranges tiles exactly when it covers each number once.** -/
theorem tiles_iff_countP :
    Tiles lo rs hi ↔ ∀ x, rs.countP (covers x) = if lo ≤ x ∧ x < hi then 1 else 0 :=
  ⟨Tiles.countP_covers, tiles_of_countP hlohi hsorted hne⟩

end

lemma countP_eq_one_iff {α : Type*} {p : α → Bool} {l : List α} :
    l.countP p = 1 ↔ ∃! i : ℕ, ∃ a, l[i]? = some a ∧ p a = true := by
  induction l with
  | nil => exact ⟨fun h => (nomatch h), fun ⟨i, ⟨a, ha, _⟩, _⟩ => (nomatch ha)⟩
  | cons b l ih =>
    cases hb : p b with
    | true =>
      rw [countP_cons_of_pos hb, Nat.add_eq_right, countP_eq_zero]
      constructor
      · intro hnone
        refine ⟨0, ⟨b, rfl, hb⟩, fun i ⟨a, ha, hpa⟩ => ?_⟩
        cases i with
        | zero => rfl
        | succ i => exact absurd hpa (hnone a (mem_of_getElem? ha))
      · rintro ⟨i, -, huniq⟩ a ha hpa
        obtain ⟨j, hj⟩ := mem_iff_getElem?.1 ha
        have h0 : 0 = i := huniq 0 ⟨b, rfl, hb⟩
        have hj' : j + 1 = i := huniq (j + 1) ⟨a, hj, hpa⟩
        omega
    | false =>
      rw [countP_cons_of_neg (by rw [hb]; exact Bool.false_ne_true), ih]
      constructor
      · rintro ⟨i, ⟨a, ha, hpa⟩, huniq⟩
        refine ⟨i + 1, ⟨a, ha, hpa⟩, fun j ⟨c, hc, hpc⟩ => ?_⟩
        cases j with
        | zero =>
          obtain rfl := Option.some.inj hc
          rw [hb] at hpc
          cases hpc
        | succ j => exact congrArg (· + 1) (huniq j ⟨c, hc, hpc⟩)
      · rintro ⟨i, ⟨a, ha, hpa⟩, huniq⟩
        cases i with
        | zero =>
          obtain rfl := Option.some.inj ha
          rw [hb] at hpa
          cases hpa
        | succ i =>
          exact ⟨i, ⟨a, ha, hpa⟩, fun j hj => Nat.succ.inj (huniq (j + 1) hj)⟩

end ProtomoltSearch
