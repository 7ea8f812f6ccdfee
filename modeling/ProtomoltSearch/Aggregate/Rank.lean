import ProtomoltSearch.Aggregate.Percentile

/-!
# The nearest rank

A double of at most 100 is its mantissa over a power of two, so the rank is the exact share of the
count, rounded up, and neither side of the division leaves 128 bits.
-/

namespace ProtomoltSearch.Aggregate

variable (bits : U64)

/-- The biased exponent of a double. -/
def exponent : ℕ := bits.val / 2 ^ 52 % 2 ^ 11

def mantissa : ℕ := if exponent bits = 0 then bits.val % 2 ^ 52 else bits.val % 2 ^ 52 + 2 ^ 52

def shift : ℕ := if exponent bits = 0 then 1074 else 1075 - exponent bits

/-- The number a finite double is. -/
def ieeeValue : ℚ :=
  (if bits.val < 2 ^ 63 then 1 else -1) * (mantissa bits * 2 ^ (max (exponent bits) 1 - 1075 : ℤ))

variable {bits}

lemma inRange_of_value (hnonneg : 0 ≤ ieeeValue bits) (hle : ieeeValue bits ≤ 100) :
    bits.val ≤ 0x4059000000000000 ∨ bits.val = 2 ^ 63 := by
  have hupper := bits.upper
  unfold ieeeValue at hnonneg hle
  by_cases hsign : bits.val < 2 ^ 63
  · by_contra! hgt
    have hexp : 1029 ≤ exponent bits := by unfold exponent; omega
    have hman : 100 * 2 ^ 46 < mantissa bits * 2 ^ (exponent bits - 1029) := by
      rw [mantissa, if_neg (by omega)]
      rcases hexp.eq_or_lt with h | h
      · rw [← h]
        unfold exponent at h
        omega
      · have := Nat.pow_le_pow_right two_pos (show 1 ≤ exponent bits - 1029 by omega)
        exact lt_of_lt_of_le (by norm_num) (Nat.mul_le_mul (Nat.le_add_left (2 ^ 52) _) this)
    rw [if_pos hsign, one_mul, show (max (exponent bits) 1 - 1075 : ℤ) = (exponent bits - 1029 : ℕ) -
      (46 : ℕ) by omega, zpow_sub₀ two_ne_zero, ← mul_div_assoc, div_le_iff₀ (by norm_num)] at hle
    exact absurd hman (not_lt.2 (by exact_mod_cast hle))
  · right
    rw [if_neg hsign, neg_one_mul, neg_nonneg] at hnonneg
    have hzero : mantissa bits = 0 := by
      by_contra! h
      have : 0 < mantissa bits := Nat.pos_of_ne_zero h
      exact absurd hnonneg (not_le.2 (by positivity))
    unfold mantissa at hzero
    split at hzero
    · next h =>
      unfold exponent at h
      omega
    · omega

lemma ieeeValue_eq (h : bits.val ≤ 0x4059000000000000 ∨ bits.val = 2 ^ 63) :
    ieeeValue bits = mantissa bits / 2 ^ shift bits := by
  rcases h with h | h
  · have hexp : exponent bits ≤ 1029 := by
      unfold exponent
      omega
    have hshift : (max (exponent bits) 1 - 1075 : ℤ) = -(shift bits : ℕ) := by
      unfold shift
      split <;> omega
    rw [ieeeValue, if_pos (by omega), one_mul, hshift, zpow_neg, zpow_natCast]
    rfl
  · have hzero : mantissa bits = 0 := by simp [mantissa, exponent, h]
    simp [ieeeValue, hzero]

lemma ceil_div (a : ℕ) {b : ℕ} (hb : 0 < b) : ⌈(a : ℚ) / b⌉₊ = (a + (b - 1)) / b := by
  rw [← Nat.add_sub_assoc hb, ← Nat.ceilDiv_eq_add_pred_div]
  refine eq_of_forall_ge_iff fun c => ?_
  rw [Nat.ceil_le, ceilDiv_le_iff_le_mul hb, div_le_iff₀ (by exact_mod_cast hb), mul_comm]
  exact_mod_cast Iff.rfl

/-- **The rank is the exact share of the count, rounded up,** for every finite double between 0 and
100; the products of the division stay below the 128 bits. -/
theorem nearestPercentileRank_eq (hnonneg : 0 ≤ ieeeValue bits)
    (hle : ieeeValue bits ≤ 100) {count : U64} (hcount : 0 < count.val) :
    mantissa bits * count.val < 2 ^ 128 ∧ (shift bits ≤ 121 → 100 * 2 ^ shift bits < 2 ^ 128) ∧
      ∃ h, (nearestPercentileRank ⟨bits, h⟩ count).val =
        max 1 ⌈ieeeValue bits * count.val / 100⌉₊ := by
  have hmantissa : mantissa bits < 2 ^ 53 := by
    unfold mantissa
    split <;> omega
  have hnum := Nat.mul_lt_mul'' hmantissa count.upper
  have hinRange := inRange_of_value hnonneg hle
  have hceil : ⌈ieeeValue bits * count.val / 100⌉₊ =
      (mantissa bits * count.val + (100 * 2 ^ shift bits - 1)) / (100 * 2 ^ shift bits) := by
    rw [← ceil_div _ (by positivity), ieeeValue_eq hinRange]
    push_cast
    congr 1
    field_simp
  have hcountLe : ⌈ieeeValue bits * count.val / 100⌉₊ ≤ count.val := by
    rw [Nat.ceil_le, div_le_iff₀ (by norm_num), mul_comm]
    exact mul_le_mul_of_nonneg_left hle (Nat.cast_nonneg _)
  refine ⟨hnum.trans (by norm_num), fun hs => ?_, hinRange, ?_⟩
  · have := Nat.pow_le_pow_right two_pos hs
    omega
  · have hupper := count.upper
    rw [nearestPercentileRank, if_neg hcount.ne']
    change U64.val (if 121 < shift bits then _ else U64.wrap (min _ (max 1 ((mantissa bits * _ +
      (100 * 2 ^ shift bits - 1)) / (100 * 2 ^ shift bits) % _)))) = _
    split
    · next hs =>
      have := Nat.pow_le_pow_right two_pos hs
      rw [hceil, max_eq_left (Nat.le_of_lt_succ ((Nat.div_lt_iff_lt_mul (by positivity)).2 (by omega)))]
      rfl
    · rw [← hceil, Nat.mod_eq_of_lt (by omega)]
      rw [U64.wrap_val (by omega), min_eq_right (max_le hcount hcountLe)]

theorem nearestPercentileRank_fifty : ∃ h, (nearestPercentileRank ⟨U64.wrap 0x4049000000000000, h⟩
    (U64.wrap 3)).val = max 1 ⌈ieeeValue (U64.wrap 0x4049000000000000) * (U64.wrap 3).val / 100⌉₊ :=
  have hvalue : ieeeValue (U64.wrap 0x4049000000000000) = 50 := by
    norm_num [ieeeValue, mantissa, exponent, U64.wrap]
  (nearestPercentileRank_eq (by rw [hvalue]; norm_num) (by rw [hvalue]; norm_num) (by decide)).2.2

end ProtomoltSearch.Aggregate
