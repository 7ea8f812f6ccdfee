import ProtomoltSearch.Foundations.Numbers

/-!
# Integers of double width

128-bit integers by their values, with their two 64-bit halves: a wide integer is the one its
halves make (`I128.ofHalves_halves`, `U128.ofHalves_halves`).
-/

namespace ProtomoltSearch

/-- A signed 128-bit integer. -/
structure I128 where
  val : ℤ
  lower : -2 ^ 127 ≤ val
  upper : val < 2 ^ 127
  deriving DecidableEq

/-- An unsigned 128-bit integer. -/
structure U128 where
  val : ℕ
  upper : val < 2 ^ 128
  deriving DecidableEq

namespace I128

lemma val_injective : Function.Injective I128.val := fun a b h => by
  cases a
  cases b
  simp_all

def zero : I128 := ⟨0, by norm_num, by norm_num⟩

/-- `(hi << 64) | lo`. -/
def ofHalves (hi : I64) (lo : U64) : I128 :=
  ⟨hi.val * 2 ^ 64 + lo.val, by have := hi.lower; omega, by
    have := hi.upper
    have := lo.upper
    omega⟩

/-- The signed upper half, `x >> 64`. -/
def hi (x : I128) : I64 :=
  ⟨x.val / 2 ^ 64, by have := x.lower; omega, by have := x.upper; omega⟩

/-- The unsigned lower half. -/
def lo (x : I128) : U64 := ⟨(x.val % 2 ^ 64).toNat, by omega⟩

lemma ofHalves_halves (x : I128) : ofHalves x.hi x.lo = x := by
  apply val_injective
  simp only [ofHalves, hi, lo]
  omega

/-- The integer, if it fits. -/
def ofInt? (z : ℤ) : Option I128 :=
  if h : -2 ^ 127 ≤ z ∧ z < 2 ^ 127 then some ⟨z, h.1, h.2⟩ else none

lemma ofInt?_eq_some {z : ℤ} {x : I128} : ofInt? z = some x ↔ x.val = z := by
  have hlower := x.lower
  have hupper := x.upper
  unfold ofInt?
  split
  · rw [Option.some.injEq, ← val_injective.eq_iff]
    exact eq_comm
  · exact iff_of_false (fun h => nomatch h) (by omega)

def checkedAdd (a b : I128) : Option I128 := ofInt? (a.val + b.val)

end I128

namespace U128

lemma val_injective : Function.Injective U128.val := fun a b h => by
  cases a
  cases b
  simp_all

def zero : U128 := ⟨0, by norm_num⟩

/-- `(hi << 64) | lo`. -/
def ofHalves (hi lo : U64) : U128 :=
  ⟨hi.val * 2 ^ 64 + lo.val, by
    have := hi.upper
    have := lo.upper
    omega⟩

/-- The upper half, `x >> 64`. -/
def hi (x : U128) : U64 := ⟨x.val / 2 ^ 64, by have := x.upper; omega⟩

/-- The lower half. -/
def lo (x : U128) : U64 := ⟨x.val % 2 ^ 64, by omega⟩

lemma ofHalves_halves (x : U128) : ofHalves x.hi x.lo = x := by
  apply val_injective
  simp only [ofHalves, hi, lo]
  omega

/-- The integer, if it fits. -/
def ofNat? (n : ℕ) : Option U128 := if h : n < 2 ^ 128 then some ⟨n, h⟩ else none

lemma ofNat?_eq_some {n : ℕ} {x : U128} : ofNat? n = some x ↔ x.val = n := by
  have hupper := x.upper
  unfold ofNat?
  split
  · rw [Option.some.injEq, ← val_injective.eq_iff]
    exact eq_comm
  · exact iff_of_false (fun h => nomatch h) (by omega)

def checkedAdd (a b : U128) : Option U128 := ofNat? (a.val + b.val)

end U128

end ProtomoltSearch
