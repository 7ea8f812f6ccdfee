import Mathlib

/-!
# Machine numbers by their exact values

Sixty-four bit integers are integers with their bounds. A double is an infinity, NaN, the negative
zero, or the exact rational it denotes; nothing below depends on which rationals a double can hold.
`F64.val` is its value in the line with both ends added, where the two zeros meet.

Scores are single precision floats seen only through comparisons and neighbours: `F32` keeps the
rank in the total order, and `F32.val` what the numeric comparisons see of it.
-/

namespace ProtomoltSearch

/-- A signed 64-bit integer. -/
structure I64 where
  val : ℤ
  lower : -2 ^ 63 ≤ val
  upper : val < 2 ^ 63
  deriving DecidableEq

/-- An unsigned 64-bit integer. -/
structure U64 where
  val : ℕ
  upper : val < 2 ^ 64
  deriving DecidableEq

namespace I64

instance : LinearOrder I64 := LinearOrder.lift' I64.val fun a b h => by cases a; cases b; simp_all

lemma le_iff {a b : I64} : a ≤ b ↔ a.val ≤ b.val := Iff.rfl

lemma le_zero : (-2 ^ 63 : ℤ) ≤ 0 := by norm_num

lemma zero_lt : (0 : ℤ) < 2 ^ 63 := by norm_num

/-- The least signed integer. -/
def min : I64 := ⟨-2 ^ 63, le_rfl, by norm_num⟩

/-- The greatest signed integer. -/
def max : I64 := ⟨2 ^ 63 - 1, by norm_num, by norm_num⟩

/-- The integer closest to `z`. -/
def clamp (z : ℤ) : I64 :=
  ⟨Max.max (-2 ^ 63) (Min.min z (2 ^ 63 - 1)), le_max_left _ _, by omega⟩

lemma clamp_val_of_le {z : ℤ} (h : z ≤ 2 ^ 63 - 1) : (clamp z).val = Max.max (-2 ^ 63) z := by
  simp only [clamp]
  omega

lemma clamp_val_of_ge {z : ℤ} (h : -2 ^ 63 ≤ z) : (clamp z).val = Min.min z (2 ^ 63 - 1) := by
  simp only [clamp]
  omega

end I64

namespace U64

instance : LinearOrder U64 := LinearOrder.lift' U64.val fun a b h => by cases a; cases b; simp_all

lemma le_iff {a b : U64} : a ≤ b ↔ a.val ≤ b.val := Iff.rfl

lemma lt_iff {a b : U64} : a < b ↔ a.val < b.val := Iff.rfl

lemma zero_lt : 0 < 2 ^ 64 := by norm_num

lemma one_lt : 1 < 2 ^ 64 := by norm_num

/-- The greatest unsigned integer. -/
def max : U64 := ⟨2 ^ 64 - 1, by norm_num⟩

/-- The unsigned integer an integer is, if it is one. -/
def ofInt? (z : ℤ) : Option U64 :=
  if h : 0 ≤ z ∧ z < 2 ^ 64 then some ⟨z.toNat, by omega⟩ else none

lemma ofInt?_eq_some {z : ℤ} {u : U64} : ofInt? z = some u ↔ (u.val : ℤ) = z := by
  rw [ofInt?]
  split
  · next h =>
    rw [Option.some.injEq]
    constructor
    · rintro rfl
      exact Int.toNat_of_nonneg h.1
    · intro hu
      cases u
      simp only [mk.injEq]
      simp only at hu
      omega
  · next h =>
    have := u.upper
    simp only [reduceCtorEq, false_iff]
    omega

end U64

/-- The line of the doubles' values. -/
abbrev Line := WithBot (WithTop ℚ)

/-- A double. `num 0` is the positive zero. -/
inductive F64 where
  | nan
  | negInf
  | negZero
  | num (q : ℚ)
  | posInf
  deriving DecidableEq

namespace F64

/-- The value of a double; NaN has none, and is put at the upper end. -/
def val : F64 → Line
  | .nan => ⊤
  | .negInf => ⊥
  | .negZero => ((0 : ℚ) : WithTop ℚ)
  | .num q => (q : WithTop ℚ)
  | .posInf => ⊤

def isNan (x : F64) : Bool := x = .nan

def isInfinite (x : F64) : Bool := x = .negInf ∨ x = .posInf

def isFinite (x : F64) : Bool := !x.isNan && !x.isInfinite

/-- The text of a double that is not finite. -/
def nonFinite : F64 → Option String
  | .nan => some "NaN"
  | .negInf => some "-inf"
  | .posInf => some "inf"
  | _ => none

/-- The comparison `a < b`, false when either is NaN. -/
def lt (a b : F64) : Bool := !a.isNan && !b.isNan && decide (a.val < b.val)

/-- The comparison `a <= b`, false when either is NaN. -/
def le (a b : F64) : Bool := !a.isNan && !b.isNan && decide (a.val ≤ b.val)

/-- The comparison `a == b`: the two zeros are equal, NaN equals nothing. -/
def eq (a b : F64) : Bool := !a.isNan && !b.isNan && decide (a.val = b.val)

/-- What the total order tells apart among doubles of one value. -/
def tie : F64 → ℕ
  | .negZero => 0
  | .nan => 2
  | _ => 1

/-- The place of a double in the total order: the negative zero before the positive, NaN last. -/
def totalKey (x : F64) : Line ×ₗ ℕ := toLex (x.val, x.tie)

def totalCmp (a b : F64) : Ordering := cmp a.totalKey b.totalKey

def floor : F64 → F64
  | .num q => .num ⌊q⌋
  | x => x

def ceil : F64 → F64
  | .num q => if q < 0 ∧ ⌈q⌉ = 0 then .negZero else .num ⌈q⌉
  | x => x

/-- The cast to an integer type with the given ends: toward zero, saturating, NaN to zero. -/
def toInt (lo hi : ℤ) : F64 → ℤ
  | .nan => 0
  | .negInf => lo
  | .negZero => 0
  | .num q => max lo (min (if q < 0 then ⌈q⌉ else ⌊q⌋) hi)
  | .posInf => hi

/-- Replace the negative zero, `if v == 0.0 { 0.0 } else { v }`. -/
def normZero (v : F64) : F64 := if v.eq (.num 0) then .num 0 else v

/-- The value of an integer. -/
abbrev ofInt (z : ℤ) : Line := ((z : ℚ) : WithTop ℚ)

@[simp] lemma val_num (q : ℚ) : (F64.num q).val = (q : WithTop ℚ) := rfl

@[simp] lemma isNan_iff {x : F64} : x.isNan = true ↔ x = .nan := by simp [isNan]

lemma le_iff {a b : F64} (ha : a ≠ .nan) (hb : b ≠ .nan) : a.le b = true ↔ a.val ≤ b.val := by
  simp [le, isNan, ha, hb]

lemma lt_iff {a b : F64} (ha : a ≠ .nan) (hb : b ≠ .nan) : a.lt b = true ↔ a.val < b.val := by
  simp [lt, isNan, ha, hb]

lemma ne_nan_of_le {a b : F64} (h : a.le b = true) : a ≠ .nan ∧ b ≠ .nan := by
  constructor <;> rintro rfl <;> simp [le, isNan] at h

lemma normZero_val (v : F64) : (normZero v).val = v.val := by
  rw [normZero]
  split
  · next h =>
    simp only [eq, Bool.and_eq_true, decide_eq_true_eq] at h
    exact h.2.symm
  · rfl

lemma normZero_ne_nan {v : F64} (hv : v ≠ .nan) : normZero v ≠ .nan := by
  rw [normZero]
  split
  · exact fun h => by cases h
  · exact hv

lemma normZero_ne_negZero (v : F64) : normZero v ≠ .negZero := by
  rw [normZero]
  split
  · exact fun h => by cases h
  · next h =>
    rintro rfl
    exact h rfl

lemma totalKey_normZero {v : F64} (hv : v ≠ .nan) : (normZero v).totalKey = toLex (v.val, 1) := by
  have ht : (normZero v).tie = 1 := by
    have h₁ := normZero_ne_nan hv
    have h₂ := normZero_ne_negZero v
    cases h : normZero v <;> simp_all [tie]
  rw [totalKey, ht, normZero_val]

/-- The cast of an integral finite double saturates. -/
lemma toInt_num_intCast (lo hi z : ℤ) : toInt lo hi (.num z) = max lo (min z hi) := by
  simp [toInt]

lemma toInt_floor (lo hi : ℤ) (q : ℚ) : toInt lo hi (floor (.num q)) = max lo (min ⌊q⌋ hi) :=
  toInt_num_intCast lo hi _

lemma toInt_ceil {lo hi : ℤ} (hlo : lo ≤ 0) (hhi : 0 ≤ hi) (q : ℚ) :
    toInt lo hi (ceil (.num q)) = max lo (min ⌈q⌉ hi) := by
  rw [ceil]
  split
  · next h => simp [toInt, h.2, hlo, hhi]
  · exact toInt_num_intCast lo hi _

end F64

/-- A single precision float other than NaN, by its rank in the total order of floats: `-1` for the
negative zero, `0` for the positive one, and the infinities end the range. -/
structure F32 where
  rank : ℤ
  lower : -2139095041 ≤ rank
  upper : rank ≤ 2139095040
  deriving DecidableEq

namespace F32

/-- The total order of floats, `total_cmp`. -/
instance : LinearOrder F32 := LinearOrder.lift' F32.rank fun a b h => by cases a; cases b; simp_all

lemma le_iff {a b : F32} : a ≤ b ↔ a.rank ≤ b.rank := Iff.rfl

/-- The numeric value of a float, by its place among the values: the two zeros meet at zero. The
comparisons `<`, `<=` and `==` of floats compare values. -/
def val (x : F32) : ℤ := if x.rank < 0 then x.rank + 1 else x.rank

def negInf : F32 := ⟨-2139095041, le_rfl, by norm_num⟩

def posInf : F32 := ⟨2139095040, by norm_num, le_rfl⟩

def zero : F32 := ⟨0, by norm_num, by norm_num⟩

def negZero : F32 := ⟨-1, by norm_num, by norm_num⟩

lemma val_mono {a b : F32} (h : a ≤ b) : a.val ≤ b.val := by
  rw [le_iff] at h
  simp only [val]
  split <;> split <;> omega

lemma lt_of_val_lt {a b : F32} (h : a.val < b.val) : a < b :=
  not_le.1 fun hle => absurd (val_mono hle) (not_le.2 h)

lemma negInf_val_le (x : F32) : negInf.val ≤ x.val := val_mono x.lower

lemma eq_negInf {x : F32} (h : x.val = negInf.val) : x = negInf := by
  have hinf : negInf.val = -2139095040 := rfl
  rw [hinf] at h
  have hrank : x.rank = -2139095041 := by
    simp only [val] at h
    split at h <;> omega
  cases x
  simp only [negInf, mk.injEq]
  exact hrank

/-- The greatest float of a smaller value, `next_down`; minus infinity stays. -/
def nextDown (x : F32) : F32 :=
  if hlow : x.rank = -2139095041 then x
  else if x.rank = 0 then ⟨-2, by norm_num, by norm_num⟩
  else ⟨x.rank - 1, by have := x.lower; omega, by have := x.upper; omega⟩

lemma nextDown_val (x : F32) :
    (nextDown x).val = if x.val = negInf.val then x.val else x.val - 1 := by
  have hx : x.val = if x.rank < 0 then x.rank + 1 else x.rank := rfl
  have hinf : negInf.val = -2139095040 := rfl
  rw [nextDown]
  split
  · next h => rw [if_pos (by omega)]
  · split
    · show (if (-2 : ℤ) < 0 then (-2 : ℤ) + 1 else -2) = _
      omega
    · show (if x.rank - 1 < 0 then x.rank - 1 + 1 else x.rank - 1) = _
      omega

lemma nextDown_val_le (x : F32) : (nextDown x).val ≤ x.val := by
  rw [nextDown_val]
  split <;> omega

/-- A neighbour above some other value is strictly below. -/
lemma nextDown_val_lt_of_lt {x y : F32} (h : y.val < (nextDown x).val) :
    (nextDown x).val < x.val := by
  have := negInf_val_le y
  rw [nextDown_val] at h ⊢
  split at h <;> split <;> omega

lemma nextDown_val_mono {x y : F32} (h : x.val ≤ y.val) :
    (nextDown x).val ≤ (nextDown y).val := by
  rw [nextDown_val, nextDown_val]
  split <;> split <;> omega

end F32

end ProtomoltSearch
