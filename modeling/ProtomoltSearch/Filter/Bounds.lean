import ProtomoltSearch.Foundations.Numbers

/-!
# Range bounds of filters

A range predicate keeps each bound in the domain the request wrote it in and compares it exactly
with a column of another domain (`filter.rs`). A bound has a place on the line of values,
`NumBound.val`, and every comparison here is the order of that line: a double against an integer, an
edge against a double, and edges folded into inclusive integer ends.
-/

namespace ProtomoltSearch.Filter

open U64 Int

/-- One bound value of a numeric range, in the domain of the request. -/
inductive NumBound where
  | I (n : I64)
  | U (n : U64)
  | F (x : F64)
  deriving DecidableEq

/-- A bound and whether the bound itself is outside the range. -/
structure Edge where
  value : NumBound
  exclusive : Bool
  deriving DecidableEq

/-- `2^63` as a double. -/
def two63 : F64 := .num (2 ^ 63)

/-- `-2^63` as a double. -/
def negTwo63 : F64 := .num (-2 ^ 63)

/-- `2^64` as a double. -/
def two64 : F64 := .num (2 ^ 64)

/-- Exact ordering of a double against a signed integer, the fraction as the tie break. -/
def cmpF64I64 (x : F64) (n : I64) : Ordering :=
  if x.isInfinite then
    if (F64.num 0).lt x then .gt else .lt
  else if two63.le x then .gt
  else if x.lt negTwo63 then .lt
  else
    let fx := x.floor
    let xi := fx.toInt (-2 ^ 63) (2 ^ 63 - 1)
    match cmp xi n.val with
    | .eq => if fx.lt x then .gt else .eq
    | o => o

/-- Exact ordering of a double against an unsigned integer. -/
def cmpF64U64 (x : F64) (n : U64) : Ordering :=
  if x.lt (.num 0) then .lt
  else if two64.le x then .gt
  else
    let floor := x.floor
    match cmp (floor.toInt 0 (2 ^ 64 - 1)) n.val with
    | .eq => if floor.lt x then .gt else .eq
    | order => order

/-- The ordering of a column value against a bound, the two zeros taken as one. -/
def NumBound.ord (b : NumBound) (v : F64) : Ordering :=
  let v := v.normZero
  match b with
  | .F b => v.totalCmp b
  | .I n => cmpF64I64 v n
  | .U n => cmpF64U64 v n

variable (e : Edge)

/-- Whether a column value sits at or above this edge as a lower bound. -/
def Edge.admitsFromBelow (v : F64) : Bool :=
  if e.exclusive then e.value.ord v = .gt else e.value.ord v ≠ .lt

/-- Whether a column value sits at or below this edge as an upper bound. -/
def Edge.admitsFromAbove (v : F64) : Bool :=
  if e.exclusive then e.value.ord v = .lt else e.value.ord v ≠ .gt

def NumBound.val : NumBound → Line
  | .I n => F64.ofInt n.val
  | .U n => F64.ofInt n.val
  | .F x => x.val

/-- The place of a bound in the total order of the doubles. -/
def NumBound.key : NumBound → Line ×ₗ ℕ
  | .I n => toLex (F64.ofInt n.val, 1)
  | .U n => toLex (F64.ofInt n.val, 1)
  | .F x => x.totalKey

lemma num_lt_num {p q : ℚ} : (F64.num p).lt (.num q) = true ↔ p < q := by
  rw [F64.lt_iff (by simp) (by simp)]
  simp

lemma num_le_num {p q : ℚ} : (F64.num p).le (.num q) = true ↔ p ≤ q := by
  rw [F64.le_iff (by simp) (by simp)]
  simp

/-- Comparing the integer part, then the fraction, compares the value, if the cast is exact. -/
lemma cmp_floor {q : ℚ} {lo hi : ℤ} (hlo : lo ≤ ⌊q⌋) (hhi : ⌊q⌋ ≤ hi) (z : ℤ) :
    (match cmp ((F64.num q).floor.toInt lo hi) z with
      | .eq => if (F64.num q).floor.lt (.num q) then Ordering.gt else .eq
      | o => o) = cmp (q : ℚ) z := by
  rw [F64.toInt_floor, min_eq_left hhi, max_eq_right hlo, F64.floor]
  rcases lt_trichotomy ⌊q⌋ z with h | h | h
  · rw [cmp_eq_lt_iff _ _ |>.2 h]
    exact ((cmp_eq_lt_iff _ _).2 (floor_lt.1 h)).symm
  · subst h
    rw [cmp_self_eq_eq]
    rcases eq_or_lt_of_le (floor_le q) with he | hlt
    · rw [if_neg (mt num_lt_num.1 he.not_lt)]
      exact ((cmp_eq_eq_iff _ _).2 he.symm).symm
    · rw [if_pos (num_lt_num.2 hlt)]
      exact ((cmp_eq_gt_iff _ _).2 hlt).symm
  · rw [cmp_eq_gt_iff _ _ |>.2 h]
    refine ((cmp_eq_gt_iff _ _).2 (lt_of_lt_of_le ?_ (floor_le q))).symm
    exact_mod_cast h

lemma cmp_coe (p q : ℚ) : cmp ((p : WithTop ℚ) : Line) ((q : WithTop ℚ) : Line) = cmp p q :=
  (WithBot.coe_strictMono.comp WithTop.coe_strictMono).cmp_map_eq p q

/-- A comparison with an integer is that of the values if it is so of the finite doubles. -/
lemma cmp_val {f : F64 → Ordering} {z : ℤ} (hnum : ∀ q : ℚ, f (.num q) = cmp q (z : ℚ))
    (hzero : f .negZero = f (.num 0)) (hinf : f .negInf = .lt ∧ f .posInf = .gt) {x : F64}
    (hx : x ≠ .nan) : f x = cmp x.val (F64.ofInt z) := by
  cases x with
  | nan => exact absurd rfl hx
  | negZero => exact hzero.trans ((hnum 0).trans (cmp_coe ..).symm)
  | negInf => exact hinf.1.trans ((cmp_eq_lt_iff _ _).2 (WithBot.bot_lt_coe _)).symm
  | posInf =>
    refine hinf.2.trans ((cmp_eq_gt_iff _ _).2 (WithBot.coe_lt_coe.2 (WithTop.coe_lt_top _))).symm
  | num q => exact (hnum q).trans (cmp_coe ..).symm

/-- A double compares with a signed integer as their values do. -/
lemma cmpF64I64_eq {x : F64} (hx : x ≠ .nan) (n : I64) :
    cmpF64I64 x n = cmp x.val (F64.ofInt n.val) := by
  refine cmp_val (f := (cmpF64I64 · n)) (fun q => ?_) ?_ ⟨rfl, rfl⟩ hx
  · have hlow := n.lower
    have hupp := n.upper
    rw [cmpF64I64, if_neg (by simp [F64.isInfinite])]
    split
    · next h =>
      rw [two63, num_le_num] at h
      refine ((cmp_eq_gt_iff _ _).2 (lt_of_lt_of_le ?_ h)).symm
      exact_mod_cast hupp
    · next h =>
      rw [two63, num_le_num, not_le] at h
      split
      · next h' =>
        rw [negTwo63, num_lt_num] at h'
        refine ((cmp_eq_lt_iff _ _).2 (lt_of_lt_of_le h' ?_)).symm
        exact_mod_cast hlow
      · next h' =>
        rw [negTwo63, num_lt_num, not_lt] at h'
        have hfloor : ⌊q⌋ < 2 ^ 63 := floor_lt.2 (by exact_mod_cast h)
        exact cmp_floor (le_floor.2 (by exact_mod_cast h')) (by omega) n.val
  · rfl

/-- A double compares with an unsigned integer as their values do. -/
lemma cmpF64U64_eq {x : F64} (hx : x ≠ .nan) (n : U64) :
    cmpF64U64 x n = cmp x.val (F64.ofInt n.val) := by
  refine cmp_val (f := (cmpF64U64 · n)) (fun q => ?_) ?_ ⟨rfl, rfl⟩ hx
  · have hupp := n.upper
    rw [cmpF64U64]
    split
    · next h =>
      rw [num_lt_num] at h
      refine ((cmp_eq_lt_iff _ _).2 (lt_of_lt_of_le h ?_)).symm
      exact_mod_cast Nat.zero_le _
    · next h =>
      rw [num_lt_num, not_lt] at h
      split
      · next h' =>
        rw [two64, num_le_num] at h'
        refine ((cmp_eq_gt_iff _ _).2 (lt_of_lt_of_le ?_ h')).symm
        exact_mod_cast hupp
      · next h' =>
        rw [two64, num_le_num, not_le] at h'
        have hfloor : ⌊q⌋ < 2 ^ 64 := floor_lt.2 (by exact_mod_cast h')
        exact cmp_floor (floor_nonneg.2 h) (by omega) n.val
  · rfl

lemma cmp_toLex_one (a b : Line) : cmp (toLex (a, 1) : Line ×ₗ ℕ) (toLex (b, 1)) = cmp a b := by
  have hmono : StrictMono fun a : Line => (toLex (a, 1) : Line ×ₗ ℕ) :=
    fun _ _ h => Prod.Lex.toLex_lt_toLex.2 (.inl h)
  exact hmono.cmp_map_eq a b

/-- A column value meets a bound in the total order of the doubles. -/
lemma NumBound.ord_eq (b : NumBound) {v : F64} (hv : v ≠ .nan) :
    b.ord v = cmp (toLex (v.val, 1)) b.key := by
  have hne := F64.normZero_ne_nan hv
  cases b with
  | I n => rw [ord, cmpF64I64_eq hne, key, cmp_toLex_one, F64.normZero_val]
  | U n => rw [ord, cmpF64U64_eq hne, key, cmp_toLex_one, F64.normZero_val]
  | F x => rw [ord, F64.totalCmp, F64.totalKey_normZero hv, key]

lemma Edge.admitsFromBelow_iff {v : F64} (hv : v ≠ .nan) : e.admitsFromBelow v = true ↔
      if e.exclusive then e.value.key < toLex (v.val, 1) else e.value.key ≤ toLex (v.val, 1) := by
  rw [admitsFromBelow, NumBound.ord_eq _ hv]
  split
  · rw [decide_eq_true_iff, cmp_eq_gt_iff]
  · rw [decide_eq_true_iff, Ne, cmp_eq_lt_iff, not_lt]

lemma Edge.admitsFromAbove_iff {v : F64} (hv : v ≠ .nan) : e.admitsFromAbove v = true ↔
      if e.exclusive then toLex (v.val, 1) < e.value.key else toLex (v.val, 1) ≤ e.value.key := by
  rw [admitsFromAbove, NumBound.ord_eq _ hv]
  split
  · rw [decide_eq_true_iff, cmp_eq_lt_iff]
  · rw [decide_eq_true_iff, Ne, cmp_eq_gt_iff, not_lt]

lemma toLex_one_mono {a b : Line} (h : a ≤ b) : (toLex (a, 1) : Line ×ₗ ℕ) ≤ toLex (b, 1) := by
  rw [Prod.Lex.toLex_le_toLex]
  rcases h.lt_or_eq with h | rfl
  · exact .inl h
  · exact .inr ⟨rfl, le_rfl⟩

lemma Edge.admitsFromBelow_mono {v w : F64} (h : v.le w = true)
    (hv : e.admitsFromBelow v = true) : e.admitsFromBelow w = true := by
  obtain ⟨hnv, hnw⟩ := F64.ne_nan_of_le h
  rw [F64.le_iff hnv hnw] at h
  rw [e.admitsFromBelow_iff hnv] at hv
  rw [e.admitsFromBelow_iff hnw]
  split at hv
  · next hx => rw [if_pos hx]; exact hv.trans_le (toLex_one_mono h)
  · next hx => rw [if_neg hx]; exact hv.trans (toLex_one_mono h)

lemma Edge.admitsFromAbove_mono {v w : F64} (h : v.le w = true)
    (hw : e.admitsFromAbove w = true) : e.admitsFromAbove v = true := by
  obtain ⟨hnv, hnw⟩ := F64.ne_nan_of_le h
  rw [F64.le_iff hnv hnw] at h
  rw [e.admitsFromAbove_iff hnw] at hw
  rw [e.admitsFromAbove_iff hnv]
  split at hw
  · next hx => rw [if_pos hx]; exact (toLex_one_mono h).trans_lt hw
  · next hx => rw [if_neg hx]; exact (toLex_one_mono h).trans hw

/-- The least and greatest 128-bit integers, the ends of the wide arithmetic below. -/
def i128Min : ℤ := -2 ^ 127

def i128Max : ℤ := 2 ^ 127 - 1

/-- The smallest signed integer a lower bound admits, `none` when it admits none. -/
def intLower (b : Edge) : Option I64 :=
  let lo : ℤ := match b.value with
    | .I n => n.val + b.exclusive.toInt
    | .U n => n.val + b.exclusive.toInt
    | .F x =>
      if b.exclusive then min (x.floor.toInt i128Min i128Max + 1) i128Max
      else x.ceil.toInt i128Min i128Max
  if I64.max.val < lo then none else some (I64.clamp lo)

/-- The largest signed integer an upper bound admits, `none` when it admits none. -/
def intUpper (b : Edge) : Option I64 :=
  let hi : ℤ := match b.value with
    | .I n => n.val - b.exclusive.toInt
    | .U n => n.val - b.exclusive.toInt
    | .F x =>
      if b.exclusive then max (x.ceil.toInt i128Min i128Max - 1) i128Min
      else x.floor.toInt i128Min i128Max
  if hi < I64.min.val then none else some (I64.clamp hi)

/-- A range over a signed column as inclusive ends; `lo > hi` is the empty range. -/
def intRange (min max : Option Edge) : I64 × I64 :=
  let lo := match min with
    | none => some I64.min
    | some b => intLower b
  let hi := match max with
    | none => some I64.max
    | some b => intUpper b
  match lo, hi with
  | some lo, some hi => (lo, hi)
  | _, _ => (⟨1, by norm_num, by norm_num⟩, ⟨0, I64.le_zero, I64.zero_lt⟩)

/-- The smallest unsigned integer a lower bound admits. -/
def uintLower (b : Edge) : Option U64 :=
  match b.value with
  | .I n => ofInt? (max (n.val + b.exclusive.toInt) 0)
  | .U n => ofInt? (max (n.val + b.exclusive.toInt) 0)
  | .F x =>
    if x.lt (.num 0) then some ⟨0, zero_lt⟩
    else if two64.le x then none
    else ofInt? (max (if b.exclusive then x.floor.toInt i128Min i128Max + 1
      else x.ceil.toInt i128Min i128Max) 0)

/-- The largest unsigned integer an upper bound admits. -/
def uintUpper (b : Edge) : Option U64 :=
  match b.value with
  | .I n => ofInt? (min (n.val - b.exclusive.toInt) U64.max.val)
  | .U n => ofInt? (min (n.val - b.exclusive.toInt) U64.max.val)
  | .F x =>
    if x.lt (.num 0) then none
    else if two64.le x then some U64.max
    else ofInt? (min (if b.exclusive then x.ceil.toInt i128Min i128Max - 1
      else x.floor.toInt i128Min i128Max) U64.max.val)

/-- A range over an unsigned column as inclusive ends. -/
def uintRange (min max : Option Edge) : U64 × U64 :=
  match (match min with
      | none => some ⟨0, zero_lt⟩
      | some b => uintLower b),
    (match max with
      | none => some U64.max
      | some b => uintUpper b) with
  | some lo, some hi => (lo, hi)
  | _, _ => (⟨1, one_lt⟩, ⟨0, zero_lt⟩)

/-- A number on or above a lower edge. -/
def Edge.Below (x : Line) : Prop :=
  if e.exclusive then e.value.val < x else e.value.val ≤ x

/-- A number on or below an upper edge. -/
def Edge.Above (x : Line) : Prop :=
  if e.exclusive then x < e.value.val else x ≤ e.value.val

def NumBound.IsNumber (b : NumBound) : Prop := b ≠ .F .nan

lemma ofInt_le {a b : ℤ} : F64.ofInt a ≤ F64.ofInt b ↔ a ≤ b := by
  simp [F64.ofInt]

lemma ofInt_lt {a b : ℤ} : F64.ofInt a < F64.ofInt b ↔ a < b := by
  simp [F64.ofInt]

lemma ofInt_lt_top (v : ℤ) : F64.ofInt v < ⊤ := WithBot.coe_lt_coe.2 (WithTop.coe_lt_top _)

lemma ofInt_lt_two64 (v : U64) : F64.ofInt v.val < two64.val := by
  rw [two64, F64.val_num]
  exact_mod_cast v.upper

lemma toInt_exclusive (b : Bool) : b.toInt = if b then 1 else 0 := by
  cases b <;> rfl

variable {e : Edge}

lemma Edge.below_ofInt {n v : ℤ} (he : e.value.val = F64.ofInt n) :
    n + e.exclusive.toInt ≤ v ↔ e.Below (F64.ofInt v) := by
  rw [Below, he, toInt_exclusive]
  split
  · rw [ofInt_lt]; omega
  · rw [ofInt_le]; omega

lemma Edge.above_ofInt {n v : ℤ} (he : e.value.val = F64.ofInt n) :
    v ≤ n - e.exclusive.toInt ↔ e.Above (F64.ofInt v) := by
  rw [Above, he, toInt_exclusive]
  split
  · rw [ofInt_lt]; omega
  · rw [ofInt_le]; omega

variable {v : ℤ}

lemma coe_lt_ofInt {q : ℚ} : ((q : WithTop ℚ) : Line) < F64.ofInt v ↔ ⌊q⌋ + 1 ≤ v := by
  rw [WithBot.coe_lt_coe, WithTop.coe_lt_coe, ← floor_lt]
  omega

lemma coe_le_ofInt {q : ℚ} : ((q : WithTop ℚ) : Line) ≤ F64.ofInt v ↔ ⌈q⌉ ≤ v := by
  rw [WithBot.coe_le_coe, WithTop.coe_le_coe, ceil_le]

lemma ofInt_lt_coe {q : ℚ} : F64.ofInt v < ((q : WithTop ℚ) : Line) ↔ v ≤ ⌈q⌉ - 1 := by
  rw [WithBot.coe_lt_coe, WithTop.coe_lt_coe, ← lt_ceil]
  omega

lemma ofInt_le_coe {q : ℚ} : F64.ofInt v ≤ ((q : WithTop ℚ) : Line) ↔ v ≤ ⌊q⌋ := by
  rw [WithBot.coe_le_coe, WithTop.coe_le_coe, le_floor]

section

variable {x : F64} (hx : x ≠ .nan) (h₁ : -2 ^ 63 ≤ v) (h₂ : v < 2 ^ 64) (excl : Bool)

include hx h₁ h₂

/-- The wide integer a double lower bound becomes is below exactly the integers it admits. -/
lemma wide_lower :
    (if excl then min (x.floor.toInt i128Min i128Max + 1) i128Max
      else x.ceil.toInt i128Min i128Max) ≤ v ↔ (⟨.F x, excl⟩ : Edge).Below (F64.ofInt v) := by
  have hv : ∀ q : ℚ, (if excl then min ((F64.num q).floor.toInt i128Min i128Max + 1) i128Max
      else (F64.num q).ceil.toInt i128Min i128Max) ≤ v ↔
      if excl then ((q : WithTop ℚ) : Line) < F64.ofInt v
      else ((q : WithTop ℚ) : Line) ≤ F64.ofInt v := by
    intro q
    rw [F64.toInt_floor, F64.toInt_ceil (by norm_num [i128Min]) (by norm_num [i128Max]),
      coe_lt_ofInt, coe_le_ofInt, i128Min, i128Max]
    split <;> omega
  cases x with
  | nan => exact absurd rfl hx
  | negZero =>
    simpa [F64.floor, F64.ceil, F64.toInt, Edge.Below, NumBound.val, F64.val, i128Min, i128Max]
      using hv 0
  | num q => simpa [Edge.Below, NumBound.val] using hv q
  | negInf =>
    have h : (if excl then min (i128Min + 1) i128Max else i128Min) ≤ v := by
      rw [i128Min]
      split <;> omega
    cases excl <;> simpa [F64.floor, F64.ceil, F64.toInt, Edge.Below, NumBound.val, F64.val] using h
  | posInf =>
    have h : ¬ (if excl then min (i128Max + 1) i128Max else i128Max) ≤ v := by
      rw [i128Max]
      split <;> omega
    cases excl <;> simpa [F64.floor, F64.ceil, F64.toInt, Edge.Below, NumBound.val, F64.val] using h

/-- The wide integer a double upper bound becomes is above exactly the integers it admits. -/
lemma wide_upper :
    v ≤ (if excl then max (x.ceil.toInt i128Min i128Max - 1) i128Min
      else x.floor.toInt i128Min i128Max) ↔ (⟨.F x, excl⟩ : Edge).Above (F64.ofInt v) := by
  have hv : ∀ q : ℚ, v ≤ (if excl then max ((F64.num q).ceil.toInt i128Min i128Max - 1) i128Min
      else (F64.num q).floor.toInt i128Min i128Max) ↔
      if excl then F64.ofInt v < ((q : WithTop ℚ) : Line)
      else F64.ofInt v ≤ ((q : WithTop ℚ) : Line) := by
    intro q
    rw [F64.toInt_floor, F64.toInt_ceil (by norm_num [i128Min]) (by norm_num [i128Max]),
      ofInt_lt_coe, ofInt_le_coe, i128Min, i128Max]
    split <;> omega
  cases x with
  | nan => exact absurd rfl hx
  | negZero =>
    simpa [F64.floor, F64.ceil, F64.toInt, Edge.Above, NumBound.val, F64.val, i128Min, i128Max]
      using hv 0
  | num q => simpa [Edge.Above, NumBound.val] using hv q
  | posInf =>
    have h : v ≤ (if excl then max (i128Max - 1) i128Min else i128Max) := by
      rw [i128Max]
      split <;> omega
    cases excl <;>
      simpa [F64.floor, F64.ceil, F64.toInt, Edge.Above, NumBound.val, F64.val, ofInt_lt_top] using h
  | negInf =>
    have h : ¬ v ≤ (if excl then max (i128Min - 1) i128Min else i128Min) := by
      rw [i128Min]
      split <;> omega
    cases excl <;> simpa [F64.floor, F64.ceil, F64.toInt, Edge.Above, NumBound.val, F64.val] using h

end

lemma exists_ofInt?_le {z : ℤ} (hz : 0 ≤ z) (v : U64) :
    (∃ lo ∈ ofInt? z, lo ≤ v) ↔ z ≤ v.val := by
  have hv := v.upper
  constructor
  · rintro ⟨lo, hlo, hle⟩
    rw [← ofInt?_eq_some.1 hlo]
    exact_mod_cast hle
  · intro h
    refine ⟨⟨z.toNat, by omega⟩, ofInt?_eq_some.2 (toNat_of_nonneg hz), ?_⟩
    rw [le_iff]
    simp only
    omega

lemma exists_le_ofInt? {z : ℤ} (hz : z < 2 ^ 64) (v : U64) :
    (∃ hi ∈ ofInt? z, v ≤ hi) ↔ v.val ≤ z := by
  constructor
  · rintro ⟨hi, hhi, hle⟩
    rw [← ofInt?_eq_some.1 hhi]
    exact_mod_cast hle
  · intro h
    have hz' : 0 ≤ z := le_trans (natCast_nonneg _) h
    refine ⟨⟨z.toNat, by omega⟩, ofInt?_eq_some.2 (toNat_of_nonneg hz'), ?_⟩
    rw [le_iff]
    simp only
    omega

section

variable (he : e.value.IsNumber)

include he

lemma exists_intLower_le (v : I64) : (∃ lo ∈ intLower e, lo ≤ v) ↔ e.Below (F64.ofInt v.val) := by
  have hl := v.lower
  have hu := v.upper
  obtain ⟨lo, hlo, hiff⟩ : ∃ lo : ℤ,
      intLower e = (if I64.max.val < lo then none else some (I64.clamp lo)) ∧
      (lo ≤ v.val ↔ e.Below (F64.ofInt v.val)) := by
    obtain ⟨b, excl⟩ := e
    cases b with
    | I n | U n => exact ⟨_, rfl, Edge.below_ofInt rfl⟩
    | F x => exact ⟨_, rfl, wide_lower (fun h => he (by rw [h])) hl (by omega) excl⟩
  rw [hlo, ← hiff]
  split
  · next h =>
    simp only [I64.max] at h
    simp only [Option.mem_def, reduceCtorEq, false_and, exists_false, false_iff]
    omega
  · next h =>
    simp only [I64.max] at h
    simp only [Option.mem_def, Option.some.injEq, exists_eq_left', I64.le_iff,
      I64.clamp_val_of_le (by omega : lo ≤ 2 ^ 63 - 1)]
    omega

lemma exists_le_intUpper (v : I64) : (∃ hi ∈ intUpper e, v ≤ hi) ↔ e.Above (F64.ofInt v.val) := by
  have hl := v.lower
  have hu := v.upper
  obtain ⟨hi, hhi, hiff⟩ : ∃ hi : ℤ,
      intUpper e = (if hi < I64.min.val then none else some (I64.clamp hi)) ∧
      (v.val ≤ hi ↔ e.Above (F64.ofInt v.val)) := by
    obtain ⟨b, excl⟩ := e
    cases b with
    | I n | U n => exact ⟨_, rfl, Edge.above_ofInt rfl⟩
    | F x => exact ⟨_, rfl, wide_upper (fun h => he (by rw [h])) hl (by omega) excl⟩
  rw [hhi, ← hiff]
  split
  · next h =>
    simp only [I64.min] at h
    simp only [Option.mem_def, reduceCtorEq, false_and, exists_false, false_iff]
    omega
  · next h =>
    simp only [I64.min] at h
    simp only [Option.mem_def, Option.some.injEq, exists_eq_left', I64.le_iff,
      I64.clamp_val_of_ge (by omega : -2 ^ 63 ≤ hi)]
    omega

lemma exists_uintLower_le (v : U64) :
    (∃ lo ∈ uintLower e, lo ≤ v) ↔ e.Below (F64.ofInt v.val) := by
  have hu := v.upper
  obtain ⟨b, excl⟩ := e
  have hint : ∀ n : ℤ, (⟨b, excl⟩ : Edge).value.val = F64.ofInt n →
      ((∃ lo ∈ ofInt? (max (n + excl.toInt) 0), lo ≤ v) ↔
        (⟨b, excl⟩ : Edge).Below (F64.ofInt v.val)) := by
    intro n hn
    have hiff : n + excl.toInt ≤ v.val ↔ _ := Edge.below_ofInt hn
    rw [exists_ofInt?_le (by omega), ← hiff]
    omega
  cases b with
  | I n | U n => exact hint n.val rfl
  | F x =>
    have hx : x ≠ .nan := fun h => he (by rw [h])
    have hwide := wide_lower hx (by omega : -2 ^ 63 ≤ (v.val : ℤ)) (by omega) excl
    simp only [uintLower]
    split
    · next h =>
      -- a negative bound admits every unsigned integer
      rw [F64.lt_iff hx (by simp)] at h
      have hlt := h.trans_le (ofInt_le.2 (natCast_nonneg v.val) : F64.ofInt 0 ≤ _)
      have hbelow : (⟨.F x, excl⟩ : Edge).Below (F64.ofInt v.val) := by
        rw [Edge.Below]
        split
        exacts [hlt, hlt.le]
      simp only [hbelow, iff_true]
      exact ⟨_, rfl, by rw [le_iff]; exact Nat.zero_le _⟩
    · split
      · next h =>
        rw [F64.le_iff (by simp [two64]) hx] at h
        have hlt := (ofInt_lt_two64 v).trans_le h
        have hnot : ¬ (⟨.F x, excl⟩ : Edge).Below (F64.ofInt v.val) := by
          rw [Edge.Below]
          split
          exacts [hlt.le.not_gt, hlt.not_ge]
        simp [hnot]
      · rw [exists_ofInt?_le (by omega), ← hwide]
        have hmax : (v.val : ℤ) < i128Max := by rw [i128Max]; omega
        split <;> omega

lemma exists_le_uintUpper (v : U64) :
    (∃ hi ∈ uintUpper e, v ≤ hi) ↔ e.Above (F64.ofInt v.val) := by
  have hu := v.upper
  have hmaxval : (U64.max.val : ℤ) = 2 ^ 64 - 1 := by norm_num [U64.max]
  obtain ⟨b, excl⟩ := e
  have hint : ∀ n : ℤ, (⟨b, excl⟩ : Edge).value.val = F64.ofInt n →
      ((∃ hi ∈ ofInt? (min (n - excl.toInt) U64.max.val), v ≤ hi) ↔
        (⟨b, excl⟩ : Edge).Above (F64.ofInt v.val)) := by
    intro n hn
    have hiff : v.val ≤ n - excl.toInt ↔ _ := Edge.above_ofInt hn
    rw [exists_le_ofInt? (by omega), ← hiff]
    omega
  cases b with
  | I n | U n => exact hint n.val rfl
  | F x =>
    have hx : x ≠ .nan := fun h => he (by rw [h])
    have hwide := wide_upper hx (by omega : -2 ^ 63 ≤ (v.val : ℤ)) (by omega) excl
    simp only [uintUpper]
    split
    · next h =>
      -- a negative bound admits no unsigned integer
      rw [F64.lt_iff hx (by simp)] at h
      have hlt := h.trans_le (ofInt_le.2 (natCast_nonneg v.val) : F64.ofInt 0 ≤ _)
      have hnot : ¬ (⟨.F x, excl⟩ : Edge).Above (F64.ofInt v.val) := by
        rw [Edge.Above]
        split
        exacts [hlt.le.not_gt, hlt.not_ge]
      simp [hnot]
    · split
      · next h =>
        rw [F64.le_iff (by simp [two64]) hx] at h
        have hlt := (ofInt_lt_two64 v).trans_le h
        have habove : (⟨.F x, excl⟩ : Edge).Above (F64.ofInt v.val) := by
          rw [Edge.Above]
          split
          exacts [hlt, hlt.le]
        simp only [habove, iff_true]
        exact ⟨_, rfl, by rw [le_iff]; omega⟩
      · rw [exists_le_ofInt? (by omega), ← hwide]
        have hmin : i128Min < (v.val : ℤ) := by rw [i128Min]; omega
        split <;> omega

end

section

variable {min max : Option Edge} (hmin : ∀ e ∈ min, e.value.IsNumber)
  (hmax : ∀ e ∈ max, e.value.IsNumber)

include hmin hmax

/-- A signed range holds exactly the integers between its edges. -/
lemma mem_intRange (v : I64) : ((intRange min max).1 ≤ v ∧ v ≤ (intRange min max).2) ↔
      (∀ e ∈ min, e.Below (F64.ofInt v.val)) ∧ ∀ e ∈ max, e.Above (F64.ofInt v.val) := by
  have hlo : (∃ lo ∈ (match min with | none => some I64.min | some b => intLower b), lo ≤ v) ↔
      ∀ e ∈ min, e.Below (F64.ofInt v.val) := by
    cases min with
    | none => simpa [I64.le_iff, I64.min] using v.lower
    | some e => simpa using exists_intLower_le (hmin e rfl) v
  have hhi : (∃ hi ∈ (match max with | none => some I64.max | some b => intUpper b), v ≤ hi) ↔
      ∀ e ∈ max, e.Above (F64.ofInt v.val) := by
    cases max with
    | none => simpa [I64.le_iff, I64.max] using le_sub_one_of_lt v.upper
    | some e => simpa using exists_le_intUpper (hmax e rfl) v
  rw [← hlo, ← hhi]
  unfold intRange
  dsimp only
  split
  · next lo hi h₁ h₂ => simp [h₁, h₂]
  · next h =>
    constructor
    · rintro ⟨h₁, h₂⟩
      rw [I64.le_iff] at h₁ h₂
      simp only at h₁ h₂
      omega
    · rintro ⟨⟨lo, hlo, -⟩, hi, hhi, -⟩
      exact absurd hhi (h lo hi hlo)

/-- **An unsigned range holds exactly the integers between its edges.** -/
theorem mem_uintRange (v : U64) : ((uintRange min max).1 ≤ v ∧ v ≤ (uintRange min max).2) ↔
      (∀ e ∈ min, e.Below (F64.ofInt v.val)) ∧ ∀ e ∈ max, e.Above (F64.ofInt v.val) := by
  have hlo : (∃ lo ∈ (match min with
      | none => some (⟨0, zero_lt⟩ : U64) | some b => uintLower b), lo ≤ v) ↔
      ∀ e ∈ min, e.Below (F64.ofInt v.val) := by
    cases min with
    | none => simp [le_iff]
    | some e => simpa using exists_uintLower_le (hmin e rfl) v
  have hhi : (∃ hi ∈ (match max with | none => some U64.max | some b => uintUpper b), v ≤ hi) ↔
      ∀ e ∈ max, e.Above (F64.ofInt v.val) := by
    cases max with
    | none => simpa [le_iff, U64.max] using Nat.le_sub_one_of_lt v.upper
    | some e => simpa using exists_le_uintUpper (hmax e rfl) v
  rw [← hlo, ← hhi]
  unfold uintRange
  split
  · next lo hi h₁ h₂ => simp [h₁, h₂]
  · next h =>
    constructor
    · rintro ⟨h₁, h₂⟩
      rw [le_iff] at h₁ h₂
      simp only at h₁ h₂
      omega
    · rintro ⟨⟨lo, hlo, -⟩, hi, hhi, -⟩
      exact absurd hhi (h lo hi hlo)

end

/-- **Ranges and comparisons are exact**: integer ends admit the integers between the edges and no
others, and a double compares with an integer as their values do. -/
theorem ranges_exact : (∀ min max : Option Edge, (∀ e ∈ min, e.value.IsNumber) →
      (∀ e ∈ max, e.value.IsNumber) →
      (∀ v : I64, ((intRange min max).1 ≤ v ∧ v ≤ (intRange min max).2) ↔
        (∀ e ∈ min, e.Below (F64.ofInt v.val)) ∧ ∀ e ∈ max, e.Above (F64.ofInt v.val)) ∧
      ∀ v : U64, ((uintRange min max).1 ≤ v ∧ v ≤ (uintRange min max).2) ↔
        (∀ e ∈ min, e.Below (F64.ofInt v.val)) ∧ ∀ e ∈ max, e.Above (F64.ofInt v.val)) ∧
    ∀ x : F64, x ≠ .nan → (∀ n : I64, cmpF64I64 x n = cmp x.val (F64.ofInt n.val)) ∧
      ∀ n : U64, cmpF64U64 x n = cmp x.val (F64.ofInt n.val) :=
  ⟨fun _ _ hmin hmax => ⟨mem_intRange hmin hmax, mem_uintRange hmin hmax⟩,
    fun _ hx => ⟨cmpF64I64_eq hx, cmpF64U64_eq hx⟩⟩

/-- The unsigned integers above one half, and the negative zero against zero. -/
theorem ranges_exact_half :
    (⟨.F (.num (1 / 2)), true⟩ : Edge).Below (F64.ofInt (U64.mk 1 one_lt).val) ∧
      cmp F64.negZero.val (F64.ofInt (U64.mk 0 zero_lt).val) = .eq := by
  have hrange := (ranges_exact.1 (some ⟨.F (.num (1 / 2)), true⟩) none
    (by simp [NumBound.IsNumber]) (by simp)).2 ⟨1, one_lt⟩
  exact ⟨(hrange.1 (by decide +kernel)).1 _ rfl,
    ((ranges_exact.2 .negZero (by decide)).2 ⟨0, zero_lt⟩).symm.trans rfl⟩

end ProtomoltSearch.Filter
