import ProtomoltSearch.Foundations.Numbers

/-!
# Placement codes

A leaf's path is stored as one integer: the index chosen at each level in a fixed field of
`levelBits` bits, the root highest, the sign bit unused (`placement.rs`). `getLsbD_encode` reads a
field back, and `eq_of_encode_eq` says that two paths with one code agree on every level both
have. The paths that extend a path have their codes in its range (`initial_iff_mem_subtreeRange`).
-/

namespace ProtomoltSearch.Placement

open List Nat

def codeBits : ℕ := 63

/-- Bits per level when the tree does not say. -/
def defaultLevelBits : ℕ := 9

/-- The lowest bit of a level's field. -/
def shift (levelBits level : ℕ) : ℕ := codeBits - levelBits * (level + 1)

def field (levelBits level index : ℕ) : BitVec 64 :=
  BitVec.ofNat 64 index <<< shift levelBits level

variable (path : List ℕ)

/-- The path code. -/
def encodeBits (levelBits : ℕ) : BitVec 64 :=
  path.zipIdx.foldl (fun code p => code ||| field levelBits p.2 p.1) 0

/-- The signed integer of a 64-bit word. -/
def I64.ofBits (b : BitVec 64) : I64 := ⟨b.toInt, BitVec.le_toInt b, BitVec.toInt_lt⟩

/-- The path code as the stored integer. -/
def encode (levelBits : ℕ) : I64 := I64.ofBits (encodeBits path levelBits)

/-- The bits below the fields of a path. -/
def width (levelBits : ℕ) : ℕ := codeBits - levelBits * path.length

/-- All ones below a bit. -/
def span (width : ℕ) : BitVec 64 := if 63 ≤ width then BitVec.intMax 64 else 1#64 <<< width - 1

/-- The inclusive code range of every path that extends a path. -/
def subtreeRange (levelBits : ℕ) : I64 × I64 :=
  let lo := encodeBits path levelBits
  (I64.ofBits lo, I64.ofBits (lo ||| span (width path levelBits)))

def indexAt (code : I64) (level levelBits : ℕ) : ℕ :=
  ((BitVec.ofInt 64 code.val).sshiftRight (shift levelBits level) &&&
    (1#64 <<< levelBits - 1)).toNat % 2 ^ 32

/-- A path that fits the code: every index in its field, every field above the lowest bit. -/
structure Fits (levelBits : ℕ) (path : List ℕ) : Prop where
  lt : ∀ i ∈ path, i < 2 ^ levelBits
  length : levelBits * path.length ≤ codeBits

variable {levelBits : ℕ}

lemma encodeBits_snoc (i : ℕ) : encodeBits (path ++ [i]) levelBits =
      encodeBits path levelBits ||| field levelBits path.length i := by
  simp [encodeBits, zipIdx_append]

lemma Fits.of_append {p q : List ℕ} (h : Fits levelBits (p ++ q)) : Fits levelBits p where
  lt i hi := h.lt i (by simp [hi])
  length := by
    have := h.length
    rw [length_append, mul_add] at this
    omega

lemma getLsbD_field {level index b : ℕ} (hb : b < 64) : (field levelBits level index).getLsbD b =
      (decide (shift levelBits level ≤ b) && index.testBit (b - shift levelBits level)) := by
  rw [field, BitVec.getLsbD_shiftLeft, BitVec.getLsbD_ofNat]
  rcases lt_or_ge b (shift levelBits level) with h | h
  · simp [h, not_le.2 h]
  · have h' : b - shift levelBits level < 64 := by omega
    simp [h, h', hb, not_lt.2 h]

lemma shift_add {n : ℕ} (h : levelBits * (n + 1) ≤ codeBits) :
    shift levelBits n + levelBits = codeBits - levelBits * n := by
  unfold shift
  rw [mul_add] at *
  omega

lemma getLsbD_encodeBits_low {b : ℕ}
    (hb : b < codeBits - levelBits * path.length) : (encodeBits path levelBits).getLsbD b = false := by
  induction path using List.reverseRecOn with
  | nil => simp [encodeBits]
  | append_singleton p i ih =>
    rw [length_append] at hb
    have hb' : ¬shift levelBits p.length ≤ b := not_le.2 hb
    rw [encodeBits_snoc, BitVec.getLsbD_or, ih (by rw [mul_add] at hb; omega),
      getLsbD_field (by rw [codeBits] at hb; omega)]
    simp [hb']

/-- The field of each level holds the index chosen there. -/
lemma getLsbD_encode (h : Fits levelBits path) {k b : ℕ} (hk : k < path.length)
    (hb : b < levelBits) :
    (encodeBits path levelBits).getLsbD (shift levelBits k + b) = path[k].testBit b := by
  induction path using List.reverseRecOn with
  | nil => exact absurd hk (by simp)
  | append_singleton p i ih =>
    have hlen := h.length
    rw [length_append, length_singleton] at hlen
    have hk' : k < p.length + 1 := by simpa using hk
    have hfit : levelBits * (k + 1) ≤ codeBits :=
      (Nat.mul_le_mul_left _ (by omega)).trans hlen
    have hkshift := shift_add hfit
    have hpshift := shift_add hlen
    have hbit : shift levelBits k + b < 64 := by
      rw [codeBits] at hkshift
      omega
    rw [encodeBits_snoc, BitVec.getLsbD_or, getLsbD_field hbit]
    rcases lt_or_ge k p.length with hkp | hkp
    · -- an earlier field lies above every bit of the new one
      have hle : levelBits * (k + 1) ≤ levelBits * p.length := mul_le_mul_left _ hkp
      have habove : shift levelBits p.length + levelBits ≤ shift levelBits k := by
        rw [hpshift]
        exact Nat.sub_le_sub_left hle _
      have hhigh : i.testBit (shift levelBits k + b - shift levelBits p.length) = false :=
        testBit_lt_two_pow (lt_of_lt_of_le (h.lt i (by simp))
          (Nat.pow_le_pow_right (by omega) (by omega)))
      rw [ih h.of_append hkp, hhigh, Bool.and_false, Bool.or_false, getElem_append_left hkp]
    · obtain rfl : k = p.length := by omega
      have hlow : (encodeBits p levelBits).getLsbD (shift levelBits p.length + b) = false :=
        getLsbD_encodeBits_low p (by omega)
      rw [hlow]
      simp

/-- The index of a level is read back from the code. -/
lemma index_encodeBits (h : Fits levelBits path) {k : ℕ} (hk : k < path.length) :
    (encodeBits path levelBits).toNat >>> shift levelBits k % 2 ^ levelBits = path[k] := by
  refine eq_of_testBit_eq fun b => ?_
  rw [testBit_mod_two_pow, testBit_shiftRight, BitVec.testBit_toNat]
  by_cases hb : b < levelBits
  · rw [getLsbD_encode path h hk hb, decide_eq_true hb, Bool.true_and]
  · rw [testBit_lt_two_pow ((h.lt _ (getElem_mem hk)).trans_le
      (Nat.pow_le_pow_right Nat.two_pos (not_lt.1 hb))), decide_eq_false hb, Bool.false_and]

/-- Paths with one code agree wherever both go. -/
lemma eq_of_encode_eq {p q : List ℕ} (hp : Fits levelBits p) (hq : Fits levelBits q)
    (h : encode p levelBits = encode q levelBits) {k : ℕ} (hkp : k < p.length)
    (hkq : k < q.length) : p[k] = q[k] := by
  have hbits := BitVec.eq_of_toInt_eq (congrArg I64.val h)
  rw [← index_encodeBits p hp hkp, hbits, index_encodeBits q hq hkq]

variable {path}

/-- A longer path has the bits of a shorter one above the fields of the rest. -/
lemma getLsbD_encodeBits_append {p r : List ℕ} (h : Fits levelBits (p ++ r)) {b : ℕ}
    (hb : width p levelBits ≤ b) :
    (encodeBits (p ++ r) levelBits).getLsbD b = (encodeBits p levelBits).getLsbD b := by
  induction r using List.reverseRecOn with
  | nil => rw [append_nil]
  | append_singleton r i ih =>
    rw [← append_assoc] at h ⊢
    have hlen := h.length
    rw [length_append, length_singleton] at hlen
    have hshift := shift_add hlen
    have hle : levelBits * p.length ≤ levelBits * (p ++ r).length :=
      mul_le_mul_left _ (by simp)
    rw [width] at hb
    have hhigh : i.testBit (b - shift levelBits (p ++ r).length) = false :=
      Nat.testBit_lt_two_pow ((h.lt i (by simp)).trans_le (Nat.pow_le_pow_right (by omega) (by omega)))
    rw [encodeBits_snoc, BitVec.getLsbD_or, ih h.of_append]
    rcases lt_or_ge b 64 with hb' | hb'
    · rw [getLsbD_field hb', hhigh, Bool.and_false, Bool.or_false]
    · rw [BitVec.getLsbD_of_ge _ _ hb', BitVec.getLsbD_of_ge _ _ hb', Bool.or_false]

/-- The sign bit of a code is clear. -/
lemma toNat_encodeBits_lt (h : Fits levelBits path) : (encodeBits path levelBits).toNat < 2 ^ 63 := by
  have hmsb : (encodeBits path levelBits).msb = false := by
    refine (getLsbD_encodeBits_append (p := []) (b := 63) h (sub_le _ _)).trans ?_
    simp [encodeBits]
  have := BitVec.msb_eq_false_iff_two_mul_lt.1 hmsb
  omega

lemma ofBits_val {x : BitVec 64} (hx : x.toNat < 2 ^ 63) : (I64.ofBits x).val = x.toNat :=
  BitVec.toInt_eq_toNat_of_msb (BitVec.msb_eq_false_iff_two_mul_lt.2 (by omega))

lemma toNat_ones {w : ℕ} (h : w < 64) : (1#64 <<< w - 1).toNat = 2 ^ w - 1 := by
  have hone : (1#64 <<< w).toNat = 2 ^ w := by
    simpa [Nat.shiftLeft_eq] using Nat.mod_eq_of_lt (Nat.pow_lt_pow_right Nat.one_lt_two h)
  have hle : 1 ≤ 2 ^ w := Nat.two_pow_pos w
  rw [BitVec.toNat_sub_of_le (BitVec.le_def.2 (hone ▸ hle)), hone]
  rfl

lemma toNat_span : (span (width path levelBits)).toNat = 2 ^ width path levelBits - 1 := by
  have hle : width path levelBits ≤ 63 := sub_le _ _
  unfold span
  split
  · rw [show width path levelBits = 63 by omega]
    rfl
  · exact toNat_ones (by omega)

section

variable {p q : List ℕ} (hp : Fits levelBits p) (hq : Fits levelBits q)

include hp hq

/-- A code lies in the range of a path exactly when the bits of its fields are those of the path. -/
lemma mem_subtreeRange : (subtreeRange p levelBits).1 ≤ encode q levelBits ∧
        encode q levelBits ≤ (subtreeRange p levelBits).2 ↔
      (encodeBits q levelBits).toNat >>> width p levelBits =
        (encodeBits p levelBits).toNat >>> width p levelBits := by
  have hlow : (encodeBits p levelBits).toNat % 2 ^ width p levelBits = 0 := by
    refine zero_of_testBit_eq_false fun b => ?_
    rw [testBit_mod_two_pow]
    by_cases hb : b < width p levelBits
    · rw [BitVec.testBit_toNat, getLsbD_encodeBits_low p hb, Bool.and_false]
    · simp [hb]
  have hpos := Nat.two_pow_pos (width p levelBits)
  obtain ⟨a, ha⟩ := dvd_of_mod_eq_zero hlow
  have hlt := toNat_encodeBits_lt hp
  have hhi : (encodeBits p levelBits ||| span (width p levelBits)).toNat =
      2 ^ width p levelBits * a + (2 ^ width p levelBits - 1) := by
    rw [BitVec.toNat_or, toNat_span, ha, two_pow_add_eq_or_of_lt (sub_lt hpos one_pos)]
  have hfits : 2 ^ width p levelBits * (a + 1) ≤ 2 ^ 63 := by
    obtain ⟨c, hc⟩ : 2 ^ width p levelBits ∣ 2 ^ 63 := pow_dvd_pow _ (sub_le _ _)
    rw [hc, ha, Nat.mul_lt_mul_left hpos] at hlt
    exact hc ▸ mul_le_mul_left _ hlt
  rw [mul_succ] at hfits
  rw [I64.le_iff, I64.le_iff, subtreeRange, encode, ofBits_val hlt,
    ofBits_val (toNat_encodeBits_lt hq), ofBits_val (by omega), hhi, ha, shiftRight_eq_div_pow,
    Nat.shiftRight_eq_div_pow, Nat.mul_div_cancel_left _ hpos, Nat.div_eq_iff hpos, Nat.mul_comm a]
  omega

/-- **A path that does not go beyond another extends it exactly when its code is in the range.** -/
theorem initial_iff_mem_subtreeRange (hbeyond : q <+: p → q = p) :
    p <+: q ↔ (subtreeRange p levelBits).1 ≤ encode q levelBits ∧
      encode q levelBits ≤ (subtreeRange p levelBits).2 := by
  rw [mem_subtreeRange hp hq]
  constructor
  · rintro ⟨r, rfl⟩
    refine eq_of_testBit_eq fun b => ?_
    rw [testBit_shiftRight, testBit_shiftRight, BitVec.testBit_toNat, BitVec.testBit_toNat]
    exact getLsbD_encodeBits_append hq (le_add_right _ _)
  · intro h
    have hagree {k : ℕ} (hkp : k < p.length) (hkq : k < q.length) : q[k] = p[k] := by
      have hle : levelBits * (k + 1) ≤ levelBits * p.length := mul_le_mul_left _ hkp
      have hshift : shift levelBits k = width p levelBits + (levelBits * p.length -
          levelBits * (k + 1)) := by
        have := hp.length
        rw [width, shift]
        omega
      rw [← index_encodeBits q hq hkq, hshift, shiftRight_add, h, ← shiftRight_add, ← hshift,
        index_encodeBits p hp hkp]
    rcases le_total p.length q.length with hle | hle
    · exact prefix_iff_getElem.2 ⟨hle, fun k hk => (hagree hk (hk.trans_le hle)).symm⟩
    · rw [hbeyond (prefix_iff_getElem.2 ⟨hle, fun k hk => hagree (hk.trans_le hle) hk⟩)]

end

lemma indexAt_encode {p : List ℕ} (h : Fits levelBits p) (hbits : levelBits ≤ 32) {k : ℕ}
    (hk : k < p.length) : indexAt (encode p levelBits) k levelBits = p[k] := by
  have hcode : BitVec.ofInt 64 (encode p levelBits).val = encodeBits p levelBits :=
    BitVec.ofInt_toInt
  have hmsb : (encodeBits p levelBits).msb = false :=
    BitVec.msb_eq_false_iff_two_mul_lt.2 (by have := toNat_encodeBits_lt h; omega)
  rw [indexAt, hcode, BitVec.sshiftRight_eq_of_msb_false hmsb, BitVec.toNat_and,
    toNat_ones (by omega), and_two_pow_sub_one_eq_mod, BitVec.toNat_ushiftRight,
    index_encodeBits p h hk]
  exact Nat.mod_eq_of_lt ((h.lt _ (getElem_mem hk)).trans_le (Nat.pow_le_pow_right Nat.two_pos hbits))

end ProtomoltSearch.Placement
