import ProtomoltSearch.Wal.Frame

/-!
# The checksum bit by bit

A bit of the reflected CRC-32 is linear in exclusive or, and eight of them only move the bytes above
the low one. So a table holds the steps of a byte, and the lookups are those of a word.
-/

namespace ProtomoltSearch.Wal

open List Function BitVec

/-- One bit of the reflected CRC-32. -/
def bitStep (c : BitVec 32) : BitVec 32 :=
  if c &&& 1#32 ≠ 0#32 then 0xEDB88320#32 ^^^ (c >>> 1) else c >>> 1

def byteStep (c : BitVec 32) (b : UInt8) : BitVec 32 := bitStep^[8] (c ^^^ b.toBitVec.setWidth 32)

/-- The reflected CRC-32, one bit at a time. -/
def crc32Bitwise (data : Bytes) : BitVec 32 := ~~~ data.foldl byteStep (~~~ 0#32)

lemma bitStep_eq (c : BitVec 32) :
    bitStep c = (if c.getLsbD 0 then 0xEDB88320#32 else 0#32) ^^^ (c >>> 1) := by
  rw [bitStep, and_one_eq_setWidth_ofBool_getLsbD]
  cases c.getLsbD 0
  · exact zero_xor.symm
  · rfl

lemma bitStep_xor (a b : BitVec 32) : bitStep (a ^^^ b) = bitStep a ^^^ bitStep b := by
  have hpoly : (if (a ^^^ b).getLsbD 0 then 0xEDB88320#32 else 0#32) =
      (if a.getLsbD 0 then 0xEDB88320#32 else 0#32) ^^^
        (if b.getLsbD 0 then 0xEDB88320#32 else 0#32) := by
    rw [getLsbD_xor]
    cases a.getLsbD 0 <;> cases b.getLsbD 0 <;> rfl
  rw [bitStep_eq, bitStep_eq, bitStep_eq, hpoly, ushiftRight_xor_distrib]
  ac_rfl

lemma iterate_xor (n : ℕ) (a b : BitVec 32) :
    bitStep^[n] (a ^^^ b) = bitStep^[n] a ^^^ bitStep^[n] b := by
  induction n generalizing a b with
  | zero => rfl
  | succ n ih => exact (congrArg _ (bitStep_xor a b)).trans (ih _ _)

/-- What has only moved up moves down again. -/
lemma iterate_shiftLeft {n : ℕ} (hn : n ≤ 8) {z : BitVec 32} (hz : z.toNat < 2 ^ 24) :
    bitStep^[n] (z <<< n) = z := by
  induction n with
  | zero => exact shiftLeft_zero z
  | succ n ih =>
    have hstep : bitStep (z <<< (n + 1)) = z <<< n := by
      rw [bitStep_eq, if_neg (by simp), zero_xor]
      apply eq_of_toNat_eq
      simp only [toNat_ushiftRight, toNat_shiftLeft, Nat.shiftLeft_eq, Nat.shiftRight_eq_div_pow]
      have hn : n < 8 := hn
      interval_cases n <;> omega
    rw [iterate_succ_apply, hstep, ih (by omega)]

/-- Eight steps of a word: those of its low byte, and the rest moved down. -/
lemma iterate_eight (x : BitVec 32) :
    bitStep^[8] x = bitStep^[8] ((lowByte x).setWidth 32) ^^^ (x >>> 8) := by
  have hsplit : x = (lowByte x).setWidth 32 ^^^ ((x >>> 8) <<< 8) := by
    apply eq_of_getLsbD_eq
    intro i hi
    by_cases h : i < 8
    · simp [lowByte, h, hi]
    · simp [lowByte, h, hi, Nat.add_sub_cancel' (not_lt.1 h)]
  have hhigh : (x >>> 8).toNat < 2 ^ 24 := by
    have := x.isLt
    rw [toNat_ushiftRight, Nat.shiftRight_eq_div_pow]
    omega
  nth_rewrite 1 [hsplit]
  rw [iterate_xor, iterate_shiftLeft le_rfl hhigh]

lemma sliceTable_eq (k : ℕ) (i : BitVec 8) :
    sliceTable k i = bitStep^[8 * k + 8] (i.setWidth 32) := by
  induction k with
  | zero => rfl
  | succ k ih =>
    change bitStep^[8] _ ^^^ _ = _
    rw [← iterate_eight, ih, ← iterate_add_apply, Nat.mul_succ, Nat.add_comm 8]

/-- The lookups of the four bytes of a word. -/
lemma lookups_eq (k : ℕ) (x : BitVec 32) :
    sliceTable (k + 3) (lowByte x) ^^^ sliceTable (k + 2) (lowByte (x >>> 8)) ^^^
      sliceTable (k + 1) (lowByte (x >>> 16)) ^^^ sliceTable k (lowByte (x >>> 24)) =
      bitStep^[8 * k + 32] x := by
  have hpeel (n : ℕ) (y : BitVec 32) : bitStep^[n + 8] y =
      bitStep^[n + 8] ((lowByte y).setWidth 32) ^^^ bitStep^[n] (y >>> 8) := by
    rw [iterate_add_apply, iterate_eight, iterate_xor, ← iterate_add_apply]
  have hlast : (lowByte (x >>> 24)).setWidth 32 = x >>> 24 := by
    apply eq_of_toNat_eq
    have := x.isLt
    simp [lowByte, Nat.shiftRight_eq_div_pow]
    omega
  rw [sliceTable_eq, sliceTable_eq, sliceTable_eq, sliceTable_eq, hlast, hpeel (8 * k + 24) x,
    hpeel (8 * k + 16), hpeel (8 * k + 8), ← shiftRight_add, ← shiftRight_add, xor_assoc, xor_assoc]
  rfl

lemma iterate_word (a b c d : UInt8) (x : BitVec 32) :
    bitStep^[8] (word a b c d ^^^ x) = word b c d 0 ^^^ byteStep x a := by
  have hlow : lowByte (word a b c d) = a.toBitVec := by
    apply eq_of_toNat_eq
    simp [lowByte, word]
    have := a.toNat_lt
    omega
  have hrest : word a b c d >>> 8 = word b c d 0 := by
    apply eq_of_toNat_eq
    have ha := a.toNat_lt
    have hb := b.toNat_lt
    have hc := c.toNat_lt
    have hd := d.toNat_lt
    simp [word, Nat.shiftRight_eq_div_pow]
    omega
  rw [byteStep, iterate_xor, iterate_eight (word a b c d), hlow, hrest, iterate_xor]
  ac_rfl

lemma iterate_words (a b c d : UInt8) (x : BitVec 32) :
    bitStep^[32] (word a b c d ^^^ x) = [a, b, c, d].foldl byteStep x := by
  change bitStep^[8 + 8 + 8 + 8] _ = _
  rw [iterate_add_apply, iterate_word, iterate_add_apply, iterate_word, iterate_add_apply,
    iterate_word, iterate_word]
  exact zero_xor

lemma crcFrom_eq (c : BitVec 32) (data : Bytes) : crcFrom c data = data.foldl byteStep c := by
  fun_induction crcFrom c data with
  | case1 c b₀ b₁ b₂ b₃ b₄ b₅ b₆ b₇ rest lo hi ih =>
    have hlookups := congrArg₂ (· ^^^ ·) (lookups_eq 4 lo) (lookups_eq 0 hi)
    have hwords : bitStep^[32 + 32] lo ^^^ bitStep^[32] hi =
        [b₄, b₅, b₆, b₇].foldl byteStep ([b₀, b₁, b₂, b₃].foldl byteStep c) := by
      rw [iterate_add_apply, ← iterate_xor, BitVec.xor_comm, iterate_words, iterate_words]
    rw [ih]
    exact congrArg (rest.foldl byteStep) (Eq.trans (by ac_rfl) (hlookups.trans hwords))
  | case2 c b rest _ ih =>
    have hbyte : b.toBitVec.setWidth 32 >>> 8 = 0#32 := by
      apply eq_of_toNat_eq
      have := b.toNat_lt
      simp [Nat.shiftRight_eq_div_pow]
      omega
    have hshift : (c ^^^ b.toBitVec.setWidth 32) >>> 8 = c >>> 8 := by
      rw [ushiftRight_xor_distrib, hbyte, xor_zero]
    rw [ih, ← hshift]
    exact congrArg (rest.foldl byteStep) (iterate_eight _).symm
  | case3 c => rfl

/-- **The slice-by-8 checksum is the bit-by-bit one.** -/
theorem crc32_eq_crc32Bitwise (data : Bytes) : crc32 data = crc32Bitwise data := by
  rw [crc32, crcFrom_eq]
  rfl

end ProtomoltSearch.Wal
