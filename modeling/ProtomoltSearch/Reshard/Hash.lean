import ProtomoltSearch.Foundations.Numbers

/-!
# The split partition

The bucket of an id is the top bits of its FNV-1a hash (`reshard.rs`). The same function routes
records to the bucket files of a log and rows to the children of a split, so a partition into more
buckets refines one into fewer (`bucketOf_div`).
-/

namespace ProtomoltSearch.Reshard

/-- The eight little-endian bytes of an id. -/
def leBytes (id : U64) : List (BitVec 64) :=
  (List.range 8).map fun i => BitVec.ofNat 64 (id.val / 256 ^ i % 256)

/-- FNV-1a 64 over the bytes of an id. -/
def fnv1a64 (id : U64) : BitVec 64 :=
  (leBytes id).foldl (fun hash byte => (hash ^^^ byte) * 0x100000001b3#64) 0xcbf29ce484222325#64

/-- The bucket of an id among `n` buckets, a power of two: the top `log2 n` bits of its hash. -/
def bucketOf (id : U64) (n : ℕ) : ℕ :=
  if n = 1 then 0 else (fnv1a64 id >>> (64 - n.log2)).toNat

variable {id : U64} {b : ℕ}

lemma bucketOf_two_pow (hb : b ≤ 64) :
    bucketOf id (2 ^ b) = (fnv1a64 id).toNat / 2 ^ (64 - b) := by
  unfold bucketOf
  split
  · rename_i h
    obtain rfl : b = 0 := by
      rcases Nat.eq_zero_or_pos b with h0 | _
      · exact h0
      · have : 2 ^ b ≠ 1 := (Nat.one_lt_two_pow (by omega)).ne'
        exact absurd h this
    exact (Nat.div_eq_of_lt (fnv1a64 id).isLt).symm
  · rw [Nat.log2_two_pow, BitVec.toNat_ushiftRight, Nat.shiftRight_eq_div_pow]

lemma bucketOf_lt (hb : b ≤ 64) : bucketOf id (2 ^ b) < 2 ^ b := by
  rw [bucketOf_two_pow hb, Nat.div_lt_iff_lt_mul (by positivity), ← Nat.pow_add,
    Nat.add_sub_cancel' hb]
  exact (fnv1a64 id).isLt

lemma bucketOf_div {k : ℕ} (hk : k ≤ b) (hb : b ≤ 64) :
    bucketOf id (2 ^ b) / 2 ^ (b - k) = bucketOf id (2 ^ k) := by
  rw [bucketOf_two_pow hb, bucketOf_two_pow (hk.trans hb), Nat.div_div_eq_div_mul, ← Nat.pow_add]
  congr 2
  omega

end ProtomoltSearch.Reshard
