import ProtomoltSearch.Wal.Bucket
import ProtomoltSearch.Wal.Checksum

/-!
# Damaged frames

A frame of a log file has another checksum than it had, or one other byte in its payload. Every
reader of the file refuses it where it starts: no record is read as another.
-/

namespace ProtomoltSearch.Wal

open Function BitVec List

lemma eq_zero_of_bitStep {x : BitVec 32} (h : bitStep x = 0#32) : x = 0#32 := by
  have hx := x.isLt
  unfold bitStep at h
  split at h
  · -- the polynomial has the top bit, and what moved down has not
    have := congrArg BitVec.toNat (BitVec.xor_eq_zero_iff.1 h)
    simp [Nat.shiftRight_eq_div_pow] at this
    omega
  · rename_i hlow
    have hlow := congrArg BitVec.toNat (not_not.1 hlow)
    have := congrArg BitVec.toNat h
    simp [Nat.shiftRight_eq_div_pow] at this hlow
    exact eq_of_toNat_eq (by simp; omega)

lemma bitStep_injective : Injective bitStep := fun a b h =>
  BitVec.xor_eq_zero_iff.1 (eq_zero_of_bitStep (by rw [bitStep_xor, h, BitVec.xor_self]))

lemma foldl_byteStep_injective (data : Bytes) : Injective (data.foldl byteStep) := by
  induction data with
  | nil => exact injective_id
  | cons b data ih =>
    exact fun x y h => (BitVec.xor_left_inj _).1 (bitStep_injective.iterate 8 (ih h))

/-- The checksum tells one byte from another. -/
lemma crc32_ne {p q : UInt8} (h : p ≠ q) (a b : Bytes) :
    crc32 (a ++ q :: b) ≠ crc32 (a ++ p :: b) := by
  intro heq
  rw [crc32, crc32, crcFrom_eq, crcFrom_eq, BitVec.not_inj, foldl_append, foldl_append] at heq
  have hstep := bitStep_injective.iterate 8 (foldl_byteStep_injective b heq)
  have hbyte := congrArg (setWidth 8) ((BitVec.xor_right_inj _).1 hstep)
  simp at hbyte
  exact h (UInt8.toBitVec_inj.1 hbyte).symm

/-- What is found in place of a payload and its checksum: another checksum, or one other byte. -/
def Damaged (payload payload' : Bytes) (crc : BitVec 32) : Prop :=
  payload' = payload ∧ crc ≠ crc32 payload ∨ crc = crc32 payload ∧
    ∃ a p q b, payload = a ++ p :: b ∧ payload' = a ++ q :: b ∧ p ≠ q

lemma readFrame_damaged {payload payload' : Bytes} {crc : BitVec 32}
    (h : Damaged payload payload' crc) (hlen : payload.length < 2 ^ 32) (offset : ℕ)
    (rest : Bytes) : readFrame offset (toLeBytes (BitVec.ofNat 32 payload.length) ++
      (toLeBytes crc ++ (payload' ++ rest))) = .error (.crcMismatch offset) := by
  obtain ⟨hsame, hcrc⟩ : payload'.length = payload.length ∧ crc32 payload' ≠ crc := by
    rcases h with ⟨rfl, hne⟩ | ⟨rfl, a, p, q, b, rfl, rfl, hne⟩
    · exact ⟨rfl, hne.symm⟩
    · exact ⟨by simp, crc32_ne hne a b⟩
  have hnat : (BitVec.ofNat 32 payload.length).toNat = payload'.length :=
    (Nat.mod_eq_of_lt hlen).trans hsame.symm
  unfold readFrame
  rw [if_neg (by simp [toLeBytes]), if_neg (by simp)]
  simp only [take_left' (length_toLeBytes _), drop_left' (length_toLeBytes _),
    fromLeBytes_toLeBytes, hnat]
  rw [if_neg (by simp), if_neg (by simp), take_left, if_pos hcrc]

namespace Generation

variable {F D M : Type} {g : Generation F D M} {rs : List (WalRecord F D M)}
  {check : WalRecord F D M → Option WalError} (hfit : g.Fits rs)
  (hcheck : ∀ r ∈ rs, check r = none)

include hfit hcheck

/-- What is refused behind whole frames, the reader of the file refuses. -/
lemma readRecords_error {rest : Bytes} {e : WalError} {nextSeq offset fuel : ℕ}
    (hseq : SeqFrom nextSeq rs) (hfuel : (rs.flatMap g.frameOf).length < fuel)
    (h : readFrame (offset + (rs.flatMap g.frameOf).length) rest = .error e) :
    g.readRecords check fuel offset nextSeq (rs.flatMap g.frameOf ++ rest) = .error e := by
  induction rs generalizing nextSeq offset fuel with
  | nil =>
    obtain ⟨fuel, rfl⟩ := Nat.exists_eq_add_one.2 hfuel
    simp only [flatMap_nil, length_nil, Nat.add_zero] at h
    simp [readRecords, h]
  | cons r rs ih =>
    obtain ⟨fuel, rfl⟩ := Nat.exists_eq_add_one.2 (Nat.zero_lt_of_lt hfuel)
    obtain ⟨⟨hdecode, hr⟩, hfit⟩ := forall_mem_cons.1 hfit
    obtain ⟨hr', hcheck⟩ := forall_mem_cons.1 hcheck
    have hread := readFrame_writeFrame hr offset (rs.flatMap g.frameOf ++ rest)
    rw [flatMap_cons, length_append, length_frameOf] at h hfuel
    rw [flatMap_cons, List.append_assoc, readRecords, frameOf, hread]
    dsimp only
    rw [hdecode]
    dsimp only
    rw [if_neg (by simpa using hseq.1), hr']
    dsimp only
    rw [ih hfit hcheck hseq.2 (by omega) (by rw [← h]; congr 1; omega)]

/-- **A damaged record is refused where it starts**, whatever stands before it and behind it. -/
theorem readFile_damaged {payload payload' : Bytes} {crc : BitVec 32}
    (h : Damaged payload payload' crc) (hlen : payload.length < 2 ^ 32) (hseq : SeqFrom 1 rs)
    (rest : Bytes) : g.readFile check (rs.flatMap g.frameOf ++
      (toLeBytes (BitVec.ofNat 32 payload.length) ++ (toLeBytes crc ++ (payload' ++ rest)))) =
        .error (.crcMismatch (rs.flatMap g.frameOf).length) := by
  refine readRecords_error hfit hcheck hseq (by rw [length_append]; omega) ?_
  rw [Nat.zero_add]
  exact readFrame_damaged h hlen _ rest

omit hfit hcheck in
/-- Behind one add, a payload of a byte that was another. -/
theorem readFile_damaged_sample :
    let rs := numbered 1 [(1, (.addVectors (idOf 3) [] [] : Op Unit Unit Unit))]
    Damaged [7] [8] (crc32 [7]) ∧ twoBuckets.readFile (fun _ => none)
      (rs.flatMap twoBuckets.frameOf ++ (toLeBytes 1 ++ (toLeBytes (crc32 [7]) ++ [8]))) =
        .error (.crcMismatch 12) := by
  intro rs
  have h : Damaged [7] [8] (crc32 [7]) := .inr ⟨rfl, [], 7, 8, [], rfl, rfl, by decide⟩
  have hfit : twoBuckets.Fits rs := by unfold Fits; decide +kernel
  exact ⟨h, readFile_damaged hfit (fun _ _ => rfl) h (by decide) ⟨rfl, trivial⟩ []⟩

end Generation

end ProtomoltSearch.Wal
