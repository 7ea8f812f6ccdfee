import ProtomoltSearch.Foundations.Refusals
import ProtomoltSearch.Wal.Generation

/-!
# Reading a cut file

A file that was written frame by frame and then cut after any number of bytes reads back as the
records whose frames are whole. From this one fact come the recovery summary of the file and what
the cut at the applied tip leaves of it.
-/

namespace ProtomoltSearch.Wal.Generation

open Framing TopK List

variable {F D M : Type} {g : Generation F D M}

/-- Sequence numbers that count on from `s`. -/
def SeqFrom : ℕ → List (WalRecord F D M) → Prop
  | _, [] => True
  | s, r :: rs => r.seq = s ∧ SeqFrom (s + 1) rs

/-- Records that the wire encoding carries: they decode back, and their length fits a frame. -/
def Fits (g : Generation F D M) (rs : List (WalRecord F D M)) : Prop :=
  ∀ r ∈ rs, g.codec.decode (g.codec.encode r) = some r ∧ (g.codec.encode r).length < 2 ^ 32

variable {rs : List (WalRecord F D M)}

lemma SeqFrom.append {s : ℕ} {r : WalRecord F D M} (h : SeqFrom s rs) (hr : r.seq = s + rs.length) :
    SeqFrom s (rs ++ [r]) := by
  induction rs generalizing s with
  | nil => exact ⟨hr, trivial⟩
  | cons a rs ih =>
    refine ⟨h.1, ih h.2 ?_⟩
    rw [hr, length_cons]
    omega

lemma SeqFrom.of_initial {s : ℕ} {rs' : List (WalRecord F D M)} (h : SeqFrom s rs)
    (hp : rs' <+: rs) : SeqFrom s rs' := by
  induction rs' generalizing s rs with
  | nil => trivial
  | cons a rs' ih =>
    obtain ⟨t, rfl⟩ := hp
    exact ⟨h.1, ih h.2 ⟨t, rfl⟩⟩

lemma SeqFrom.getLast? {s : ℕ} (h : SeqFrom (s + 1) rs) :
    (rs.getLast?.map WalRecord.seq).getD s = s + rs.length := by
  induction rs generalizing s with
  | nil => rfl
  | cons a rs ih =>
    have htail := ih h.2
    rw [length_cons, ← Nat.add_assoc, Nat.add_right_comm, ← htail]
    cases hl : rs.getLast? with
    | none =>
      rw [getLast?_eq_none_iff.1 hl]
      exact h.1
    | some b =>
      rw [getLast?_cons, hl]
      rfl

lemma length_frameOf (r : WalRecord F D M) :
    (g.frameOf r).length = 8 + (g.codec.encode r).length := length_writeFrame _

section

variable {check : WalRecord F D M → Option WalError} (hfit : g.Fits rs)
  (hcheck : ∀ r ∈ rs, check r = none)

include hfit hcheck

/-- **Reading a cut file** gives its whole frames. -/
theorem readRecords_take {nextSeq : ℕ} (hseq : SeqFrom nextSeq rs) (n : ℕ) :
    ∀ {fuel : ℕ} (_ : ((rs.flatMap g.frameOf).take n).length < fuel) (offset : ℕ),
      g.readRecords check fuel offset nextSeq ((rs.flatMap g.frameOf).take n) =
        .ok (positions g.frameOf offset (wholes g.frameOf n rs),
          offset + ((wholes g.frameOf n rs).flatMap g.frameOf).length) := by
  induction rs generalizing nextSeq n with
  | nil =>
    intro fuel hfuel offset
    obtain ⟨fuel, rfl⟩ : ∃ k, fuel = k + 1 := ⟨fuel - 1, by omega⟩
    simp [readRecords, readFrame_nil, wholes, positions]
  | cons r rs ih =>
    intro fuel hfuel offset
    obtain ⟨fuel, rfl⟩ : ∃ k, fuel = k + 1 := ⟨fuel - 1, by omega⟩
    obtain ⟨hdecode, hr⟩ := hfit r mem_cons_self
    have hlen : (g.frameOf r).length = 8 + (g.codec.encode r).length := length_frameOf r
    unfold readRecords wholes
    split_ifs with hle
    · -- the frame is whole: the rest of the file is read after it
      have hbytes : ((r :: rs).flatMap g.frameOf).take n =
          g.frameOf r ++ (rs.flatMap g.frameOf).take (n - (g.frameOf r).length) := by
        rw [flatMap_cons, take_append, take_of_length_le hle]
      rw [hbytes, length_append] at hfuel
      have hread : ∀ rest, readFrame offset (g.frameOf r ++ rest) =
          .ok (.frame (g.codec.encode r) rest) := readFrame_writeFrame hr offset
      rw [hbytes, hread]
      dsimp only
      rw [hdecode]
      dsimp only
      rw [if_neg (by simpa using hseq.1), hcheck r mem_cons_self]
      rw [show offset + 8 + (g.codec.encode r).length = offset + (g.frameOf r).length by omega,
        ih (fun r hr => hfit r (mem_cons_of_mem _ hr))
          (fun r hr => hcheck r (mem_cons_of_mem _ hr)) hseq.2 _ (by omega)]
      rw [positions, flatMap_cons, length_append, Nat.add_assoc]
    · -- the frame is cut: the file ends before it
      have hbytes : ((r :: rs).flatMap g.frameOf).take n = (g.frameOf r).take n := by
        rw [flatMap_cons, take_append_of_le_length (by omega)]
      rw [hbytes]
      have hcut := take_prefix n (writeFrame (g.codec.encode r))
      have htorn := readFrame_of_torn hr offset hcut
        (by rw [length_take]; change min n (g.frameOf r).length < (g.frameOf r).length; omega)
      rcases htorn with h | h <;> rw [frameOf, h] <;> rfl

lemma readFile_take (hseq : SeqFrom 1 rs) (n : ℕ) :
    g.readFile check ((rs.flatMap g.frameOf).take n) =
      .ok (positions g.frameOf 0 (wholes g.frameOf n rs),
        ((wholes g.frameOf n rs).flatMap g.frameOf).length) := by
  unfold readFile
  rw [readRecords_take hfit hcheck hseq n (Nat.lt_succ_self _), Nat.zero_add]

end

/-- The recovery summary of a cut file. -/
lemma scanRecords_take (hfit : g.Fits rs) (hseq : SeqFrom 1 rs) (n : ℕ) :
    g.scanRecords ((rs.flatMap g.frameOf).take n) =
      .ok ⟨(wholes g.frameOf n rs).length, ((wholes g.frameOf n rs).flatMap g.frameOf).length,
        Counting.greatest ((wholes g.frameOf n rs).map WalRecord.clock)⟩ := by
  have hlast : ((positions g.frameOf 0 (wholes g.frameOf n rs)).getLast?.map
      fun e => e.2.seq).getD 0 = (wholes g.frameOf n rs).length := by
    have hsw : SeqFrom (0 + 1) (wholes g.frameOf n rs) := hseq.of_initial (wholes_initial n rs)
    have hmap : (positions g.frameOf 0 (wholes g.frameOf n rs)).getLast?.map Prod.snd =
        (wholes g.frameOf n rs).getLast? := by
      rw [← getLast?_map, positions_map_snd]
    have := hsw.getLast?
    rw [← hmap, Option.map_map, Nat.zero_add] at this
    exact this
  have hclock : (positions g.frameOf 0 (wholes g.frameOf n rs)).map (fun e => e.2.clock) =
      (wholes g.frameOf n rs).map WalRecord.clock := by
    have hsnd : (positions g.frameOf 0 (wholes g.frameOf n rs)).map Prod.snd =
        wholes g.frameOf n rs := positions_map_snd 0 _
    nth_rewrite 2 [← hsnd]
    rw [map_map]
    rfl
  unfold scanRecords
  rw [readFile_take hfit (fun _ _ => rfl) hseq]
  simp only [ok_bind, hlast, hclock]
  rfl

lemma wholes_zero (rs : List (WalRecord F D M)) : wholes g.frameOf 0 rs = [] := by
  cases rs with
  | nil => rfl
  | cons r rs =>
    rw [wholes, if_neg]
    rw [length_frameOf]
    omega

lemma wholes_append (kept rest : List (WalRecord F D M)) :
    wholes g.frameOf (kept.flatMap g.frameOf).length (kept ++ rest) = kept := by
  induction kept with
  | nil => exact wholes_zero rest
  | cons r kept ih =>
    rw [cons_append, wholes, flatMap_cons, length_append, if_pos (by omega),
      Nat.add_sub_cancel_left, ih]

/-- **The cut at the applied tip**, on a file that is cut already. -/
theorem truncateFile_take (hfit : g.Fits rs) (hseq : SeqFrom 1 rs) (cutoff : U64) (n : ℕ) :
    ∃ m, g.truncateFile cutoff ((rs.flatMap g.frameOf).take n) =
        .ok ((rs.flatMap g.frameOf).take m) ∧
      wholes g.frameOf m rs = (wholes g.frameOf n rs).takeWhile fun r => !cuts cutoff r := by
  set w := wholes g.frameOf n rs with hw
  have hfind : ((positions g.frameOf 0 w).find? fun e => cuts cutoff e.2).map Prod.fst =
      if w.all (fun r => !cuts cutoff r) then none
      else some (0 + ((w.takeWhile fun r => !cuts cutoff r).flatMap g.frameOf).length) := by
    rw [← find_positions]
    simp only [Bool.not_not]
  unfold truncateFile
  rw [readFile_take hfit (fun _ _ => rfl) hseq]
  simp only [ok_bind]
  split at hfind
  · -- no record is cut
    rename_i hall
    rw [Option.map_eq_none_iff] at hfind
    refine ⟨n, by rw [hfind]; rfl, ?_⟩
    rw [takeWhile_eq_self_iff.2 (all_eq_true.1 hall)]
  · obtain ⟨e, he, heq⟩ := Option.map_eq_some_iff.1 hfind
    have hkept := takeWhile_prefix (l := w) fun r => !cuts cutoff r
    obtain ⟨rest, hrest⟩ := hkept.trans (hw ▸ wholes_initial n rs)
    refine ⟨((w.takeWhile fun r => !cuts cutoff r).flatMap g.frameOf).length, ?_, ?_⟩
    · rw [he]
      refine congrArg Except.ok ?_
      dsimp only
      rw [heq, Nat.zero_add, take_take, min_eq_left]
      have hwl : (w.flatMap g.frameOf).length ≤ n := wholes_length_le n rs
      obtain ⟨t, ht⟩ := takeWhile_prefix (fun r => !cuts cutoff r) (l := w)
      rw [← ht, flatMap_append, length_append] at hwl
      omega
    · rw [← hrest]
      exact wholes_append _ _

end ProtomoltSearch.Wal.Generation
