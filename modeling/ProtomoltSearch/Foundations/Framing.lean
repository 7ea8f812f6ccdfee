import Mathlib

/-!
# Cutting a sequence of frames

A file is the concatenation of its items' encodings. Cut after `n` bytes, it holds whole the items
whose encodings end by then, `wholes`; what follows them is a part of the next encoding.
-/

namespace ProtomoltSearch.Framing

open List

variable {α B : Type*} (enc : α → List B)

/-- The items whose encodings lie within the first `n` bytes. -/
def wholes : ℕ → List α → List α
  | _, [] => []
  | n, a :: l => if (enc a).length ≤ n then a :: wholes (n - (enc a).length) l else []

/-- The items with the offsets at which their encodings start. -/
def positions : ℕ → List α → List (ℕ × α)
  | _, [] => []
  | offset, a :: l => (offset, a) :: positions (offset + (enc a).length) l

variable {enc}

lemma wholes_initial (n : ℕ) (l : List α) : wholes enc n l <+: l := by
  induction l generalizing n with
  | nil => exact prefix_rfl
  | cons a l ih =>
    unfold wholes
    split
    · exact (prefix_cons_inj a).2 (ih _)
    · exact nil_prefix

lemma wholes_mono {m n : ℕ} (h : m ≤ n) (l : List α) : wholes enc m l <+: wholes enc n l := by
  induction l generalizing m n with
  | nil => exact prefix_rfl
  | cons a l ih =>
    unfold wholes
    split
    · rw [if_pos (by omega)]
      exact (prefix_cons_inj a).2 (ih (by omega))
    · exact nil_prefix

lemma wholes_of_length_le {n : ℕ} {l : List α} (h : (l.flatMap enc).length ≤ n) :
    wholes enc n l = l := by
  induction l generalizing n with
  | nil => rfl
  | cons a l ih =>
    rw [flatMap_cons, length_append] at h
    rw [wholes, if_pos (by omega), ih (by omega)]

@[simp] lemma positions_map_snd (offset : ℕ) (l : List α) :
    (positions enc offset l).map Prod.snd = l := by
  induction l generalizing offset with
  | nil => rfl
  | cons a l ih => rw [positions, map_cons, ih]

/-- Whole items take no more than the bytes there are. -/
lemma wholes_length_le (n : ℕ) (l : List α) : ((wholes enc n l).flatMap enc).length ≤ n := by
  induction l generalizing n with
  | nil => exact Nat.zero_le n
  | cons a l ih =>
    unfold wholes
    split
    · rw [flatMap_cons, length_append]
      have := ih (n - (enc a).length)
      omega
    · exact Nat.zero_le n

/-- The first item that fails a test starts where the items before it end. -/
lemma find_positions (p : α → Bool) (offset : ℕ) (l : List α) :
    ((positions enc offset l).find? fun e => !p e.2).map Prod.fst =
      if l.all p then none else some (offset + ((l.takeWhile p).flatMap enc).length) := by
  induction l generalizing offset with
  | nil => rfl
  | cons a l ih =>
    rw [positions, all_cons]
    cases hp : p a with
    | true =>
      rw [find?_cons_of_neg (by simp [hp]), ih, takeWhile_cons_of_pos hp,
        flatMap_cons, length_append, Bool.true_and, Nat.add_assoc]
    | false =>
      rw [find?_cons_of_pos (by simp [hp]), takeWhile_cons_of_neg (by simp [hp])]
      simp

end ProtomoltSearch.Framing
