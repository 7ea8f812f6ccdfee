import Mathlib

/-!
# Followers

A follower starts from a base and holds, beyond it, a first part of the rows that are due (`Follows`).
How far it came is told by the number of its rows alone: whoever knows that number can add the row that
is due next (`Follows.push`), and as many rows as were due so far are exactly those
(`Follows.eq_of_length`).
-/

namespace ProtomoltSearch

variable {α : Type*} {base due due' rows seen : List α} {x : α}

/-- The rows are the base and a first part of what is due. -/
def Follows (base due rows : List α) : Prop := ∃ held, held <+: due ∧ rows = base ++ held

lemma Follows.start : Follows base due base := ⟨[], List.nil_prefix, (List.append_nil base).symm⟩

section

variable (h : Follows base due rows)

include h

lemma Follows.grow (hdue : due <+: due') : Follows base due' rows := by
  obtain ⟨held, hheld, hrows⟩ := h
  exact ⟨held, hheld.trans hdue, hrows⟩

/-- A follower that loses rows, but none of its base. -/
lemma Follows.take {n : ℕ} (hn : base.length ≤ n) : Follows base due (rows.take n) := by
  obtain ⟨held, hheld, rfl⟩ := h
  refine ⟨held.take (n - base.length), (List.take_prefix _ _).trans hheld, ?_⟩
  rw [List.take_append, List.take_of_length_le hn]

/-- **The number of rows tells which they are.** -/
theorem Follows.eq_of_length (hseen : seen <+: due)
    (hlen : rows.length = base.length + seen.length) : rows = base ++ seen := by
  obtain ⟨held, hheld, rfl⟩ := h
  rw [List.length_append, Nat.add_left_cancel_iff] at hlen
  have hpre : held <+: seen := List.prefix_of_prefix_length_le hheld hseen (Nat.le_of_eq hlen)
  rw [hpre.eq_of_length hlen]

/-- A follower with as many rows as were due before a row is given that row. -/
lemma Follows.push (hnext : seen ++ [x] <+: due)
    (hlen : rows.length = base.length + seen.length) : Follows base due (rows ++ [x]) := by
  have hseen : seen <+: due := (List.prefix_append seen [x]).trans hnext
  rw [h.eq_of_length hseen hlen, List.append_assoc]
  exact ⟨seen ++ [x], hnext, rfl⟩

end

end ProtomoltSearch
