import Mathlib

/-!
# Lists with a key

A map whose values know their key, as the list of its values. Putting a value replaces the one with
its key.
-/

namespace ProtomoltSearch.Keyed

open List

variable {α κ : Type} [DecidableEq κ] (key : α → κ)

def get? (l : List α) (k : κ) : Option α := l.find? fun a => key a = k

def put (l : List α) (a : α) : List α := (l.filter fun b => key b ≠ key a) ++ [a]

variable {key} {l : List α} {a b : α} {k : κ}

lemma mem_put : b ∈ put key l a ↔ b ∈ l ∧ key b ≠ key a ∨ b = a := by
  simp [put]

lemma get?_eq_none : get? key l k = none ↔ ∀ b ∈ l, key b ≠ k := by
  simp [get?]

lemma get?_eq_some (h : (l.map key).Nodup) : get? key l k = some a ↔ a ∈ l ∧ key a = k := by
  constructor
  · intro hget
    exact ⟨mem_of_find?_eq_some hget, by simpa using find?_some hget⟩
  · rintro ⟨hmem, rfl⟩
    cases hget : get? key l (key a) with
    | none => exact absurd rfl (get?_eq_none.1 hget a hmem)
    | some b =>
      have hb : key b = key a := by simpa using find?_some hget
      rw [inj_on_of_nodup_map h (mem_of_find?_eq_some hget) hmem hb]

lemma nodup_put (h : (l.map key).Nodup) : ((put key l a).map key).Nodup := by
  rw [put, map_append, nodup_append]
  refine ⟨h.sublist (filter_sublist.map _), nodup_singleton _, ?_⟩
  rintro _ hb _ _ rfl
  obtain ⟨b, hb, rfl⟩ := mem_map.1 hb
  simp_all

lemma get?_eq_none_of_nodup {rest : List α} (h : ((l ++ a :: rest).map key).Nodup) :
    get? key l (key a) = none := by
  refine get?_eq_none.2 fun b hb heq => ?_
  rw [map_append, nodup_append] at h
  exact h.2.2 _ (mem_map_of_mem hb) _ (by simp) heq

lemma put_of_get?_eq_none (h : get? key l (key a) = none) : put key l a = l ++ [a] := by
  rw [put, filter_eq_self.2 fun b hb => decide_eq_true (get?_eq_none.1 h b hb)]

/-- The value that is replaced, if there is one, makes room for the new one. -/
lemma put_perm (h : (l.map key).Nodup) :
    ((get? key l (key a)).toList ++ put key l a).Perm (a :: l) := by
  refine List.Perm.trans ?_ (perm_append_singleton a l)
  rw [put, ← append_assoc]
  refine List.Perm.append_right [a] ?_
  have hoth : (get? key l (key a)).toList.Perm (l.filter fun b => key b = key a) := by
    refine (perm_ext_iff_of_nodup ?_ (h.of_map.filter _)).2 fun b => ?_
    · cases get? key l (key a) <;> simp
    · simp [get?_eq_some h]
  refine (hoth.append_right _).trans ?_
  simpa using filter_append_perm (fun b => decide (key b = key a)) l

end ProtomoltSearch.Keyed
