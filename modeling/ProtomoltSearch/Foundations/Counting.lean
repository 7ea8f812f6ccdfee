import Mathlib

/-!
# Lists that count

When a list of positive numbers is `1, 2, …, n` up to order: when it is without repetitions and
holds every number below each of its members. Counting on from the greatest member neither helps
nor harms.
-/

namespace ProtomoltSearch.Counting

open List

/-- The greatest member. -/
def greatest (l : List ℕ) : ℕ := l.foldl max 0

lemma le_foldl_max {l : List ℕ} (init : ℕ) :
    init ≤ l.foldl max init ∧ ∀ n ∈ l, n ≤ l.foldl max init := by
  induction l generalizing init with
  | nil => exact ⟨le_rfl, by simp⟩
  | cons a l ih =>
    obtain ⟨hinit, hall⟩ := ih (max init a)
    refine ⟨(le_max_left _ _).trans hinit, fun n hn => ?_⟩
    rcases mem_cons.1 hn with rfl | hn
    exacts [(le_max_right _ _).trans hinit, hall n hn]

lemma foldl_max_mem {l : List ℕ} (init : ℕ) : l.foldl max init = init ∨ l.foldl max init ∈ l := by
  induction l generalizing init with
  | nil => exact .inl rfl
  | cons a l ih =>
    rw [foldl_cons]
    rcases ih (max init a) with h | h
    · rcases max_choice init a with hm | hm
      · exact .inl (h.trans hm)
      · exact .inr (by rw [h, hm]; exact mem_cons_self)
    · exact .inr (mem_cons_of_mem _ h)

variable {l : List ℕ}

lemma le_greatest {n : ℕ} (h : n ∈ l) : n ≤ greatest l := (le_foldl_max 0).2 n h

lemma greatest_mem (h : l ≠ []) : greatest l ∈ l := by
  rcases foldl_max_mem (l := l) 0 with h0 | hmem
  · obtain ⟨a, ha⟩ := exists_mem_of_ne_nil l h
    have hle := le_greatest ha
    have : greatest l = 0 := h0
    rw [this] at hle ⊢
    exact Nat.le_zero.1 hle ▸ ha
  · exact hmem

/-- **Which lists count from one.** -/
theorem perm_range'_iff (hnd : l.Nodup) (hpos : ∀ x ∈ l, 0 < x) :
    l.Perm (List.range' 1 l.length) ↔ ∀ x ∈ l, ∀ c, 0 < c → c < x → c ∈ l := by
  constructor
  · intro h x hx c hc hcx
    rw [h.mem_iff, mem_range'_1] at hx ⊢
    omega
  · intro h
    have hperm : l.Perm (List.range' 1 (greatest l)) := by
      refine (perm_ext_iff_of_nodup hnd nodup_range').2 fun c => ?_
      rw [mem_range'_1]
      constructor
      · intro hc
        have := hpos c hc
        have := le_greatest hc
        omega
      · rintro ⟨hc, _⟩
        have hne : l ≠ [] := by
          rintro rfl
          have : greatest [] = 0 := rfl
          omega
        rcases Nat.lt_or_ge c (greatest l) with hlt | _
        · exact h _ (greatest_mem hne) c hc hlt
        · have : c = greatest l := by omega
          exact this ▸ greatest_mem hne
    have hlen := hperm.length_eq
    rw [length_range'] at hlen
    rwa [hlen]

lemma greatest_of_perm {l' : List ℕ} (h : l.Perm l') : greatest l = greatest l' := by
  rcases eq_or_ne l [] with rfl | hne
  · rw [nil_perm.1 h]
  · have hne' : l' ≠ [] := by
      rintro rfl
      exact hne (perm_nil.1 h)
    exact le_antisymm (le_greatest (h.mem_iff.1 (greatest_mem hne)))
      (le_greatest (h.mem_iff.2 (greatest_mem hne')))

lemma greatest_range' (n : ℕ) : greatest (List.range' 1 n) = n := by
  rcases Nat.eq_zero_or_pos n with rfl | _
  · rfl
  · have hmem : n ∈ List.range' 1 n := mem_range'_1.2 (by omega)
    have hgreat := greatest_mem (ne_nil_of_mem hmem)
    rw [mem_range'_1] at hgreat
    have := le_greatest hmem
    omega

/-- The running maximum of the next numbers of several lists. -/
lemma foldl_max_greatest {α : Type*} (f : α → List ℕ) (xs : List α) :
    (xs.map fun x => greatest (f x) + 1).foldl max 1 = greatest (xs.flatMap f) + 1 := by
  apply le_antisymm
  · rcases foldl_max_mem (l := xs.map fun x => greatest (f x) + 1) 1 with h | h
    · omega
    · obtain ⟨x, hx, heq⟩ := mem_map.1 h
      rw [← heq]
      rcases eq_or_ne (f x) [] with hnil | hne
      · rw [hnil]
        exact Nat.succ_le_succ (Nat.zero_le _)
      · exact Nat.succ_le_succ (le_greatest (mem_flatMap.2 ⟨x, hx, greatest_mem hne⟩))
  · rcases eq_or_ne (xs.flatMap f) [] with hnil | hne
    · rw [hnil]
      exact (le_foldl_max 1).1
    · obtain ⟨x, hx, hmem⟩ := mem_flatMap.1 (greatest_mem hne)
      have := (le_foldl_max (l := xs.map fun x => greatest (f x) + 1) 1).2 _ (mem_map_of_mem hx)
      have := le_greatest hmem
      omega

/-- Counting on from the greatest member. -/
lemma append_perm_range'_iff (m : ℕ) :
    (l ++ List.range' (greatest l + 1) m).Perm (List.range' 1 (l.length + m)) ↔
      l.Perm (List.range' 1 l.length) := by
  have hsplit : List.range' 1 (l.length + m) =
      List.range' 1 l.length ++ List.range' (l.length + 1) m := by
    rw [List.range'_append_1.symm, Nat.add_comm 1]
  constructor
  · intro h
    -- the greatest member of the whole is where the counting ends
    have hgreat : greatest l = l.length := by
      have heq := greatest_of_perm h
      rw [greatest_range'] at heq
      rcases Nat.eq_zero_or_pos m with rfl | _
      · simpa using heq
      · have hmem : greatest l + m ∈ l ++ List.range' (greatest l + 1) m :=
          mem_append_right _ (mem_range'_1.2 (by omega))
        have hle := le_greatest hmem
        have hne := ne_nil_of_mem hmem
        rcases mem_append.1 (greatest_mem hne) with hg | hg
        · have := le_greatest hg
          omega
        · rw [mem_range'_1] at hg
          omega
    rw [hgreat, hsplit] at h
    exact (perm_append_right_iff _).1 h
  · intro h
    have hgreat : greatest l = l.length := by rw [greatest_of_perm h, greatest_range']
    rw [hgreat, hsplit]
    exact h.append_right _

end ProtomoltSearch.Counting
