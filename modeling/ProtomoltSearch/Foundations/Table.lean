import Mathlib

/-!
# Tables

A keyed table of a database with its row count. Mathlib's association lists have the lookups and
updates; what a row count needs is added here.
-/

namespace ProtomoltSearch

open List AList

/-- Rows by key, one row a key. -/
abbrev Table (K V : Type) := AList fun _ : K => V

namespace Table

variable {K V : Type}

/-- The number of rows. -/
def len (t : Table K V) : ℕ := t.entries.length

def rows (t : Table K V) : List (K × V) := t.entries.map fun e => (e.1, e.2)

lemma len_keys {t : Table K V} : t.len = t.keys.length := (List.length_map _).symm

variable [DecidableEq K] {t : Table K V} {k : K} {v : V}

lemma len_insert_new (h : t.lookup k = none) : len (t.insert k v) = t.len + 1 := by
  rw [len, entries_insert_of_notMem (lookup_eq_none.1 h)]
  rfl

lemma lookup_insert_eq {k' : K} : (t.insert k v).lookup k' =
    if k' = k then some v else t.lookup k' := by
  by_cases h : k' = k
  · subst h
    rw [if_pos rfl, lookup_insert]
  · rw [if_neg h, lookup_insert_ne h]

lemma lookup_insert_of_free {k' : K} {w : V} (hfree : t.lookup k = none) (h : t.lookup k' = some w) :
    (t.insert k v).lookup k' = some w := by
  have hne : k' ≠ k := by
    rintro rfl
    exact nomatch hfree.symm.trans h
  rw [lookup_insert_ne hne, h]

lemma mem_rows : (k, v) ∈ t.rows ↔ t.lookup k = some v := by
  rw [← Option.mem_def, mem_lookup_iff, rows, mem_map]
  constructor
  · rintro ⟨e, he, heq⟩
    obtain ⟨rfl, rfl⟩ := Prod.mk.inj heq
    exact he
  · exact fun h => ⟨⟨k, v⟩, h, rfl⟩

section

variable {J W : Type} [DecidableEq J] {u : Table J W} {f : K → J} {j : J}

/-- The rows whose key has a part in one place. -/
def fiber (t : Table K V) (f : K → J) (j : J) : ℕ := (t.keys.filter fun k => f k = j).length

omit [DecidableEq K] in
/-- The rows of a place are as many as the keys that are listed for it. -/
lemma fiber_eq {l : List K} (hl : l.Nodup) (hmem : ∀ k, k ∈ l ↔ k ∈ t ∧ f k = j) :
    t.fiber f j = l.length := by
  refine ((perm_ext_iff_of_nodup (t.keys_nodup.filter _) hl).2 fun k => ?_).length_eq
  rw [hmem k, mem_filter, decide_eq_true_iff]
  exact Iff.rfl

/-- A table whose rows all belong to a row of another has as many rows as these have together. -/
lemma len_eq_sum_fiber (hcover : ∀ k, k ∈ t → f k ∈ u) :
    t.len = (u.rows.map fun row => t.fiber f row.1).sum := by
  have hsum :=
    Finset.card_eq_sum_card_fiberwise fun k hk => mem_toFinset.2 (hcover k (mem_toFinset.1 hk))
  have hfiber : ∀ j, (t.keys.toFinset.filter (f · = j)).card = t.fiber f j := by
    intro j
    have heq : t.keys.toFinset.filter (f · = j) = (t.keys.filter fun k => f k = j).toFinset := by
      ext k
      simp
    rw [heq, toFinset_card_of_nodup (t.keys_nodup.filter _)]
    rfl
  rw [len_keys, ← toFinset_card_of_nodup t.keys_nodup, hsum, sum_toFinset _ u.keys_nodup]
  simp only [hfiber]
  simp only [rows, AList.keys, List.keys, map_map]
  rfl

end

/-! ## Indexes of a log

Lookups can be an index of a list that grows at its end: by a key each item has for itself
(`Indexes`), or with the last item of each key (`IndexesLast`). -/

variable {α : Type} (f : α → K) (g : α → V)

/-- The first item of each key is found. -/
def Indexes (look : K → Option V) (log : List α) : Prop :=
  ∀ k, look k = (log.find? fun a => f a = k).map g

/-- The last item of each key is found. -/
def IndexesLast (look : K → Option V) (log : List α) : Prop :=
  ∀ k, look k = (log.filter fun a => f a = k).getLast?.map g

variable {f g} {log : List α} {a : α} {look look' : K → Option V}

/-- An item with a key of its own is one more row. -/
lemma Indexes.snoc (h : Indexes f g look log) (hnew : ∀ b ∈ log, f b ≠ f a)
    (hself : look' (f a) = some (g a)) (hother : ∀ k, k ≠ f a → look' k = look k) :
    Indexes f g look' (log ++ [a]) := by
  intro k
  rw [find?_append]
  by_cases hk : k = f a
  · subst hk
    have hnone : (log.find? fun b => f b = f a) = none := by
      rw [find?_eq_none]
      intro b hb
      simpa using hnew b hb
    simp [hnone, hself]
  · have hne : f a ≠ k := Ne.symm hk
    rw [hother k hk, h k]
    cases log.find? fun b => f b = k <;> simp [hne]

lemma Indexes.insert (h : Indexes f g (t.lookup ·) log) (hnew : ∀ b ∈ log, f b ≠ f a) :
    Indexes f g ((t.insert (f a) (g a)).lookup ·) (log ++ [a]) :=
  h.snoc hnew (lookup_insert _) fun _ hk => lookup_insert_ne hk

/-- An item is the last of its key. -/
lemma IndexesLast.insert (h : IndexesLast f g (t.lookup ·) log) :
    IndexesLast f g ((t.insert (f a) (g a)).lookup ·) (log ++ [a]) := by
  intro k
  change (t.insert (f a) (g a)).lookup k = _
  by_cases hk : k = f a
  · subst hk
    simp
  · have hne : f a ≠ k := Ne.symm hk
    rw [lookup_insert_ne hk]
    simpa [hne] using h k

lemma Indexes.eq_some_of_mem (h : Indexes f g look log) (ha : a ∈ log)
    (huniq : ∀ b ∈ log, f b = f a → b = a) : look (f a) = some (g a) := by
  rw [h (f a)]
  cases hfind : log.find? fun b => f b = f a with
  | none => exact absurd (decide_eq_true rfl) (find?_eq_none.1 hfind a ha)
  | some b =>
    have hb : f b = f a := by simpa using find?_some hfind
    rw [huniq b (mem_of_find?_eq_some hfind) hb]
    rfl

lemma Indexes.exists_of_eq_some {k : K} {v : V} (h : Indexes f g look log) (hv : look k = some v) :
    ∃ a ∈ log, f a = k ∧ g a = v := by
  rw [h k] at hv
  obtain ⟨a, hfind, hg⟩ := Option.map_eq_some_iff.1 hv
  exact ⟨a, mem_of_find?_eq_some hfind, by simpa using find?_some hfind, hg⟩

lemma Indexes.eq_none {k : K} (h : Indexes f g look log) :
    look k = none ↔ ∀ a ∈ log, f a ≠ k := by
  rw [h k]
  simp

end Table

end ProtomoltSearch
