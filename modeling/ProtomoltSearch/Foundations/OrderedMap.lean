import Mathlib

/-!
# Ordered maps

A map whose iteration order is the order of its keys, held as the list of its entries. Two maps with
the same entries are equal, so what a map holds may be stated up to the order of insertion.
-/

namespace ProtomoltSearch

open List

/-- A map with its entries in key order. -/
structure OrderedMap (K V : Type*) [LinearOrder K] where
  entries : List (K × V)
  sorted : entries.Pairwise fun a b => a.1 < b.1

namespace OrderedMap

variable {K V : Type*} [LinearOrder K]

instance [DecidableEq V] : DecidableEq (OrderedMap K V) := fun a b =>
  decidable_of_iff (a.entries = b.entries) ⟨fun h => by cases a; cases b; simp_all, fun h => h ▸ rfl⟩

def empty : OrderedMap K V := ⟨[], List.Pairwise.nil⟩

variable (m : OrderedMap K V)

def keys : List K := m.entries.map Prod.fst

def get? (k : K) : Option V :=
  (m.entries.find? fun e => e.1 = k).map Prod.snd

/-- Keep the entries whose key passes a test. -/
def filter (p : K → Bool) : OrderedMap K V :=
  ⟨m.entries.filter fun e => p e.1, m.sorted.filter _⟩

def erase (k : K) : OrderedMap K V := m.filter fun k' => decide (k' ≠ k)

/-- Set the value of a key. -/
def insert (k : K) (v : V) : OrderedMap K V :=
  ⟨(m.entries.filter fun e => e.1 < k) ++ (k, v) :: m.entries.filter fun e => k < e.1, by
    have hmem : ∀ {p : K × V → Bool} {e}, e ∈ m.entries.filter p → p e = true := fun h =>
      (mem_filter.1 h).2
    rw [pairwise_append, pairwise_cons]
    refine ⟨m.sorted.filter _, ⟨fun e he => of_decide_eq_true (hmem he), m.sorted.filter _⟩,
      fun a ha b hb => ?_⟩
    have hak : a.1 < k := of_decide_eq_true (hmem ha)
    rcases mem_cons.1 hb with rfl | hb
    · exact hak
    · exact hak.trans (of_decide_eq_true (hmem hb))⟩

variable {m m' : OrderedMap K V} {k : K} {v : V}

lemma ext_entries (h : m.entries = m'.entries) : m = m' := by
  cases m
  cases m'
  simp_all

lemma nodup_keys (m : OrderedMap K V) : m.keys.Nodup := by
  unfold keys List.Nodup
  rw [pairwise_map]
  exact m.sorted.imp fun h => h.ne

lemma nodup_entries (m : OrderedMap K V) : m.entries.Nodup := List.Nodup.of_map _ m.nodup_keys

lemma eq_of_mem {v' : V} (h : (k, v) ∈ m.entries) (h' : (k, v') ∈ m.entries) : v = v' := by
  have := inj_on_of_nodup_map m.nodup_keys h h' rfl
  exact (Prod.mk.inj this).2

/-- **Maps with the same entries are equal.** -/
theorem ext_mem (h : ∀ e, e ∈ m.entries ↔ e ∈ m'.entries) : m = m' := by
  refine ext_entries (List.Perm.eq_of_pairwise ?_ m.sorted m'.sorted
    ((perm_ext_iff_of_nodup m.nodup_entries m'.nodup_entries).2 h))
  intro a b _ _ hab hba
  exact absurd (hab.trans hba) (lt_irrefl _)

variable {e : K × V} {p : K → Bool}

@[simp] lemma mem_filter :
    e ∈ (m.filter p).entries ↔ e ∈ m.entries ∧ p e.1 = true := List.mem_filter

lemma mem_insert : e ∈ (m.insert k v).entries ↔ e = (k, v) ∨ e ∈ m.entries ∧ e.1 ≠ k := by
  simp only [insert, List.mem_append, List.mem_cons, List.mem_filter, decide_eq_true_eq]
  constructor
  · rintro (⟨h, hlt⟩ | h | ⟨h, hlt⟩)
    exacts [.inr ⟨h, hlt.ne⟩, .inl h, .inr ⟨h, hlt.ne'⟩]
  · rintro (h | ⟨h, hne⟩)
    · exact .inr (.inl h)
    · rcases lt_or_gt_of_ne hne with hlt | hlt
      exacts [.inl ⟨h, hlt⟩, .inr (.inr ⟨h, hlt⟩)]

lemma insert_perm (h : k ∉ m.keys) : (m.insert k v).entries.Perm ((k, v) :: m.entries) := by
  have hne : ∀ e ∈ m.entries, e.1 ≠ k := fun e he hk => h (hk ▸ mem_map_of_mem he)
  refine (perm_ext_iff_of_nodup (nodup_entries _) ?_).2 fun e => ?_
  · exact nodup_cons.2 ⟨fun hmem => hne _ hmem rfl, m.nodup_entries⟩
  · rw [mem_insert, mem_cons]
    exact or_congr_right ⟨fun h => h.1, fun h => ⟨h, hne e h⟩⟩

lemma get?_eq_some : m.get? k = some v ↔ (k, v) ∈ m.entries := by
  unfold get?
  constructor
  · intro h
    obtain ⟨e, he, rfl⟩ := Option.map_eq_some_iff.1 h
    have hk : e.1 = k := by simpa using find?_some he
    exact hk ▸ mem_of_find?_eq_some he
  · intro h
    cases hf : m.entries.find? fun e => e.1 = k with
    | none => exact absurd (decide_eq_true rfl) (find?_eq_none.1 hf (k, v) h)
    | some e =>
      have hk : e.1 = k := by simpa using find?_some hf
      have hmem : (k, e.2) ∈ m.entries := hk ▸ mem_of_find?_eq_some hf
      exact congrArg some (eq_of_mem hmem h)

lemma get?_eq_none : m.get? k = none ↔ k ∉ m.keys := by
  constructor
  · intro h hk
    obtain ⟨e, he, rfl⟩ := mem_map.1 hk
    exact absurd (get?_eq_some.2 he) (by simp [h])
  · intro h
    refine Option.eq_none_iff_forall_ne_some.2 fun v hv => h ?_
    exact mem_map_of_mem (f := Prod.fst) (get?_eq_some.1 hv)

lemma mem_keys : k ∈ m.keys ↔ ∃ v, (k, v) ∈ m.entries := by
  simp [keys]

lemma mem_erase : e ∈ (m.erase k).entries ↔ e ∈ m.entries ∧ e.1 ≠ k := by
  rw [erase, mem_filter, decide_eq_true_eq]

lemma get?_erase_of_ne {k' : K} (h : k' ≠ k) : (m.erase k).get? k' = m.get? k' := by
  refine Option.ext fun v => ?_
  rw [get?_eq_some, get?_eq_some, mem_erase]
  exact and_iff_left h

/-- Looking every key up gives the entries back. -/
lemma filterMap_get?_keys : (m.keys.filterMap fun k => (m.get? k).map (k, ·)) = m.entries := by
  rw [keys, filterMap_map]
  conv_rhs => rw [← filterMap_some (l := m.entries)]
  refine filterMap_congr fun e he => ?_
  rw [Function.comp_apply, get?_eq_some.2 he, Option.map_some]

/-- Looking a key up and then the others in what is left. -/
lemma lookup_erase {l : List K} (h : k ∉ l) : ((m.get? k).map (k, ·)).toList ++
        (l.filterMap fun k' => ((m.erase k).get? k').map (k', ·)) =
      (k :: l).filterMap fun k' => (m.get? k').map (k', ·) := by
  have hrest : (l.filterMap fun k' => ((m.erase k).get? k').map (k', ·)) =
      l.filterMap fun k' => (m.get? k').map (k', ·) := by
    refine filterMap_congr fun k' hk' => ?_
    have hne : k' ≠ k := fun heq => h (heq ▸ hk')
    rw [get?_erase_of_ne hne]
  rw [hrest, filterMap_cons]
  cases m.get? k <;> rfl

/-- The values, in key order. -/
def values (m : OrderedMap K V) : List V := m.entries.map Prod.snd

/-- Keep the entries whose value passes a test. -/
def retain (m : OrderedMap K V) (p : V → Bool) : OrderedMap K V :=
  ⟨m.entries.filter fun e => p e.2, m.sorted.filter _⟩

def mapValues (m : OrderedMap K V) (f : V → V) : OrderedMap K V :=
  ⟨m.entries.map fun e => (e.1, f e.2), pairwise_map.2 m.sorted⟩

/-- Without the first entries. -/
def drop (m : OrderedMap K V) (n : ℕ) : OrderedMap K V :=
  ⟨m.entries.drop n, m.sorted.sublist (drop_sublist n _)⟩

lemma mem_values {v : V} : v ∈ m.values ↔ ∃ k, (k, v) ∈ m.entries := by
  simp [values]

lemma mem_values_of_get? (h : m.get? k = some v) : v ∈ m.values := mem_values.2 ⟨k, get?_eq_some.1 h⟩

lemma mem_retain {p : V → Bool} :
    e ∈ (m.retain p).entries ↔ e ∈ m.entries ∧ p e.2 = true := List.mem_filter

lemma mem_mapValues {f : V → V} :
    e ∈ (m.mapValues f).entries ↔ ∃ v, (e.1, v) ∈ m.entries ∧ f v = e.2 := by
  simp only [mapValues, mem_map, Prod.ext_iff, Prod.exists]
  constructor
  · rintro ⟨k, v, h, rfl, hv⟩
    exact ⟨v, h, hv⟩
  · rintro ⟨v, h, hv⟩
    exact ⟨e.1, v, h, rfl, hv⟩

@[simp] lemma values_mapValues (f : V → V) : (m.mapValues f).values = m.values.map f := by
  simp [values, mapValues]

@[simp] lemma values_retain (p : V → Bool) : (m.retain p).values = m.values.filter p := by
  simp only [values, retain, filter_map]
  rfl

lemma get?_mapValues (f : V → V) : (m.mapValues f).get? k = (m.get? k).map f := by
  refine Option.ext fun v => ?_
  rw [get?_eq_some, mem_mapValues, Option.map_eq_some_iff]
  exact exists_congr fun w => and_congr_left' get?_eq_some.symm

@[simp] lemma get?_insert_self : (m.insert k v).get? k = some v :=
  get?_eq_some.2 (mem_insert.2 (.inl rfl))

lemma get?_insert_of_ne {k' : K} (h : k' ≠ k) : (m.insert k v).get? k' = m.get? k' := by
  refine Option.ext fun w => ?_
  rw [get?_eq_some, get?_eq_some, mem_insert]
  constructor
  · rintro (he | he)
    · exact absurd (Prod.mk.inj he).1 h
    · exact he.1
  · exact fun he => .inr ⟨he, h⟩

lemma filter_eq_self (h : ∀ k, p k = true) : m.filter p = m :=
  ext_mem fun e => by simp [h]

/-- The values but for one key. -/
lemma values_perm_erase (h : m.get? k = some v) : m.values.Perm (v :: (m.erase k).values) := by
  have hents : m.entries.Perm ((k, v) :: (m.erase k).entries) := by
    refine (perm_ext_iff_of_nodup m.nodup_entries ?_).2 fun e => ?_
    · exact nodup_cons.2 ⟨fun hmem => (mem_erase.1 hmem).2 rfl, nodup_entries _⟩
    · rw [mem_cons, mem_erase]
      constructor
      · intro he
        by_cases hk : e.1 = k
        · refine .inl (Prod.ext hk (eq_of_mem (k := k) ?_ (get?_eq_some.1 h)))
          exact hk ▸ he
        · exact .inr ⟨he, hk⟩
      · rintro (rfl | ⟨he, -⟩)
        · exact get?_eq_some.1 h
        · exact he
  exact hents.map Prod.snd

lemma erase_eq_self (h : m.get? k = none) : m.erase k = m := by
  refine ext_mem fun e => ?_
  rw [mem_erase]
  refine and_iff_left_of_imp fun he hk => ?_
  exact get?_eq_none.1 h (mem_keys.2 ⟨e.2, hk ▸ he⟩)

lemma values_insert_perm : (m.insert k v).values.Perm (v :: (m.erase k).values) := by
  have herase : (m.insert k v).erase k = m.erase k := by
    refine ext_mem fun e => ?_
    rw [mem_erase, mem_erase, mem_insert]
    constructor
    · rintro ⟨rfl | ⟨he, -⟩, hne⟩
      · exact absurd rfl hne
      · exact ⟨he, hne⟩
    · rintro ⟨he, hne⟩
      exact ⟨.inr ⟨he, hne⟩, hne⟩
  exact herase ▸ values_perm_erase get?_insert_self

lemma insert_get? (h : m.get? k = some v) : m.insert k v = m := by
  refine ext_mem fun e => ?_
  rw [mem_insert]
  constructor
  · rintro (rfl | ⟨he, -⟩)
    · exact get?_eq_some.1 h
    · exact he
  · intro he
    by_cases hk : e.1 = k
    · exact .inl (Prod.ext hk (eq_of_mem (k := k) (hk ▸ he) (get?_eq_some.1 h)))
    · exact .inr ⟨he, hk⟩

/-- A value replaced by one that passes the same test is found in its place. -/
lemma find?_values_insert {p : V → Bool} {w r : V} (h : m.get? k = some v) (hp : p w = p v)
    (hr : m.values.find? p = some r) :
    (m.insert k w).values.find? p = some r ∨ r = v ∧ (m.insert k w).values.find? p = some w := by
  rw [← insert_get? h] at hr
  simp only [insert, values, map_append, map_cons, find?_append, find?_cons] at hr ⊢
  rw [hp]
  generalize ((m.entries.filter fun e => e.1 < k).map Prod.snd).find? p = found at hr ⊢
  cases found with
  | some a => exact .inl hr
  | none =>
    cases hv : p v with
    | true =>
      rw [hv] at hr
      exact .inr ⟨(Option.some.inj hr).symm, rfl⟩
    | false =>
      rw [hv] at hr
      exact .inl hr

/-- The entry with the least key. -/
def first? (m : OrderedMap K V) : Option (K × V) := m.entries.head?

/-- The entry with the greatest key. -/
def last? (m : OrderedMap K V) : Option (K × V) := m.entries.getLast?

lemma first?_eq_none : m.first? = none ↔ m.keys = [] := by
  rw [first?, head?_eq_none_iff, keys, map_eq_nil_iff]

lemma last?_eq_none : m.last? = none ↔ m.keys = [] := by
  rw [last?, getLast?_eq_none_iff, keys, map_eq_nil_iff]

lemma first?_eq_some (h : m.first? = some e) : e ∈ m.entries ∧ ∀ k' ∈ m.keys, e.1 ≤ k' := by
  obtain ⟨rest, hrest⟩ := head?_eq_some_iff.1 h
  refine ⟨hrest ▸ mem_cons_self, fun k' hk' => ?_⟩
  have hsort := m.sorted
  rw [hrest, pairwise_cons] at hsort
  rw [keys, hrest, map_cons, mem_cons] at hk'
  rcases hk' with rfl | hk'
  · exact le_rfl
  · obtain ⟨e', he', rfl⟩ := mem_map.1 hk'
    exact (hsort.1 e' he').le

lemma last?_eq_some (h : m.last? = some e) : e ∈ m.entries ∧ ∀ k' ∈ m.keys, k' ≤ e.1 := by
  obtain ⟨init, hinit⟩ := getLast?_eq_some_iff.1 h
  refine ⟨hinit ▸ mem_append_right _ (mem_singleton_self e), fun k' hk' => ?_⟩
  have hsort := m.sorted
  rw [hinit, pairwise_append] at hsort
  rw [keys, hinit, map_append, mem_append] at hk'
  rcases hk' with hk' | hk'
  · obtain ⟨e', he', rfl⟩ := mem_map.1 hk'
    exact (hsort.2.2 e' he' e (mem_singleton_self e)).le
  · exact (mem_singleton.1 hk').le

lemma mem_keys_filter : k ∈ (m.filter p).keys ↔ k ∈ m.keys ∧ p k = true := by
  simp [mem_keys, mem_filter]

lemma mem_keys_insert {k' : K} : k' ∈ (m.insert k v).keys ↔ k' = k ∨ k' ∈ m.keys := by
  simp only [mem_keys, mem_insert, Prod.mk.injEq]
  constructor
  · rintro ⟨w, ⟨rfl, -⟩ | ⟨h, -⟩⟩
    exacts [.inl rfl, .inr ⟨w, h⟩]
  · rintro (rfl | ⟨w, h⟩)
    · exact ⟨v, .inl ⟨rfl, rfl⟩⟩
    · by_cases hk : k' = k
      · exact ⟨v, .inl ⟨hk, rfl⟩⟩
      · exact ⟨w, .inr ⟨h, hk⟩⟩

end OrderedMap

end ProtomoltSearch
