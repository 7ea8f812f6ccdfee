import Mathlib

/-!
# Team-draft interleaving

Two rankings are merged into one list of at most `k` results, each credited to the team whose
ranking it was taken from (`team_draft` in `interleave.rs`). Each round keeps `Drafted`, whatever the
coin says, and a draft that ends early has used up both rankings.
-/

namespace ProtomoltSearch.Interleave

open List Function

/-- Which variant contributed a result. -/
inductive Team where
  | A
  | B
  deriving DecidableEq

/-- The merged ids in the order to display them, each with the team that contributed it. -/
abbrev Interleaved := List (UInt64 × Team)

def ids (out : Interleaved) : List UInt64 := out.map Prod.fst

/-- What a team contributed. -/
def picksOf (t : Team) (out : Interleaved) : List UInt64 := ids (out.filter (·.2 = t))

/-- The variables of the loop: the list, the coin, and each team's cursor and number of picks. -/
structure Draft where
  out : Interleaved
  state : UInt64
  index : Team → ℕ
  count : Team → ℕ

/-- The next state of the coin, and the bits it gives. -/
def splitmix64 (state : UInt64) : UInt64 × UInt64 :=
  let state := state + 0x9E3779B97F4A7C15
  let z := (state ^^^ (state >>> 30)) * 0xBF58476D1CE4E5B9
  let z := (z ^^^ (z >>> 27)) * 0x94D049BB133111EB
  (state, z ^^^ (z >>> 31))

/-- The cursor moves past the ids that are taken. -/
def nextUnused (list taken : List UInt64) (i : ℕ) : ℕ := i + (list.drop i).findIdx (· ∉ taken)

namespace Draft

variable (rank : Team → List UInt64) (s : Draft)

/-- Who picks, and the coin after it: whoever is behind, when both can. -/
def picker (aHas bHas : Bool) : Team × UInt64 :=
  match aHas, bHas with
  | true, false => (.A, s.state)
  | false, true => (.B, s.state)
  | _, _ =>
    if s.count .A < s.count .B then (.A, s.state)
    else if s.count .B < s.count .A then (.B, s.state)
    else (if (splitmix64 s.state).2 &&& 1 = 0 then .A else .B, (splitmix64 s.state).1)

def pick (index : Team → ℕ) (p : Team × UInt64) (id : UInt64) : Draft where
  out := s.out ++ [(id, p.1)]
  state := p.2
  index := update index p.1 (index p.1 + 1)
  count := update s.count p.1 (s.count p.1 + 1)

/-- One round, or none when neither ranking has an unused id. -/
def round : Option Draft :=
  let index t := nextUnused (rank t) (ids s.out) (s.index t)
  let has t := decide (index t < (rank t).length)
  if !has .A && !has .B then none
  else
    let p := s.picker (has .A) (has .B)
    (rank p.1)[index p.1]?.map (s.pick index p)

/-- The loop, with the number of results that are still wanted. -/
def loop : ℕ → Draft → Draft
  | 0, s => s
  | n + 1, s => (s.round rank).elim s (loop n)

end Draft

def rankings (a b : List UInt64) : Team → List UInt64
  | .A => a
  | .B => b

def teamDraft (a b : List UInt64) (k : ℕ) (seed : UInt64) : Interleaved :=
  (Draft.loop (rankings a b) k ⟨[], seed, fun _ => 0, fun _ => 0⟩).out

section

variable {list taken : List UInt64} {i : ℕ} (h : ∀ x ∈ list.take i, x ∈ taken)
include h

/-- What the cursor has passed is taken. -/
lemma mem_of_passed : ∀ x ∈ list.take (nextUnused list taken i), x ∈ taken := by
  intro x hx
  rw [nextUnused, take_add, mem_append] at hx
  rcases hx with hx | hx
  · exact h x hx
  · obtain ⟨m, hm, rfl⟩ := mem_take_iff_getElem.1 hx
    simpa using not_of_lt_findIdx (lt_min_iff.1 hm).1

omit h in
/-- What it stops at is not. -/
lemma notMem_of_stop {id : UInt64} (h : list[nextUnused list taken i]? = some id) :
    id ∉ taken := by
  rw [nextUnused, ← getElem?_drop] at h
  obtain ⟨hlt, rfl⟩ := List.getElem?_eq_some_iff.1 h
  simpa using findIdx_getElem (w := hlt)

lemma nextUnused_lt_iff : nextUnused list taken i < list.length ↔ ∃ x ∈ list, x ∉ taken := by
  constructor
  · intro hlt
    exact ⟨_, getElem_mem hlt, notMem_of_stop (getElem?_eq_getElem hlt)⟩
  · rintro ⟨x, hx, hnot⟩
    by_contra hle
    rw [← take_of_length_le (not_lt.1 hle)] at hx
    exact hnot (mem_of_passed h x hx)

end

variable (rank : Team → List UInt64) {s : Draft}

/-- A pick after the results `before`: it is the first id of its ranking that is not among them,
and it leaves the teams level up to one while both could pick. -/
structure Picks (before : Interleaved) (id : UInt64) (t : Team) : Prop where
  first : ∃ skipped rest, rank t = skipped ++ id :: rest ∧ ∀ x ∈ skipped, x ∈ ids before
  level : (∀ u, ∃ x ∈ rank u, x ∉ ids before) → ∀ u v,
    (picksOf u (before ++ [(id, t)])).length ≤ (picksOf v (before ++ [(id, t)])).length + 1

/-- What holds of the list and the variables after each round. -/
structure Drafted (s : Draft) : Prop where
  count : ∀ t, s.count t = (picksOf t s.out).length
  passed : ∀ t, ∀ x ∈ (rank t).take (s.index t), x ∈ ids s.out
  order : ∀ t, picksOf t s.out <+ (rank t).take (s.index t)
  nodup : (ids s.out).Nodup
  picks : ∀ before id t after, s.out = before ++ (id, t) :: after → Picks rank before id t

variable {rank}

lemma picksOf_snoc (t u : Team) (id : UInt64) (out : Interleaved) :
    picksOf t (out ++ [(id, u)]) = if t = u then picksOf t out ++ [id] else picksOf t out := by
  by_cases h : t = u
  · simp [picksOf, ids, h]
  · simp [picksOf, ids, h, Ne.symm h]

/-- A team that has an unused id picks, and it is not ahead when both have one. -/
lemma picker_spec {has : Team → Bool} (h : (!has .A && !has .B) = false) :
    has (s.picker (has .A) (has .B)).1 = true ∧
      ((∀ t, has t = true) → ∀ t, s.count (s.picker (has .A) (has .B)).1 ≤ s.count t) := by
  by_cases hall : ∀ t, has t = true
  · refine ⟨hall _, fun _ t => ?_⟩
    rw [hall, hall]
    unfold Draft.picker
    split_ifs <;> cases t <;> dsimp only <;> omega
  · refine ⟨?_, fun h => absurd h hall⟩
    cases hA : has .A with
    | false =>
      have hB : has .B = true := by simpa [hA] using h
      rwa [hB]
    | true =>
      cases hB : has .B with
      | false => exact hA
      | true => exact absurd (fun t => by cases t <;> assumption) hall

/-- While both could pick, the teams are level up to one. -/
lemma Drafted.balanced (h : Drafted rank s) (hunused : ∀ t, ∃ x ∈ rank t, x ∉ ids s.out)
    (u v : Team) : s.count u ≤ s.count v + 1 := by
  rw [h.count, h.count]
  rcases eq_nil_or_concat' s.out with hnil | ⟨before, ⟨id, t⟩, hout⟩
  · simp [hnil, picksOf, ids]
  · rw [hout]
    refine (h.picks before id t [] hout).level (fun u => ?_) u v
    obtain ⟨x, hx, hnot⟩ := hunused u
    rw [hout] at hnot
    exact ⟨x, hx, fun hmem => hnot (by simp [ids, mem_map.1 hmem])⟩

/-- Every pick keeps `Drafted`. -/
lemma Drafted.pick (h : Drafted rank s) {index : Team → ℕ}
    (hidx : ∀ t, index t = nextUnused (rank t) (ids s.out) (s.index t)) {p : Team × UInt64}
    {id : UInt64} (hid : (rank p.1)[index p.1]? = some id)
    (hbehind : (∀ t, ∃ x ∈ rank t, x ∉ ids s.out) → ∀ t, s.count p.1 ≤ s.count t) :
    Drafted rank (s.pick index p id) := by
  have hpassed : ∀ t, ∀ x ∈ (rank t).take (index t), x ∈ ids s.out := fun t => by
    rw [hidx]
    exact mem_of_passed (h.passed t)
  have hord : ∀ t, picksOf t s.out <+ (rank t).take (index t) := fun t =>
    (h.order t).trans (take_sublist_take_left (by rw [hidx]; exact Nat.le_add_right _ _))
  have hnew : id ∉ ids s.out := notMem_of_stop (hidx _ ▸ hid)
  have htake : (rank p.1).take (index p.1 + 1) = (rank p.1).take (index p.1) ++ [id] := by
    rw [take_add_one, hid]
    rfl
  have hids : ids (s.pick index p id).out = ids s.out ++ [id] := map_append
  have hcnt : ∀ t, (s.pick index p id).count t = (picksOf t (s.out ++ [(id, p.1)])).length := by
    intro t
    simp only [Draft.pick, picksOf_snoc, update_apply, h.count]
    split_ifs with ht
    · rw [ht, length_append, length_singleton]
    · rfl
  refine ⟨hcnt, fun t x hx => ?_, fun t => ?_, ?_,
    fun before x t after (heq : s.out ++ [(id, p.1)] = _) => ?_⟩
  · rw [hids]
    by_cases ht : t = p.1
    · subst ht
      simp only [Draft.pick, update_self, htake] at hx
      rcases mem_append.1 hx with hx | hx
      · exact mem_append_left _ (hpassed _ x hx)
      · exact mem_append_right _ hx
    · simp only [Draft.pick, update_of_ne ht] at hx
      exact mem_append_left _ (hpassed t x hx)
  · simp only [Draft.pick, picksOf_snoc, update_apply]
    split_ifs with ht
    · rw [ht, htake]
      exact (hord _).append_right _
    · exact hord t
  · rw [hids]
    exact h.nodup.append (nodup_singleton id) (by simpa using hnew)
  · rcases eq_nil_or_concat' after with rfl | ⟨after, y, rfl⟩
    · obtain ⟨rfl, hlast⟩ := append_inj' heq rfl
      obtain ⟨rfl, rfl⟩ := Prod.mk.inj (singleton_inj.1 hlast)
      refine ⟨⟨_, (rank p.1).drop (index p.1 + 1), ?_, hpassed p.1⟩, fun hunused u v => ?_⟩
      · rw [← singleton_append, ← append_assoc, ← htake, take_append_drop]
      · have hu := h.balanced hunused u v
        have hv := hbehind hunused v
        rw [← hcnt, ← hcnt]
        simp only [Draft.pick, update_apply]
        split_ifs with hup hvp hvp
        · omega
        · omega
        · rw [hvp] at hu
          omega
        · exact hu
    · rw [← cons_append, ← append_assoc] at heq
      exact h.picks before x t after (append_inj' heq rfl).1

/-- **A run of rounds**: it gives as many results as are wanted, or uses up both rankings. -/
theorem Drafted.loop (h : Drafted rank s) (n : ℕ) : Drafted rank (s.loop rank n) ∧
    (s.loop rank n).out.length ≤ s.out.length + n ∧ ((s.loop rank n).out.length = s.out.length + n ∨
    ∀ t, ∀ x ∈ rank t, x ∈ ids (s.loop rank n).out) := by
  induction n generalizing s with
  | zero => exact ⟨h, le_rfl, .inl rfl⟩
  | succ n ih =>
    let index t := nextUnused (rank t) (ids s.out) (s.index t)
    let has t := decide (index t < (rank t).length)
    have hhas : ∀ t, has t = true ↔ ∃ x ∈ rank t, x ∉ ids s.out := fun t =>
      decide_eq_true_iff.trans (nextUnused_lt_iff (h.passed t))
    have hloop : s.loop rank (n + 1) = (s.round rank).elim s (Draft.loop rank n) := rfl
    cases hnone : !has .A && !has .B with
    | true =>
      have hround : s.round rank = none := if_pos hnone
      rw [hloop, hround]
      refine ⟨h, Nat.le_add_right _ _, .inr fun t x hx => ?_⟩
      by_contra hnot
      have ht := (hhas t).2 ⟨x, hx, hnot⟩
      cases t <;> simp [ht] at hnone
    | false =>
      obtain ⟨hpicker, hbehind⟩ := picker_spec (s := s) hnone
      set p := s.picker (has .A) (has .B)
      obtain ⟨id, hid⟩ : ∃ id, (rank p.1)[index p.1]? = some id :=
        ⟨_, getElem?_eq_getElem (of_decide_eq_true hpicker)⟩
      have hround : s.round rank = some (s.pick index p id) := by
        refine (if_neg (Bool.eq_false_iff.1 hnone)).trans ?_
        rw [hid]
        rfl
      have hlen : (s.pick index p id).out.length = s.out.length + 1 := length_append
      have hnext := ih (h.pick (fun _ => rfl) hid fun hunused =>
        hbehind fun t => (hhas t).2 (hunused t))
      rw [hlen, Nat.add_right_comm] at hnext
      rw [hloop, hround]
      exact hnext

/-- **Team draft**: distinct ids of the two rankings, as many as are wanted and there are; each
team's picks are in its ranking's order, and each pick is as `Picks` says. -/
theorem teamDraft_spec (a b : List UInt64) (k : ℕ) (seed : UInt64) :
    (ids (teamDraft a b k seed)).Nodup ∧
    (∀ id ∈ ids (teamDraft a b k seed), id ∈ a ∨ id ∈ b) ∧
    (teamDraft a b k seed).length = min k (a ++ b).dedup.length ∧
    (∀ t, picksOf t (teamDraft a b k seed) <+ rankings a b t) ∧
    ∀ before id t after, teamDraft a b k seed = before ++ (id, t) :: after →
      Picks (rankings a b) before id t := by
  have hstart : Drafted (rankings a b) ⟨[], seed, fun _ => 0, fun _ => 0⟩ :=
    ⟨by simp [picksOf, ids], by simp, by simp [picksOf, ids], nodup_nil, by simp⟩
  obtain ⟨h, hle, hend⟩ := hstart.loop k
  rw [length_nil, Nat.zero_add] at hle hend
  unfold teamDraft
  set out := (Draft.loop (rankings a b) k ⟨[], seed, fun _ => 0, fun _ => 0⟩).out
  have hmem : ids out ⊆ (a ++ b).dedup := by
    intro id hid
    obtain ⟨⟨id, t⟩, hp, rfl⟩ := mem_map.1 hid
    obtain ⟨before, after, hout⟩ := append_of_mem hp
    obtain ⟨skipped, rest, hrank, -⟩ := (h.picks before id t after hout).first
    have hin := hrank ▸ mem_append_right _ mem_cons_self
    rw [mem_dedup, mem_append]
    cases t with
    | A => exact .inl hin
    | B => exact .inr hin
  have hlen : out.length ≤ (a ++ b).dedup.length := by
    simpa [ids] using (h.nodup.subperm hmem).length_le
  refine ⟨h.nodup, fun id hid => mem_append.1 (mem_dedup.1 (hmem hid)), ?_,
    fun t => (h.order t).trans (take_sublist _ _), h.picks⟩
  rcases hend with hend | hend
  · exact hend.trans (min_eq_left (hend ▸ hlen)).symm
  · have hall : (a ++ b).dedup ⊆ ids out := by
      intro id hid
      rcases mem_append.1 (mem_dedup.1 hid) with hid | hid
      · exact hend .A id hid
      · exact hend .B id hid
    have hge : (a ++ b).dedup.length ≤ out.length := by
      simpa [ids] using ((nodup_dedup _).subperm hall).length_le
    exact (hlen.antisymm hge).trans (min_eq_right (hge.trans hle)).symm

end ProtomoltSearch.Interleave
