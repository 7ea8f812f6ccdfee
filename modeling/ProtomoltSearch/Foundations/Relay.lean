import ProtomoltSearch.Foundations.Refusals

/-!
# Folds through relays

Shards answer partials; a root folds them into a state. A relay folds the answers of its children
and answers its own state as a partial, so the root sees a tree of answers instead of a list.

A fold is relayable when each state is determined by what the partials folded into it hold together,
and the partial a state is answered as holds the same. Then a tree answers exactly when the flat list
of its shards does (`Relayable.root_returns_iff`), with the same view (`Relayable.view_root_eq`).
-/

namespace ProtomoltSearch

open List

/-- A shard, or a relay over children. -/
inductive RelayTree (α : Type*) where
  | shard (a : α)
  | relay (children : List (RelayTree α))

namespace RelayTree

variable {α : Type*}

mutual

/-- The shards below a tree, in order. -/
def leaves : RelayTree α → List α
  | .shard a => [a]
  | .relay children => leavesAll children

def leavesAll : List (RelayTree α) → List α
  | [] => []
  | t :: ts => t.leaves ++ leavesAll ts

end

section

variable {β : Type*} (f : α → β)

mutual

/-- The tree with every shard replaced. -/
def map : RelayTree α → RelayTree β
  | .shard a => .shard (f a)
  | .relay children => .relay (mapAll children)

def mapAll : List (RelayTree α) → List (RelayTree β)
  | [] => []
  | t :: ts => map t :: mapAll ts

end

mutual

lemma leaves_map : ∀ t : RelayTree α, (map f t).leaves = t.leaves.map f
  | .shard a => by rw [map, leaves, leaves, map_singleton]
  | .relay children => by rw [map, leaves, leaves, leavesAll_mapAll children]

lemma leavesAll_mapAll : ∀ ts : List (RelayTree α), leavesAll (mapAll f ts) = (leavesAll ts).map f
  | [] => rfl
  | t :: ts => by
    rw [mapAll, leavesAll, leavesAll, map_append, leaves_map t, leavesAll_mapAll ts]

end

lemma mapAll_map_shard (l : List α) : mapAll f (l.map .shard) = (l.map f).map .shard := by
  induction l with
  | nil => rfl
  | cons a l ih => rw [map_cons, mapAll, ih, map, map_cons, map_cons]

end

section

variable {α σ ε : Type} (fold : σ → α → Except ε σ) (init : σ) (out : σ → α)

mutual

/-- What a tree answers: a shard its partial, a relay the fold of its children's answers. -/
def answer : RelayTree α → Except ε α
  | .shard a => .ok a
  | .relay children => do
    let partials ← answers children
    let s ← partials.foldlM fold init
    .ok (out s)

def answers : List (RelayTree α) → Except ε (List α)
  | [] => .ok []
  | t :: ts => do
    let p ← answer t
    let ps ← answers ts
    .ok (p :: ps)

end

/-- The root's state over the trees below it. -/
def root (ts : List (RelayTree α)) : Except ε σ := do
  let partials ← answers fold init out ts
  partials.foldlM fold init

end

/-- Every shard directly below the root. -/
def flat (ts : List (RelayTree α)) : List (RelayTree α) := (leavesAll ts).map .shard

@[simp] lemma leavesAll_map_shard (l : List α) : leavesAll (l.map .shard) = l := by
  induction l with
  | nil => rfl
  | cons a l ih => rw [map_cons, leavesAll, ih, leaves, singleton_append]

@[simp] lemma leavesAll_flat (ts : List (RelayTree α)) : leavesAll (flat ts) = leavesAll ts :=
  leavesAll_map_shard _

lemma flat_mapAll {β : Type*} (f : α → β) (ts : List (RelayTree α)) :
    flat (mapAll f ts) = mapAll f (flat ts) := by
  rw [flat, flat, leavesAll_mapAll, mapAll_map_shard]

end RelayTree

open RelayTree

/-- A fold whose states are determined by what they hold. `Sane` is what the shards promise of a
partial, and `view` the part of a state that must not depend on the grouping. -/
structure Relayable {α σ ε V : Type} (fold : σ → α → Except ε σ) (init : σ) (out : σ → α)
    (Sane : α → Prop) (view : σ → V) where
  Same : List α → List α → Prop
  Valid : List α → Prop
  Inv : σ → List α → Prop
  same_refl : ∀ as, Same as as
  same_symm : ∀ {as bs}, Same as bs → Same bs as
  same_trans : ∀ {as bs cs}, Same as bs → Same bs cs → Same as cs
  same_append : ∀ {as bs cs ds}, Same as bs → Same cs ds → Same (as ++ cs) (bs ++ ds)
  valid_of_same : ∀ {as bs}, Same as bs → Valid as → Valid bs
  valid_append : ∀ {as bs}, Valid (as ++ bs) → Valid as ∧ Valid bs
  inv_init : Inv init []
  inv_step : ∀ {s t ps p}, Inv s ps → Sane p → fold s p = .ok t → Inv t (ps ++ [p])
  returns : ∀ {s ps p}, Inv s ps → Sane p → Valid (ps ++ [p]) → ∃ t, fold s p = .ok t
  valid_of_inv : ∀ {s ps}, Inv s ps → Valid ps
  relayed : ∀ {s ps}, Inv s ps → Sane (out s) ∧ Same [out s] ps
  view_eq : ∀ {s t ps qs}, Inv s ps → Inv t qs → Same ps qs → view s = view t

namespace Relayable

section Trees

variable {α σ ε V : Type} {fold : σ → α → Except ε σ} {init : σ} {out : σ → α}
  {Sane : α → Prop} {view : σ → V} (R : Relayable fold init out Sane view)
include R

/-! ## A list of partials -/

lemma inv_foldlM {s : σ} {ps : List α} (hsane : ∀ p ∈ ps, Sane p)
    (h : ps.foldlM fold init = .ok s) : R.Inv s ps := by
  have hrun : R.Inv s ([] ++ ps.flatMap fun p => [p]) :=
    foldlM_rows (fun p hp s t done hs ht => R.inv_step hs (hsane p hp) ht) R.inv_init h
  rwa [nil_append, flatMap_singleton'] at hrun

lemma foldlM_returns_iff {ps : List α} (hsane : ∀ p ∈ ps, Sane p) :
    (∃ s, ps.foldlM fold init = .ok s) ↔ R.Valid ps := by
  constructor
  · rintro ⟨s, hs⟩
    exact R.valid_of_inv (R.inv_foldlM hsane hs)
  · intro h
    refine foldlM_returns (C := R.Valid) (fun h => (R.valid_append h).1)
      (fun p hp s t done hs ht => R.inv_step hs (hsane p hp) ht)
      (fun p hp s done hs hC => R.returns hs (hsane p hp) hC) R.inv_init ?_
    rwa [nil_append, flatMap_singleton']

/-! ## Trees -/

mutual

/-- What a tree answers holds the same as its shards, and it answers when they are valid. -/
lemma answer_spec : ∀ t : RelayTree α, (∀ p ∈ t.leaves, Sane p) →
    (∀ p, answer fold init out t = .ok p → Sane p ∧ R.Same [p] t.leaves) ∧
      (R.Valid t.leaves → ∃ p, answer fold init out t = .ok p)
  | .shard a, hsane => by
    refine ⟨fun p hp => ?_, fun _ => ⟨a, rfl⟩⟩
    obtain rfl := Except.ok.inj hp
    exact ⟨hsane a (mem_singleton_self a), R.same_refl _⟩
  | .relay children, hsane => by
    obtain ⟨hspec, hret⟩ := answers_spec children hsane
    refine ⟨fun p hp => ?_, fun hvalid => ?_⟩
    · rw [answer] at hp
      obtain ⟨ps, hps, s, hs, hp⟩ := bind₂_ok.1 hp
      obtain rfl := Except.ok.inj hp
      obtain ⟨hsane', hsame⟩ := hspec ps hps
      obtain ⟨hout, hrelayed⟩ := R.relayed (R.inv_foldlM hsane' hs)
      exact ⟨hout, R.same_trans hrelayed hsame⟩
    · obtain ⟨ps, hps⟩ := hret hvalid
      obtain ⟨hsane', hsame⟩ := hspec ps hps
      obtain ⟨s, hs⟩ := (R.foldlM_returns_iff hsane').2 (R.valid_of_same (R.same_symm hsame) hvalid)
      exact ⟨out s, by rw [answer, hps, ok_bind, hs, ok_bind]⟩

lemma answers_spec : ∀ ts : List (RelayTree α), (∀ p ∈ leavesAll ts, Sane p) →
    (∀ ps, answers fold init out ts = .ok ps → (∀ p ∈ ps, Sane p) ∧ R.Same ps (leavesAll ts)) ∧
      (R.Valid (leavesAll ts) → ∃ ps, answers fold init out ts = .ok ps)
  | [], _ => by
    refine ⟨fun ps hps => ?_, fun _ => ⟨[], rfl⟩⟩
    obtain rfl := Except.ok.inj hps
    exact ⟨fun p hp => absurd hp not_mem_nil, R.same_refl _⟩
  | t :: ts, hsane => by
    rw [leavesAll] at hsane
    obtain ⟨hspec, hret⟩ := answer_spec t fun p hp => hsane p (mem_append_left _ hp)
    obtain ⟨hspecs, hreturnss⟩ := answers_spec ts fun p hp => hsane p (mem_append_right _ hp)
    refine ⟨fun ps hps => ?_, fun hvalid => ?_⟩
    · rw [answers] at hps
      obtain ⟨p, hp, ps', hps', hps⟩ := bind₂_ok.1 hps
      obtain rfl := Except.ok.inj hps
      obtain ⟨hp, hsame⟩ := hspec p hp
      obtain ⟨hps, hsame'⟩ := hspecs ps' hps'
      exact ⟨forall_mem_cons.2 ⟨hp, hps⟩, R.same_append hsame hsame'⟩
    · rw [leavesAll] at hvalid
      obtain ⟨hvalid, hvalid'⟩ := R.valid_append hvalid
      obtain ⟨p, hp⟩ := hret hvalid
      obtain ⟨ps, hps⟩ := hreturnss hvalid'
      exact ⟨p :: ps, by rw [answers, hp, ok_bind, hps, ok_bind]⟩

end

variable {ts : List (RelayTree α)}

section

variable (hsane : ∀ p ∈ leavesAll ts, Sane p)

include hsane

/-- The root's state holds the same as the shards. -/
lemma root_inv {s : σ}
    (h : root fold init out ts = .ok s) : ∃ ps, R.Inv s ps ∧ R.Same ps (leavesAll ts) := by
  obtain ⟨ps, hps, hs⟩ := bind_ok.1 h
  obtain ⟨hsane', hsame⟩ := (R.answers_spec ts hsane).1 ps hps
  exact ⟨ps, R.inv_foldlM hsane' hs, hsame⟩

lemma root_returns_iff_valid : (∃ s, root fold init out ts = .ok s) ↔ R.Valid (leavesAll ts) := by
  constructor
  · rintro ⟨s, hs⟩
    obtain ⟨ps, hinv, hsame⟩ := R.root_inv hsane hs
    exact R.valid_of_same hsame (R.valid_of_inv hinv)
  · intro hvalid
    obtain ⟨hspec, hret⟩ := R.answers_spec ts hsane
    obtain ⟨ps, hps⟩ := hret hvalid
    obtain ⟨hsane', hsame⟩ := hspec ps hps
    obtain ⟨s, hs⟩ := (R.foldlM_returns_iff hsane').2 (R.valid_of_same (R.same_symm hsame) hvalid)
    exact ⟨s, by rw [root, hps, ok_bind, hs]⟩

/-- **The tree answers exactly when the flat list does.** -/
theorem root_returns_iff :
    (∃ s, root fold init out ts = .ok s) ↔ ∃ s, root fold init out (flat ts) = .ok s := by
  rw [R.root_returns_iff_valid hsane, R.root_returns_iff_valid (by rwa [leavesAll_flat]),
    leavesAll_flat]

/-- **The views of the two states are the same.** -/
theorem view_root_eq {s t : σ} (hs : root fold init out ts = .ok s)
    (ht : root fold init out (flat ts) = .ok t) : view s = view t := by
  obtain ⟨ps, hps, hsame⟩ := R.root_inv hsane hs
  obtain ⟨qs, hqs, hsame'⟩ := R.root_inv (by rwa [leavesAll_flat]) ht
  rw [leavesAll_flat] at hsame'
  exact R.view_eq hps hqs (R.same_trans hsame (R.same_symm hsame'))

end

/-! ## Refusals

What a tree is refused with, some fold of a sane partial into a reached state is refused with. -/

/-- A reached state refuses a sane partial with the error. -/
def Refuses (e : ε) : Prop := ∃ s ps p, R.Inv s ps ∧ Sane p ∧ fold s p = .error e

lemma refuses_of_foldlM {e : ε} {qs : List α} (hsane : ∀ p ∈ qs, Sane p) {s : σ} {ps : List α}
    (hs : R.Inv s ps) (h : qs.foldlM fold s = .error e) : R.Refuses e := by
  induction qs generalizing s ps with
  | nil => cases h
  | cons q qs ih =>
    obtain ⟨hq, hqs⟩ := forall_mem_cons.1 hsane
    rcases bind_eq_error.1 h with hf | ⟨t, hf, h⟩
    · exact ⟨s, ps, q, hs, hq, hf⟩
    · exact ih hqs (R.inv_step hs hq hf) h

mutual

lemma refuses_of_answer {e : ε} : ∀ t : RelayTree α, (∀ p ∈ t.leaves, Sane p) →
    answer fold init out t = .error e → R.Refuses e
  | .shard a, _, h => nomatch h
  | .relay children, hsane, h => by
    rw [answer] at h
    rcases bind_eq_error.1 h with hps | ⟨ps, hps, h⟩
    · exact refuses_of_answers children hsane hps
    · rcases bind_eq_error.1 h with hs | ⟨s, -, h⟩
      · exact R.refuses_of_foldlM ((R.answers_spec children hsane).1 ps hps).1 R.inv_init hs
      · cases h

lemma refuses_of_answers {e : ε} : ∀ ts : List (RelayTree α), (∀ p ∈ leavesAll ts, Sane p) →
    answers fold init out ts = .error e → R.Refuses e
  | [], _, h => nomatch h
  | t :: ts, hsane, h => by
    rw [leavesAll] at hsane
    rw [answers] at h
    rcases bind_eq_error.1 h with hp | ⟨p, -, h⟩
    · exact refuses_of_answer t (fun p hp => hsane p (mem_append_left _ hp)) hp
    · rcases bind_eq_error.1 h with hps | ⟨ps, -, h⟩
      · exact refuses_of_answers ts (fun p hp => hsane p (mem_append_right _ hp)) hps
      · cases h

end

lemma refuses_of_root {e : ε} (hsane : ∀ p ∈ leavesAll ts, Sane p)
    (h : root fold init out ts = .error e) : R.Refuses e := by
  rcases bind_eq_error.1 h with hps | ⟨ps, hps, h⟩
  · exact R.refuses_of_answers ts hsane hps
  · exact R.refuses_of_foldlM ((R.answers_spec ts hsane).1 ps hps).1 R.inv_init h

end Trees

/-! ## Two folds side by side -/

section

variable {α σ V α' σ' V' ε : Type} {fold : σ → α → Except ε σ} {init : σ} {out : σ → α}
  {Sane : α → Prop} {view : σ → V} {fold' : σ' → α' → Except ε σ'} {init' : σ'} {out' : σ' → α'}
  {Sane' : α' → Prop} {view' : σ' → V'}

/-- Fold the parts of a pair, the first one first. -/
def foldBoth (fold : σ → α → Except ε σ) (fold' : σ' → α' → Except ε σ') (s : σ × σ') (p : α × α') :
    Except ε (σ × σ') := do
  let t ← fold s.1 p.1
  let t' ← fold' s.2 p.2
  .ok (t, t')

lemma foldBoth_ok {s t : σ × σ'} {p : α × α'} :
    foldBoth fold fold' s p = .ok t ↔ fold s.1 p.1 = .ok t.1 ∧ fold' s.2 p.2 = .ok t.2 := by
  constructor
  · intro h
    obtain ⟨u, hu, u', hu', h⟩ := bind₂_ok.1 h
    obtain rfl := Except.ok.inj h
    exact ⟨hu, hu'⟩
  · rintro ⟨h, h'⟩
    rw [foldBoth, h, ok_bind, h', ok_bind]

/-- Two relayable folds side by side are one. -/
def both (R : Relayable fold init out Sane view) (R' : Relayable fold' init' out' Sane' view') :
    Relayable (foldBoth fold fold') (init, init') (Prod.map out out')
      (fun p => Sane p.1 ∧ Sane' p.2) (Prod.map view view') where
  Same ps qs := R.Same (ps.map Prod.fst) (qs.map Prod.fst) ∧
    R'.Same (ps.map Prod.snd) (qs.map Prod.snd)
  Valid ps := R.Valid (ps.map Prod.fst) ∧ R'.Valid (ps.map Prod.snd)
  Inv s ps := R.Inv s.1 (ps.map Prod.fst) ∧ R'.Inv s.2 (ps.map Prod.snd)
  same_refl _ := ⟨R.same_refl _, R'.same_refl _⟩
  same_symm h := ⟨R.same_symm h.1, R'.same_symm h.2⟩
  same_trans h h' := ⟨R.same_trans h.1 h'.1, R'.same_trans h.2 h'.2⟩
  same_append h h' := by
    simp only [map_append]
    exact ⟨R.same_append h.1 h'.1, R'.same_append h.2 h'.2⟩
  valid_of_same h hv := ⟨R.valid_of_same h.1 hv.1, R'.valid_of_same h.2 hv.2⟩
  valid_append h := by
    simp only [map_append] at h
    exact ⟨⟨(R.valid_append h.1).1, (R'.valid_append h.2).1⟩, (R.valid_append h.1).2,
      (R'.valid_append h.2).2⟩
  inv_init := ⟨R.inv_init, R'.inv_init⟩
  inv_step hs hp ht := by
    obtain ⟨ht, ht'⟩ := foldBoth_ok.1 ht
    simp only [map_append]
    exact ⟨R.inv_step hs.1 hp.1 ht, R'.inv_step hs.2 hp.2 ht'⟩
  returns hs hp hv := by
    simp only [map_append] at hv
    obtain ⟨t, ht⟩ := R.returns hs.1 hp.1 hv.1
    obtain ⟨t', ht'⟩ := R'.returns hs.2 hp.2 hv.2
    exact ⟨(t, t'), foldBoth_ok.2 ⟨ht, ht'⟩⟩
  valid_of_inv hs := ⟨R.valid_of_inv hs.1, R'.valid_of_inv hs.2⟩
  relayed hs := ⟨⟨(R.relayed hs.1).1, (R'.relayed hs.2).1⟩, (R.relayed hs.1).2, (R'.relayed hs.2).2⟩
  view_eq hs ht h := Prod.ext (R.view_eq hs.1 ht.1 h.1) (R'.view_eq hs.2 ht.2 h.2)

/-- What the pair refuses, one of the parts does. -/
lemma refuses_of_both {R : Relayable fold init out Sane view}
    {R' : Relayable fold' init' out' Sane' view'} {e : ε} (h : (R.both R').Refuses e) :
    R.Refuses e ∨ R'.Refuses e := by
  obtain ⟨s, ps, p, hs, hp, hf⟩ := h
  rcases bind_eq_error.1 hf with ht | ⟨t, -, hf⟩
  · exact .inl ⟨s.1, _, p.1, hs.1, hp.1, ht⟩
  · rcases bind_eq_error.1 hf with ht' | ⟨t', -, hf⟩
    · exact .inr ⟨s.2, _, p.2, hs.2, hp.2, ht'⟩
    · cases hf

end

/-! ## One fold a column

A row holds one partial for each requested column, in the order of the request. -/

section

variable {ι α σ V ε : Type} (fold : ι → σ → α → Except ε σ) (mismatch : ℕ → ε)

/-- Fold a row into the columns' states; a row of another length is refused. -/
def foldRow (specs : List ι) (st : List σ) (row : List α) : Except ε (List σ) :=
  if row.length ≠ specs.length then .error (mismatch row.length)
  else (st.zip (row.zip specs)).mapM fun c => fold c.2.2 c.1 c.2.1

/-- The partials of one column. -/
def column (i : ℕ) (rows : List (List α)) : List α := rows.filterMap (·[i]?)

@[simp] lemma column_append (i : ℕ) (as bs : List (List α)) :
    column i (as ++ bs) = column i as ++ column i bs := filterMap_append

lemma column_singleton {i : ℕ} {row : List α} {p : α} (h : row[i]? = some p) :
    column i [row] = [p] := by
  simp [column, h]

variable {fold mismatch} {specs : List ι} {st st' : List σ} {row : List α}

/-- What folding a row does to each column. -/
lemma foldRow_ok (hst : st.length = specs.length)
    (h : foldRow fold mismatch specs st row = .ok st') :
    row.length = specs.length ∧ st'.length = specs.length ∧ ∀ (i : ℕ) t, st'[i]? = some t →
      ∃ a s p, specs[i]? = some a ∧ st[i]? = some s ∧ row[i]? = some p ∧ fold a s p = .ok t := by
  unfold foldRow at h
  split at h
  · cases h
  · rename_i hrow
    obtain ⟨hlen, hget⟩ := mapM_getElem? h
    have hrow : row.length = specs.length := not_not.1 hrow
    refine ⟨hrow, ?_, fun i t ht => ?_⟩
    · rw [hlen, length_zip, length_zip, hst, hrow, Nat.min_self, Nat.min_self]
    · obtain ⟨⟨s, p, a⟩, hx, hf⟩ := hget i t ht
      obtain ⟨hs, hpa⟩ := getElem?_zip_eq_some.1 hx
      obtain ⟨hp, ha⟩ := getElem?_zip_eq_some.1 hpa
      exact ⟨a, s, p, ha, hs, hp, hf⟩

lemma foldRow_returns (hrow : row.length = specs.length)
    (h : ∀ (i : ℕ) a s p, specs[i]? = some a → st[i]? = some s → row[i]? = some p →
      ∃ t, fold a s p = .ok t) : ∃ st', foldRow fold mismatch specs st row = .ok st' := by
  unfold foldRow
  rw [if_neg (not_not.2 hrow)]
  refine mapM_returns_iff.2 fun ⟨s, p, a⟩ hx => ?_
  obtain ⟨i, hi⟩ := mem_iff_getElem?.1 hx
  obtain ⟨hs, hpa⟩ := getElem?_zip_eq_some.1 hi
  obtain ⟨hp, ha⟩ := getElem?_zip_eq_some.1 hpa
  exact h i a s p ha hs hp

/-- A row folds as it does with folds that return more often. -/
lemma foldRow_ok_mono {ε' : Type} {fold' : ι → σ → α → Except ε' σ} {mismatch' : ℕ → ε'}
    (h : ∀ a s p t, fold a s p = .ok t → fold' a s p = .ok t)
    (hf : foldRow fold mismatch specs st row = .ok st') :
    foldRow fold' mismatch' specs st row = .ok st' := by
  unfold foldRow at hf ⊢
  split at hf
  · cases hf
  · rename_i hrow
    rw [if_neg hrow]
    exact mapM_ok_mono (fun _ _ _ => h _ _ _ _) hf

variable {init : σ} {out : σ → α} {Sane : α → Prop} {view : σ → V}

lemma getElem?_of_length {β γ : Type} {l : List β} {m : List γ} (hlen : l.length = m.length) {i : ℕ}
    {x : β} (h : l[i]? = some x) : ∃ y, m[i]? = some y := by
  have hi : i < m.length := by
    rw [← hlen]
    exact (List.getElem?_eq_some_iff.1 h).1
  exact ⟨m[i], getElem?_eq_getElem hi⟩

variable (mismatch specs)

/-- Columns of relayable folds are relayable. -/
def rows (R : ∀ a, Relayable (fold a) init out Sane view) :
    Relayable (foldRow fold mismatch specs) (specs.map fun _ => init) (List.map out)
      (fun row => ∀ p ∈ row, Sane p) (List.map view) where
  Same ps qs := ((∀ p ∈ ps, p.length = specs.length) ↔ ∀ q ∈ qs, q.length = specs.length) ∧
    ∀ (i : ℕ) a, specs[i]? = some a → (R a).Same (column i ps) (column i qs)
  Valid ps := (∀ p ∈ ps, p.length = specs.length) ∧
    ∀ (i : ℕ) a, specs[i]? = some a → (R a).Valid (column i ps)
  Inv st ps := st.length = specs.length ∧ (∀ p ∈ ps, p.length = specs.length) ∧
    ∀ (i : ℕ) a s, specs[i]? = some a → st[i]? = some s → (R a).Inv s (column i ps)
  same_refl _ := ⟨Iff.rfl, fun _ a _ => (R a).same_refl _⟩
  same_symm h := ⟨h.1.symm, fun i a ha => (R a).same_symm (h.2 i a ha)⟩
  same_trans h h' := ⟨h.1.trans h'.1, fun i a ha => (R a).same_trans (h.2 i a ha) (h'.2 i a ha)⟩
  same_append h h' := by
    simp only [forall_mem_append, column_append]
    exact ⟨and_congr h.1 h'.1, fun i a ha => (R a).same_append (h.2 i a ha) (h'.2 i a ha)⟩
  valid_of_same h hv := ⟨h.1.1 hv.1, fun i a ha => (R a).valid_of_same (h.2 i a ha) (hv.2 i a ha)⟩
  valid_append h := by
    simp only [forall_mem_append, column_append] at h
    exact ⟨⟨h.1.1, fun i a ha => ((R a).valid_append (h.2 i a ha)).1⟩, h.1.2,
      fun i a ha => ((R a).valid_append (h.2 i a ha)).2⟩
  inv_init := by
    refine ⟨length_map _, fun p hp => absurd hp not_mem_nil, fun i a s ha hs => ?_⟩
    rw [getElem?_map, ha, Option.map_some, Option.some.injEq] at hs
    exact hs ▸ (R a).inv_init
  inv_step := by
    rintro st st' ps row ⟨hlen, hps, hinv⟩ hsane h
    obtain ⟨hrow, hlen', hget⟩ := foldRow_ok hlen h
    refine ⟨hlen', forall_mem_append.2 ⟨hps, forall_mem_singleton.2 hrow⟩, fun i a t ha ht => ?_⟩
    obtain ⟨a', s, p, ha', hs, hp, hf⟩ := hget i t ht
    obtain rfl : a' = a := Option.some.inj (ha'.symm.trans ha)
    rw [column_append, column_singleton hp]
    exact (R a').inv_step (hinv i a' s ha hs) (hsane p (mem_of_getElem? hp)) hf
  returns := by
    rintro st ps row ⟨hlen, hps, hinv⟩ hsane ⟨hrows, hvalid⟩
    have hrow := hrows row (mem_append_right _ (mem_singleton_self row))
    refine foldRow_returns hrow fun i a s p ha hs hp => ?_
    have hv := hvalid i a ha
    rw [column_append, column_singleton hp] at hv
    exact (R a).returns (hinv i a s ha hs) (hsane p (mem_of_getElem? hp)) hv
  valid_of_inv := by
    rintro st ps ⟨hlen, hps, hinv⟩
    refine ⟨hps, fun i a ha => ?_⟩
    obtain ⟨s, hs⟩ := getElem?_of_length hlen.symm ha
    exact (R a).valid_of_inv (hinv i a s ha hs)
  relayed := by
    rintro st ps ⟨hlen, hps, hinv⟩
    refine ⟨fun p hp => ?_, ⟨fun _ => hps, fun _ => forall_mem_singleton.2 ?_⟩, fun i a ha => ?_⟩
    · obtain ⟨s, hs, rfl⟩ := mem_map.1 hp
      obtain ⟨i, hi⟩ := mem_iff_getElem?.1 hs
      obtain ⟨a, ha⟩ := getElem?_of_length hlen hi
      exact ((R a).relayed (hinv i a s ha hi)).1
    · rw [length_map, hlen]
    · obtain ⟨s, hs⟩ := getElem?_of_length hlen.symm ha
      rw [column_singleton (p := out s) (by rw [getElem?_map, hs, Option.map_some])]
      exact ((R a).relayed (hinv i a s ha hs)).2
  view_eq := by
    rintro st st' ps qs ⟨hlen, -, hinv⟩ ⟨hlen', -, hinv'⟩ ⟨-, hsame⟩
    refine ext_getElem? fun i => ?_
    rw [getElem?_map, getElem?_map]
    cases ha : specs[i]? with
    | none =>
      have hi : specs.length ≤ i := getElem?_eq_none_iff.1 ha
      rw [getElem?_eq_none (hlen ▸ hi), getElem?_eq_none (hlen' ▸ hi)]
    | some a =>
      obtain ⟨s, hs⟩ := getElem?_of_length hlen.symm ha
      obtain ⟨t, ht⟩ := getElem?_of_length hlen'.symm ha
      rw [hs, ht, Option.map_some, Option.map_some]
      exact congrArg some ((R a).view_eq (hinv i a s ha hs) (hinv' i a t ha ht) (hsame i a ha))

variable {mismatch specs}

/-- What a row is refused with, apart from its length, one of its columns is. -/
lemma refuses_of_rows {R : ∀ a, Relayable (fold a) init out Sane view} {e : ε}
    (h : (Relayable.rows mismatch specs R).Refuses e) :
    (∃ n, e = mismatch n) ∨ ∃ a, (R a).Refuses e := by
  obtain ⟨st, ps, row, ⟨_, _, hinv⟩, hsane, hf⟩ := h
  unfold foldRow at hf
  split at hf
  · exact .inl ⟨_, (Except.error.inj hf).symm⟩
  · obtain ⟨⟨s, p, a⟩, hx, hf⟩ := mapM_eq_error hf
    obtain ⟨i, hi⟩ := mem_iff_getElem?.1 hx
    obtain ⟨hs, hpa⟩ := getElem?_zip_eq_some.1 hi
    obtain ⟨hp, ha⟩ := getElem?_zip_eq_some.1 hpa
    exact .inr ⟨a, s, _, p, hinv i a s ha hs, hsane p (mem_of_getElem? hp), hf⟩

end

end Relayable

end ProtomoltSearch
