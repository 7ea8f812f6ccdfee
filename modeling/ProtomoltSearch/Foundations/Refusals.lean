import Mathlib

/-!
# Computations that can be refused

Rules for reading an accepted run of a computation in `Except` back: a sequence is accepted
when its parts are (`bind_ok`), and a check passes when its condition is off
(`refuseIf_ok`). A loop keeps what each step keeps (`foldlM_rows`), and returns when every step
does (`foldlM_returns`).
-/

namespace ProtomoltSearch

open List Except

universe u

variable {ε : Type*} {α β : Type u}

/-- Refuse when the condition holds. -/
def refuseIf (c : Bool) (e : ε) : Except ε Unit := if c then .error e else .ok ()

@[simp] lemma refuseIf_ok {c : Bool} {e : ε} {u : Unit} : refuseIf c e = .ok u ↔ c = false := by
  cases c <;> simp [refuseIf]

@[simp] lemma refuseIf_false (e : ε) : refuseIf false e = .ok () := rfl

@[simp] lemma refuseIf_true (e : ε) : refuseIf true e = .error e := rfl

/-- The value, or a refusal when there is none. -/
def okOr (x : Option α) (e : ε) : Except ε α :=
  match x with
  | none => .error e
  | some a => .ok a

@[simp] lemma okOr_ok {x : Option α} {e : ε} {a : α} : okOr x e = .ok a ↔ x = some a := by
  cases x <;> simp [okOr]

@[simp] lemma okOr_eq_error {x : Option α} {e e' : ε} :
    okOr x e = .error e' ↔ x = none ∧ e = e' := by
  cases x <;> simp [okOr]

variable {x : Except ε α}

section

variable {γ δ : Type u} {f : α → Except ε β}

/-- A sequence is accepted when its parts are. -/
lemma bind_ok {b : β} : (x >>= f) = .ok b ↔ ∃ a, x = .ok a ∧ f a = .ok b := by
  cases x with
  | error e => exact ⟨fun h => (nomatch h), fun ⟨a, h, _⟩ => (nomatch h)⟩
  | ok a => exact ⟨fun h => ⟨a, rfl, h⟩, fun ⟨a', ha, h⟩ => by cases ha; exact h⟩

lemma rest_ok {b : β} (h : (x >>= f) = .ok b) :
    ∃ a, f a = .ok b := (bind_ok.1 h).imp fun _ => And.right

lemma rest₂_ok {y : α → Except ε γ} {f : α → γ → Except ε β} {b : β}
    (h : (x >>= fun a => y a >>= f a) = .ok b) : ∃ a c, f a c = .ok b :=
  (rest_ok h).imp fun _ => rest_ok

lemma bind₂_ok {y : α → Except ε γ} {g : α → γ → Except ε β} {b : β} :
    (x >>= fun a => y a >>= g a) = .ok b ↔ ∃ a, x = .ok a ∧ ∃ c, y a = .ok c ∧ g a c = .ok b :=
  bind_ok.trans (exists_congr fun _ => and_congr_right fun _ => bind_ok)

lemma bind₃_ok {y : α → Except ε γ} {z : α → γ → Except ε δ} {g : α → γ → δ → Except ε β}
    {b : β} : (x >>= fun a => y a >>= fun c => z a c >>= g a c) = .ok b ↔
      ∃ a, x = .ok a ∧ ∃ c, y a = .ok c ∧ ∃ d, z a c = .ok d ∧ g a c d = .ok b :=
  bind_ok.trans (exists_congr fun _ => and_congr_right fun _ => bind₂_ok)

/-- What a sequence is refused with, one of its parts is. -/
lemma bind_eq_error {e : ε} :
    (x >>= f) = .error e ↔ x = .error e ∨ ∃ a, x = .ok a ∧ f a = .error e := by
  cases x with
  | error e' =>
    refine ⟨fun h => .inl (congrArg _ (error.inj h)), ?_⟩
    rintro (h | ⟨a, h, -⟩)
    · exact congrArg _ (error.inj h)
    · cases h
  | ok a =>
    refine ⟨fun h => .inr ⟨a, rfl, h⟩, ?_⟩
    rintro (h | ⟨a', h, hf⟩)
    · cases h
    · cases h
      exact hf

end

lemma check_bind_ok {x : Except ε PUnit} {f : PUnit → Except ε β} {b : β} :
    (x >>= f) = .ok b ↔ x = .ok ⟨⟩ ∧ f ⟨⟩ = .ok b :=
  bind_ok.trans ⟨fun ⟨_, hx, hf⟩ => ⟨hx, hf⟩, fun ⟨hx, hf⟩ => ⟨⟨⟩, hx, hf⟩⟩

lemma map_ok {f : α → β} {b : β} : x.map f = .ok b ↔ ∃ a, x = .ok a ∧ f a = b := by
  cases x with
  | error e => exact ⟨fun h => (nomatch h), fun ⟨_, h, _⟩ => (nomatch h)⟩
  | ok a => exact ⟨fun h => ⟨a, rfl, ok.inj h⟩, fun ⟨_, ha, h⟩ => by cases ha; exact congrArg _ h⟩

lemma exists_eq_error_iff : (∃ e, x = .error e) ↔ ∀ a, x ≠ .ok a := by
  cases x with
  | error e => exact iff_of_true ⟨e, rfl⟩ fun a h => nomatch h
  | ok a => exact iff_of_false (fun ⟨e, h⟩ => nomatch h) fun h => h a rfl

lemma pure_ok {a b : α} : (pure a : Except ε α) = .ok b ↔ a = b :=
  ⟨fun h => ok.inj h, fun h => congrArg _ h⟩

@[simp] lemma ok_bind (a : α) (f : α → Except ε β) : (Except.ok a >>= f) = f a := rfl

@[simp] lemma error_bind (e : ε) (f : α → Except ε β) : (Except.error e >>= f) = .error e := rfl

variable {γ : Type*} {f : γ → Except ε α} {l : List γ}

lemma mapM_ok {a : γ → α} (h : ∀ x ∈ l, f x = .ok (a x)) : l.mapM f = .ok (l.map a) := by
  induction l with
  | nil => rfl
  | cons x l ih =>
    rw [mapM_cons, h x mem_cons_self, ih fun x hx => h x (mem_cons_of_mem _ hx)]
    rfl

variable {r : List α}

lemma mapM_cons_ok {x : γ} :
    (x :: l).mapM f = .ok r ↔ ∃ y ys, f x = .ok y ∧ l.mapM f = .ok ys ∧ r = y :: ys := by
  rw [mapM_cons]
  constructor
  · intro h
    obtain ⟨y, hy, h⟩ := bind_ok.1 h
    obtain ⟨ys, hys, h⟩ := bind_ok.1 h
    exact ⟨y, ys, hy, hys, (ok.inj h).symm⟩
  · rintro ⟨y, ys, hy, hys, rfl⟩
    rw [hy, hys]
    rfl

/-- A traversal returns what a traversal whose steps return more often does. -/
lemma mapM_ok_mono {ε' γ : Type*} {f : γ → Except ε α} {g : γ → Except ε' α} {l : List γ}
    (h : ∀ x ∈ l, ∀ y, f x = .ok y → g x = .ok y) (hf : l.mapM f = .ok r) : l.mapM g = .ok r := by
  induction l generalizing r with
  | nil =>
    obtain rfl := ok.inj hf
    rfl
  | cons x l ih =>
    obtain ⟨y, ys, hy, hys, rfl⟩ := mapM_cons_ok.1 hf
    exact mapM_cons_ok.2 ⟨y, ys, h x mem_cons_self y hy,
      ih (fun x hx => h x (mem_cons_of_mem _ hx)) hys, rfl⟩

lemma mapM_returns_iff : (∃ r, l.mapM f = .ok r) ↔ ∀ x ∈ l, ∃ y, f x = .ok y := by
  induction l with
  | nil => exact ⟨fun _ x hx => absurd hx not_mem_nil, fun _ => ⟨[], rfl⟩⟩
  | cons x l ih =>
    rw [forall_mem_cons, ← ih]
    constructor
    · rintro ⟨r, hr⟩
      obtain ⟨y, ys, hy, hys, -⟩ := mapM_cons_ok.1 hr
      exact ⟨⟨y, hy⟩, ys, hys⟩
    · rintro ⟨⟨y, hy⟩, ys, hys⟩
      exact ⟨y :: ys, mapM_cons_ok.2 ⟨y, ys, hy, hys, rfl⟩⟩

/-- What a traversal is refused with, one of its steps is. -/
lemma mapM_eq_error {e : ε} (h : l.mapM f = .error e) : ∃ x ∈ l, f x = .error e := by
  induction l with
  | nil => cases h
  | cons x l ih =>
    rw [mapM_cons] at h
    rcases bind_eq_error.1 h with hx | ⟨y, -, h⟩
    · exact ⟨x, mem_cons_self, hx⟩
    · rcases bind_eq_error.1 h with hl | ⟨ys, -, h⟩
      · obtain ⟨z, hz, hf⟩ := ih hl
        exact ⟨z, mem_cons_of_mem _ hz, hf⟩
      · cases h

lemma mapM_getElem? (h : l.mapM f = .ok r) :
    r.length = l.length ∧ ∀ (i : ℕ) y, r[i]? = some y → ∃ x, l[i]? = some x ∧ f x = .ok y := by
  induction l generalizing r with
  | nil =>
    obtain rfl := ok.inj h
    exact ⟨rfl, fun i y hy => nomatch hy⟩
  | cons x l ih =>
    obtain ⟨y, ys, hy, hys, rfl⟩ := mapM_cons_ok.1 h
    obtain ⟨hlen, hget⟩ := ih hys
    refine ⟨congrArg (· + 1) hlen, fun i z hz => ?_⟩
    cases i with
    | zero =>
      obtain rfl : y = z := by simpa using hz
      exact ⟨x, rfl, hy⟩
    | succ i => exact hget i z hz

lemma forM_ok {f : γ → Except ε PUnit} {l : List γ} {r : PUnit} :
    l.forM f = .ok r ↔ ∀ x ∈ l, f x = .ok ⟨⟩ := by
  induction l with
  | nil => exact ⟨fun _ x hx => absurd hx not_mem_nil, fun _ => rfl⟩
  | cons x l ih =>
    rw [forM_eq_forM, forM_cons, bind_ok, forall_mem_cons, ← ih, forM_eq_forM]
    exact ⟨fun ⟨_, hx, hl⟩ => ⟨hx, hl⟩, fun ⟨hx, hl⟩ => ⟨⟨⟩, hx, hl⟩⟩

section

variable {ρ γ σ : Type*} {f : σ → γ → Except ε σ} {rows : γ → List ρ} {I : σ → List ρ → Prop}
  {l : List γ} {s s' : σ}

lemma foldlM_cons_ok {x : γ} :
    (x :: l).foldlM f s = .ok s' ↔ ∃ t, f s x = .ok t ∧ l.foldlM f t = .ok s' := by
  rw [foldlM_cons]
  cases h : f s x with
  | error e => exact ⟨fun h => (nomatch h), fun ⟨t, h, _⟩ => (nomatch h)⟩
  | ok t => exact ⟨fun h => ⟨t, rfl, h⟩, fun ⟨t', ht, h⟩ => by cases ht; exact h⟩

lemma foldlM_steps (hf : l.foldlM f s = .ok s') : ∀ x ∈ l, ∃ t t', f t x = .ok t' := by
  induction l generalizing s with
  | nil => exact fun x hx => absurd hx not_mem_nil
  | cons x l ih =>
    obtain ⟨t, ht, hl⟩ := foldlM_cons_ok.1 hf
    exact forall_mem_cons.2 ⟨⟨s, t, ht⟩, ih hl⟩

/-- A loop returns what a loop whose steps return more often does. -/
lemma foldlM_ok_mono {ε' : Type*} {g : σ → γ → Except ε' σ}
    (h : ∀ x ∈ l, ∀ s t, f s x = .ok t → g s x = .ok t)
    (hf : l.foldlM f s = .ok s') : l.foldlM g s = .ok s' := by
  induction l generalizing s with
  | nil =>
    obtain rfl := ok.inj hf
    rfl
  | cons x l ih =>
    obtain ⟨t, ht, hl⟩ := foldlM_cons_ok.1 hf
    exact foldlM_cons_ok.2 ⟨t, h x mem_cons_self s t ht,
      ih (fun y hy => h y (mem_cons_of_mem _ hy)) hl⟩

/-- **What every step keeps, the loop keeps.** The invariant is indexed by the rows added so far. -/
theorem foldlM_rows (step : ∀ x ∈ l, ∀ s t done, I s done → f s x = .ok t → I t (done ++ rows x))
    {done : List ρ} (hI : I s done) (hf : l.foldlM f s = .ok s') : I s' (done ++ l.flatMap rows) := by
  induction l generalizing s done with
  | nil =>
    obtain rfl := ok.inj hf
    rwa [flatMap_nil, append_nil]
  | cons x l ih =>
    obtain ⟨t, ht, hl⟩ := foldlM_cons_ok.1 hf
    rw [flatMap_cons, ← append_assoc]
    exact ih (fun y hy => step y (mem_cons_of_mem _ hy)) (step x mem_cons_self s t done hI ht) hl

/-- What every accepted step keeps, the run keeps. -/
lemma foldlM_inv {P : σ → Prop} (step : ∀ x ∈ l, ∀ s t, P s → f s x = .ok t → P t) (hs : P s)
    (hf : l.foldlM f s = .ok s') : P s' := by
  induction l generalizing s with
  | nil =>
    obtain rfl := ok.inj hf
    exact hs
  | cons x l ih =>
    obtain ⟨t, ht, hl⟩ := foldlM_cons_ok.1 hf
    exact ih (fun y hy => step y (mem_cons_of_mem _ hy)) (step x mem_cons_self s t hs ht) hl

/-- A loop whose every step returns and keeps an invariant. -/
lemma foldlM_keeps {P : σ → Prop} (step : ∀ x ∈ l, ∀ s, P s → ∃ t, f s x = .ok t ∧ P t)
    (hs : P s) : ∃ t, l.foldlM f s = .ok t ∧ P t := by
  induction l generalizing s with
  | nil => exact ⟨s, rfl, hs⟩
  | cons x l ih =>
    obtain ⟨t, ht, hP⟩ := step x mem_cons_self s hs
    obtain ⟨u, hu, hPu⟩ := ih (fun y hy => step y (mem_cons_of_mem _ hy)) hP
    exact ⟨u, foldlM_cons_ok.2 ⟨t, ht, hu⟩, hPu⟩

/-- A loop returns when every step does, while the rows added so far are admissible. -/
lemma foldlM_returns {C : List ρ → Prop} (hC : ∀ {a b}, C (a ++ b) → C a)
    (step : ∀ x ∈ l, ∀ s t done, I s done → f s x = .ok t → I t (done ++ rows x))
    (returns : ∀ x ∈ l, ∀ s done, I s done → C (done ++ rows x) → ∃ t, f s x = .ok t)
    {done : List ρ} (hI : I s done) (hc : C (done ++ l.flatMap rows)) :
    ∃ s', l.foldlM f s = .ok s' := by
  induction l generalizing s done with
  | nil => exact ⟨s, rfl⟩
  | cons x l ih =>
    rw [flatMap_cons, ← append_assoc] at hc
    obtain ⟨t, ht⟩ := returns x mem_cons_self s done hI (hC hc)
    obtain ⟨s', hs'⟩ := ih (fun y hy => step y (mem_cons_of_mem _ hy))
      (fun y hy => returns y (mem_cons_of_mem _ hy)) (step x mem_cons_self s t done hI ht) hc
    exact ⟨s', foldlM_cons_ok.2 ⟨t, ht, hs'⟩⟩

/-- A loop over distinct items keeps what a step with a new item keeps, and returns if those do. -/
lemma foldlM_distinct {J : σ → List γ → Prop} {Q : Prop} (hl : l.Nodup)
    (step : ∀ x ∈ l, ∀ s t done, x ∉ done → J s done → f s x = .ok t → J t (done ++ [x]))
    (returns : ∀ x ∈ l, ∀ s done, x ∉ done → J s done → Q → ∃ t, f s x = .ok t) (hJ : J s []) :
    (∀ s', l.foldlM f s = .ok s' → J s' l) ∧ (Q → ∃ s', l.foldlM f s = .ok s') := by
  have hstep : ∀ x ∈ l, ∀ s t done, (done.Nodup → J s done) → f s x = .ok t →
      (done ++ [x]).Nodup → J t (done ++ [x]) := by
    intro x hx s t done hs ht hnd
    obtain ⟨hdone, -, hdisj⟩ := nodup_append.1 hnd
    exact step x hx s t done (fun hmem => hdisj x hmem x (mem_singleton_self x) rfl) (hs hdone) ht
  constructor
  · intro s' hs'
    have hrun : ([] ++ l.flatMap fun x => [x]).Nodup → J s' ([] ++ l.flatMap fun x => [x]) :=
      foldlM_rows hstep (fun _ => hJ) hs'
    rw [flatMap_singleton'] at hrun
    exact hrun hl
  · intro hQ
    refine foldlM_returns (C := List.Nodup) (fun h => (nodup_append.1 h).1) hstep
      (fun x hx s done hs hnd => ?_) (fun _ => hJ) ?_
    · obtain ⟨hdone, -, hdisj⟩ := nodup_append.1 hnd
      exact returns x hx s done (fun hmem => hdisj x hmem x (mem_singleton_self x) rfl)
        (hs hdone) hQ
    · rwa [nil_append, flatMap_singleton']

end

lemma mapError_ok {ε ε' α : Type} {f : ε → ε'} {x : Except ε α} {a : α} :
    x.mapError f = .ok a ↔ x = .ok a := by
  cases x <;> simp [Except.mapError]

end ProtomoltSearch
