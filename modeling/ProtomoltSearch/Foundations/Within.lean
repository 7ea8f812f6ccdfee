import ProtomoltSearch.Foundations.Refusals

/-!
# Computations that may be refused for some reasons only

`Within T Q x`: the computation `x` returns a value with `Q`, or is refused with an error that `T`
allows. A sequence is within what its parts are (`Within.bind`), and a loop keeps an invariant that is
indexed by the items it has gone through (`within_foldlM`).
-/

namespace ProtomoltSearch

variable {ε α β : Type} {T : ε → Prop} {P Q : α → Prop} {x : Except ε α}

/-- The computation returns a value with `Q`, or is refused with an error that is allowed. -/
def Within (T : ε → Prop) (Q : α → Prop) (x : Except ε α) : Prop :=
  match x with
  | .ok a => Q a
  | .error e => T e

lemma within_ok {a : α} (h : Q a) : Within T Q (.ok a) := h

lemma within_pure {a : α} (h : Q a) : Within T Q (pure a) := h

lemma Within.mono (h : Within T P x) (hPQ : ∀ a, P a → Q a) : Within T Q x := by
  cases x with
  | error e => exact h
  | ok a => exact hPQ a h

lemma Within.bind {R : β → Prop} {f : α → Except ε β} (h : Within T Q x)
    (hf : ∀ a, Q a → Within T R (f a)) : Within T R (x >>= f) := by
  cases x with
  | error e => exact h
  | ok a => exact hf a h

section

variable {c : Bool} {e : ε} {f : Unit → Except ε α}

lemma within_check (hc : c = false) (hf : Within T Q (f ())) :
    Within T Q (refuseIf c e >>= f) := by
  rw [hc]
  exact hf

lemma within_allowed (hc : c = true → T e) (hf : c = false → Within T Q (f ())) :
    Within T Q (refuseIf c e >>= f) := by
  cases c with
  | false => exact hf rfl
  | true => exact hc rfl

end

lemma within_okOr {o : Option α} {e : ε} (h : o = none → T e) :
    Within T (fun a => o = some a) (okOr o e) := by
  cases o with
  | none => exact h rfl
  | some a => exact rfl

lemma within_step {y : Except ε β} {b : β} {f : β → Except ε α} (hy : y = .ok b)
    (hf : Within T Q (f b)) : Within T Q (y >>= f) := by
  rw [hy]
  exact hf

/-- **A loop keeps what its steps keep**, or is refused as they are. -/
theorem within_foldlM {γ σ : Type} {I : List γ → σ → Prop} {f : σ → γ → Except ε σ} {l : List γ}
    {s : σ} (init : I [] s)
    (step : ∀ done a rest s, l = done ++ a :: rest → I done s → Within T (I (done ++ [a])) (f s a)) :
    Within T (I l) (l.foldlM f s) := by
  suffices h : ∀ done rest s, l = done ++ rest → I done s → Within T (I l) (rest.foldlM f s) from
    h [] l s rfl init
  intro done rest
  induction rest generalizing done with
  | nil =>
    intro s hl hI
    rw [List.append_nil] at hl
    exact hl ▸ hI
  | cons a rest ih =>
    intro s hl hI
    rw [List.foldlM_cons]
    have hstep := step done a rest s hl hI
    cases hf : f s a with
    | error e =>
      rw [hf] at hstep
      exact hstep
    | ok t =>
      rw [hf] at hstep
      exact ih (done ++ [a]) t (by rw [hl, List.append_assoc]; rfl) hstep

end ProtomoltSearch
