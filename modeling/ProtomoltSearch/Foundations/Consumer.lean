import ProtomoltSearch.Foundations.Refusals

/-!
# Loops over a queue

A consumer reads items from a queue until it has enough or refuses one. `loop` is the loop, with
the items it leaves, and `trace` is what the consumer has put out by the time it stops.
-/

namespace ProtomoltSearch.Consumer

universe u

variable {σ A S : Type u} {ε : Type*}
variable (step : σ → A → Except ε σ) (stop : σ → Bool)

/-- Read items until the state says stop; a queue that ends before that is refused. -/
def loop (ended : ε) : σ → List A → Except ε (σ × List A)
  | s, [] => if stop s then .ok (s, []) else .error ended
  | s, a :: rest =>
    if stop s then .ok (s, a :: rest)
    else do
      let s ← step s a
      loop ended s rest

/-- What has been put out once the loop has read these items. -/
def trace (out : σ → List S) : σ → List A → List S
  | s, [] => out s
  | s, a :: rest =>
    if stop s then out s
    else match step s a with
      | .error _ => out s
      | .ok s => trace out s rest

variable {step stop}

lemma loop_of_stop {ended : ε} {s : σ} (h : stop s = true) (l : List A) :
    loop step stop ended s l = .ok (s, l) := by
  cases l <;> simp [loop, h]

section

variable {s s' : σ} {a : A} (h : stop s = false) (hstep : step s a = .ok s') (rest : List A)

include h hstep

lemma loop_cons_of_ok {ended : ε} :
    loop step stop ended s (a :: rest) = loop step stop ended s' rest := by
  rw [loop, if_neg (by simp [h]), hstep, ok_bind]

lemma trace_cons_of_ok {out : σ → List S} :
    trace step stop out s (a :: rest) = trace step stop out s' rest := by
  rw [trace, if_neg (by simp [h]), hstep]

end

section

variable {out : σ → List S} (hout : ∀ s a s', step s a = .ok s' → out s ⊆ out s')
include hout

lemma out_subset_trace (s : σ) (l : List A) : out s ⊆ trace step stop out s l := by
  induction l generalizing s with
  | nil => exact List.Subset.refl _
  | cons a rest ih =>
    rw [trace]
    split
    · exact List.Subset.refl _
    · split
      · exact List.Subset.refl _
      · next s' hs => exact List.Subset.trans (hout s a s' hs) (ih s')

/-- **Reading on takes nothing back.** -/
theorem trace_subset_append (s : σ) (l more : List A) :
    trace step stop out s l ⊆ trace step stop out s (l ++ more) := by
  induction l generalizing s with
  | nil => exact out_subset_trace hout s more
  | cons a rest ih =>
    rw [List.cons_append, trace, trace]
    split
    · exact List.Subset.refl _
    · split
      · exact List.Subset.refl _
      · exact ih _

end

end ProtomoltSearch.Consumer
