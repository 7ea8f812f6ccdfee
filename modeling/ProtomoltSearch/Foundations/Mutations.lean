import Mathlib.Tactic.Common

/-!
# Methods that change a store

A method reads and changes a store and may return an error; what it has changed by then stays. A
method that makes all its checks before its first change leaves the store as it was when it is refused
(`Clean.check`, `Sure.clean`).
-/

namespace ProtomoltSearch.Mutations

variable {ε σ α β : Type} {m : EStateM ε σ α} {f : α → EStateM ε σ β} {s t : σ} {a a' : α} {b : β}

/-! ## What a method returns -/

lemma run_bind : (m >>= f) s = .ok b t ↔ ∃ a u, m s = .ok a u ∧ f a u = .ok b t := by
  change EStateM.bind m f s = _ ↔ _
  unfold EStateM.bind
  cases m s <;> simp

lemma run_pure : (pure a : EStateM ε σ α) s = .ok a' t ↔ a = a' ∧ s = t := by
  change EStateM.Result.ok a s = _ ↔ _
  simp

lemma run_get {u : σ} : (get : EStateM ε σ σ) s = .ok t u ↔ s = t ∧ s = u := by
  change EStateM.Result.ok s s = _ ↔ _
  simp

lemma run_modify {g : σ → σ} {u : PUnit} :
    (modify g : EStateM ε σ PUnit) s = .ok u t ↔ g s = t := by
  change EStateM.Result.ok _ (g s) = _ ↔ _
  simp

lemma run_ofExcept {x : Except ε α} :
    (ofExcept x : EStateM ε σ α) s = .ok a t ↔ x = .ok a ∧ s = t := by
  cases x with
  | error e => exact ⟨nofun, nofun⟩
  | ok b => exact run_pure.trans (by simp)

lemma run_adaptExcept {ε' : Type} {g : ε → ε'} : m.adaptExcept g s = .ok a t ↔ m s = .ok a t := by
  unfold EStateM.adaptExcept
  cases m s <;> simp

lemma run_forM_cons {f : α → EStateM ε σ PUnit} {l : List α} {u : PUnit} :
    (a :: l).forM f s = .ok u t ↔ ∃ v w, f a s = .ok v w ∧ l.forM f w = .ok u t :=
  run_bind

/-! ## Methods that are refused before they change anything -/

/-- A method that is refused has changed nothing. -/
def Clean (m : EStateM ε σ α) : Prop := ∀ s e t, m s = .error e t → t = s

/-- A method that is never refused. -/
def Sure (m : EStateM ε σ α) : Prop := ∀ s e t, m s ≠ .error e t

lemma Sure.clean (h : Sure m) : Clean m := fun s e t he => absurd he (h s e t)

lemma error_of_bind {e : ε} (h : (m >>= f) s = .error e t) :
    m s = .error e t ∨ ∃ a u, m s = .ok a u ∧ f a u = .error e t := by
  change EStateM.bind m f s = _ at h
  unfold EStateM.bind at h
  cases hm : m s with
  | ok a u => exact .inr ⟨a, u, rfl, by simpa [hm] using h⟩
  | error e' u => exact .inl (by simpa [hm] using h)

lemma Clean.get {f : σ → EStateM ε σ β} (hf : ∀ a, Clean (f a)) : Clean (get >>= f) :=
  fun s => hf s s

lemma Clean.check {x : Except ε α} (hf : ∀ a, Clean (f a)) : Clean (ofExcept x >>= f) := by
  cases x with
  | ok a => exact hf a
  | error e =>
    rintro s e' t ⟨⟩
    rfl

lemma Clean.then (hm : Clean m) (hf : ∀ a, Sure (f a)) : Clean (m >>= f) := by
  intro s e t h
  rcases error_of_bind h with h | ⟨a, u, -, h⟩
  · exact hm s e t h
  · exact absurd h (hf a u e t)

lemma Sure.bind (hm : Sure m) (hf : ∀ a, Sure (f a)) : Sure (m >>= f) := by
  intro s e t h
  rcases error_of_bind h with h | ⟨a, u, -, h⟩
  · exact hm s e t h
  · exact hf a u e t h

lemma sure_pure : Sure (pure a : EStateM ε σ α) := fun _ _ _ h => nomatch h

lemma sure_modify {g : σ → σ} : Sure (modify g : EStateM ε σ PUnit) := fun _ _ _ h => nomatch h

end ProtomoltSearch.Mutations
