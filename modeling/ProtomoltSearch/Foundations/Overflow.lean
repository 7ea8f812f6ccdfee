import ProtomoltSearch.Foundations.Numbers
import ProtomoltSearch.Foundations.Refusals

/-!
# Machine arithmetic

Plain operators on 64-bit integers panic when the result does not fit, if the build checks overflow,
and wrap around if it does not. The checked operators answer `none` in every build.
-/

namespace ProtomoltSearch

/-- How a call can fail to return: it refuses its input, or it panics. -/
inductive Failure (E : Type*) where
  | refused (e : E)
  | panicked
  deriving DecidableEq

abbrev refuse {E α : Type*} (e : E) : Except (Failure E) α := .error (.refused e)

namespace U64

/-- The integer modulo the width. -/
def wrap (x : ℕ) : U64 := ⟨x % 2 ^ 64, Nat.mod_lt _ (by positivity)⟩

lemma wrap_val {x : ℕ} (h : x < 2 ^ 64) : (wrap x).val = x := Nat.mod_eq_of_lt h

lemma val_injective : Function.Injective U64.val := fun a b h => by
  cases a
  cases b
  simp_all

@[simp] lemma wrap_val_self (a : U64) : wrap a.val = a := val_injective (wrap_val a.upper)

variable {E : Type*} (checks : Bool)

/-- The result of an operator whose exact value is `x`. -/
def exactly (x : ℕ) : Except (Failure E) U64 :=
  if checks && decide (2 ^ 64 ≤ x) then .error .panicked else .ok (wrap x)

def add (a b : U64) : Except (Failure E) U64 := exactly checks (a.val + b.val)

def mul (a b : U64) : Except (Failure E) U64 := exactly checks (a.val * b.val)

def sub (a b : U64) : Except (Failure E) U64 :=
  if checks && decide (a.val < b.val) then .error .panicked else .ok (wrap (a.val + 2 ^ 64 - b.val))

/-- A left shift. Only the width of the shift is checked; unchecked, it counts modulo 64. -/
def shl (a : U64) (s : ℕ) : Except (Failure E) U64 :=
  if checks && decide (64 ≤ s) then .error .panicked else .ok (wrap (a.val * 2 ^ (s % 64)))

/-- The integer, if it fits. -/
def ofNat? (x : ℕ) : Option U64 := if h : x < 2 ^ 64 then some ⟨x, h⟩ else none

def checkedAdd (a b : U64) : Option U64 := ofNat? (a.val + b.val)

def checkedMul (a b : U64) : Option U64 := ofNat? (a.val * b.val)

variable {checks} {a b : U64} {x s : ℕ}

lemma exactly_of_lt (h : x < 2 ^ 64) : (exactly checks x : Except (Failure E) U64) = .ok (wrap x) := by
  unfold exactly
  rw [decide_eq_false (not_le.2 h), Bool.and_false, if_neg Bool.false_ne_true]

lemma exactly_ok {r : U64} (h : (exactly checks x : Except (Failure E) U64) = .ok r) :
    r = wrap x := by
  unfold exactly at h
  split at h
  · cases h
  · exact (Except.ok.inj h).symm

/-- With checks, an operator returns exactly when its value fits. -/
lemma exactly_checked_ok {r : U64} :
    (exactly true x : Except (Failure E) U64) = .ok r ↔ x < 2 ^ 64 ∧ r = wrap x := by
  unfold exactly
  split
  · rename_i h
    exact iff_of_false (fun h' => nomatch h') fun h' => absurd (of_decide_eq_true h) (by omega)
  · rename_i h
    have hx : x < 2 ^ 64 := not_le.1 fun h' => h (decide_eq_true h')
    exact ⟨fun h' => ⟨hx, (Except.ok.inj h').symm⟩, fun h' => congrArg _ h'.2.symm⟩

lemma sub_of_le (h : b.val ≤ a.val) :
    ∃ r : U64, (sub checks a b : Except (Failure E) U64) = .ok r ∧ r.val = a.val - b.val := by
  refine ⟨wrap (a.val + 2 ^ 64 - b.val), ?_, ?_⟩
  · unfold sub
    rw [decide_eq_false (not_lt.2 h), Bool.and_false, if_neg Bool.false_ne_true]
  · have := a.upper
    simp only [wrap]
    omega

lemma shl_of_lt (hs : s < 64) (h : a.val * 2 ^ s < 2 ^ 64) :
    ∃ r : U64, (shl checks a s : Except (Failure E) U64) = .ok r ∧ r.val = a.val * 2 ^ s := by
  refine ⟨wrap (a.val * 2 ^ (s % 64)), ?_, ?_⟩
  · unfold shl
    rw [decide_eq_false (not_le.2 hs), Bool.and_false, if_neg Bool.false_ne_true]
  · rw [Nat.mod_eq_of_lt hs, wrap_val h]

lemma ofNat?_eq_some {r : U64} : ofNat? x = some r ↔ r.val = x := by
  unfold ofNat?
  split
  · rw [Option.some.injEq, ← val_injective.eq_iff]
    exact eq_comm
  · have := r.upper
    exact iff_of_false (fun h => nomatch h) (by omega)

end U64

end ProtomoltSearch
