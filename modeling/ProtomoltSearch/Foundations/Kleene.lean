import Mathlib

/-!
# Kleene's three-valued logic

Three truth values ordered `false < unknown < true`; conjunction is the minimum, disjunction the
maximum, and negation swaps the ends. `all` and `any` fold a whole list; the loops `allFrom` and
`anyFrom` stop at the first deciding value, which cannot be seen in the result.
-/

namespace ProtomoltSearch

/-- A Kleene truth value. -/
inductive Tri where
  | false
  | unknown
  | true
  deriving DecidableEq, Repr

namespace Tri

/-- The truth value of a decided test. -/
def ofBool (b : Bool) : Tri := if b then .true else .false

/-- Conjunction: the minimum. -/
def and : Tri → Tri → Tri
  | .false, _ => .false
  | _, .false => .false
  | .unknown, _ => .unknown
  | _, .unknown => .unknown
  | .true, .true => .true

/-- Disjunction: the maximum. -/
def or : Tri → Tri → Tri
  | .true, _ => .true
  | _, .true => .true
  | .unknown, _ => .unknown
  | _, .unknown => .unknown
  | .false, .false => .false

/-- Negation: an unknown value stays unknown. -/
def not : Tri → Tri
  | .true => .false
  | .false => .true
  | .unknown => .unknown

/-- Conjunction of a list. -/
def all (vs : List Tri) : Tri := vs.foldr Tri.and .true

/-- Disjunction of a list. -/
def any (vs : List Tri) : Tri := vs.foldr Tri.or .false

/-- The conjunction loop: the first `false` ends it. -/
def allFrom (acc : Tri) : List Tri → Tri
  | [] => acc
  | .false :: _ => .false
  | v :: vs => allFrom (acc.and v) vs

/-- The disjunction loop: the first `true` ends it. -/
def anyFrom (acc : Tri) : List Tri → Tri
  | [] => acc
  | .true :: _ => .true
  | v :: vs => anyFrom (acc.or v) vs

@[simp] lemma ofBool_eq_true {b : Bool} : ofBool b = .true ↔ b = Bool.true := by
  cases b <;> simp [ofBool]

lemma and_eq_true {a b : Tri} : a.and b = .true ↔ a = .true ∧ b = .true := by
  cases a <;> cases b <;> simp [and]

lemma or_eq_true {a b : Tri} : a.or b = .true ↔ a = .true ∨ b = .true := by
  cases a <;> cases b <;> simp [or]

lemma and_assoc (a b c : Tri) : (a.and b).and c = a.and (b.and c) := by
  cases a <;> cases b <;> cases c <;> rfl

lemma or_assoc (a b c : Tri) : (a.or b).or c = a.or (b.or c) := by
  cases a <;> cases b <;> cases c <;> rfl

variable (a : Tri)

@[simp] lemma and_true : a.and .true = a := by cases a <;> rfl

@[simp] lemma true_and : Tri.and .true a = a := by cases a <;> rfl

@[simp] lemma and_false : a.and .false = .false := by cases a <;> rfl

@[simp] lemma false_and : Tri.and .false a = .false := by cases a <;> rfl

@[simp] lemma or_false : a.or .false = a := by cases a <;> rfl

@[simp] lemma false_or : Tri.or .false a = a := by cases a <;> rfl

@[simp] lemma or_true : a.or .true = .true := by cases a <;> rfl

@[simp] lemma true_or : Tri.or .true a = .true := by cases a <;> rfl

@[simp] lemma all_nil : all [] = .true := rfl

@[simp] lemma all_cons (v : Tri) (vs : List Tri) : all (v :: vs) = v.and (all vs) := rfl

@[simp] lemma any_nil : any [] = .false := rfl

@[simp] lemma any_cons (v : Tri) (vs : List Tri) : any (v :: vs) = v.or (any vs) := rfl

lemma all_eq_true {vs : List Tri} : all vs = .true ↔ ∀ v ∈ vs, v = .true := by
  induction vs with
  | nil => simp
  | cons v vs ih => simp [and_eq_true, ih]

lemma any_eq_true {vs : List Tri} : any vs = .true ↔ ∃ v ∈ vs, v = .true := by
  induction vs with
  | nil => simp
  | cons v vs ih => rw [any_cons, or_eq_true, ih, List.exists_mem_cons_iff]

/-- **Ending the conjunction loop early cannot be seen in its result.** -/
theorem allFrom_eq (acc : Tri) (vs : List Tri) : allFrom acc vs = acc.and (all vs) := by
  induction vs generalizing acc with
  | nil => simp [allFrom]
  | cons v vs ih =>
    cases v with
    | false => simp [allFrom]
    | unknown | true => rw [allFrom, ih, and_assoc, all_cons]; simp

/-- **Ending the disjunction loop early cannot be seen in its result.** -/
theorem anyFrom_eq (acc : Tri) (vs : List Tri) : anyFrom acc vs = acc.or (any vs) := by
  induction vs generalizing acc with
  | nil => simp [anyFrom]
  | cons v vs ih =>
    cases v with
    | true => simp [anyFrom]
    | unknown | false => rw [anyFrom, ih, or_assoc, any_cons]; simp

end Tri

end ProtomoltSearch
