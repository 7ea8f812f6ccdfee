import Mathlib

/-!
# Runs

A system is a step function on its states. A run is a list of actions, and meets a condition when
each of its actions meets it in the state the action is taken in. The induction over runs
(`run_past`, `run_history`) hands on the actions taken so far, or only an invariant (`run_keeps`).
-/

namespace ProtomoltSearch.Runs

variable {S A : Type*} (step : S → A → S)

/-- The state a run leads to. -/
def run (s : S) (actions : List A) : S := actions.foldl step s

/-- Every action of the run meets the condition in the state it is taken in. -/
def Meets (C : S → A → Prop) : S → List A → Prop
  | _, [] => True
  | s, a :: actions => C s a ∧ Meets C (step s a) actions

instance decidableMeets {C : S → A → Prop} [∀ s a, Decidable (C s a)] :
    ∀ s actions, Decidable (Meets step C s actions)
  | _, [] => isTrue trivial
  | s, a :: actions =>
    have : Decidable (Meets step C (step s a) actions) := decidableMeets _ actions
    inferInstanceAs (Decidable (C s a ∧ Meets step C (step s a) actions))

variable {step} {C : S → A → Prop} {s : S} {actions : List A}

lemma run_append (pre suf : List A) : run step s (pre ++ suf) = run step (run step s pre) suf :=
  List.foldl_append

@[simp] lemma run_snoc (a : A) : run step s (actions ++ [a]) = step (run step s actions) a :=
  run_append actions [a]

lemma meets_append {pre suf : List A} : Meets step C s (pre ++ suf) ↔
    Meets step C s pre ∧ Meets step C (run step s pre) suf := by
  induction pre generalizing s with
  | nil => exact (and_iff_right trivial).symm
  | cons a pre ih => exact (and_congr_right fun _ => ih).trans and_assoc.symm

lemma meets_snoc {a : A} : Meets step C s (actions ++ [a]) ↔
    Meets step C s actions ∧ C (run step s actions) a :=
  meets_append.trans (and_congr_right fun _ => and_iff_left trivial)

/-- **Induction over runs.** A statement of a run and the state it leads to holds of every run, if it
holds of the empty one and every action keeps it. -/
theorem run_past {I : List A → S → Prop} (init : I [] s)
    (next : ∀ past a, I past (run step s past) → I (past ++ [a]) (step (run step s past) a)) :
    I actions (run step s actions) := by
  induction actions using List.reverseRecOn with
  | nil => exact init
  | append_singleton past a ih =>
    rw [run_snoc]
    exact next past a ih

/-- The same of the runs that meet a condition, if an action that meets the condition keeps it. -/
lemma run_history {I : List A → S → Prop} (init : I [] s)
    (next : ∀ past a, I past (run step s past) → C (run step s past) a →
      I (past ++ [a]) (step (run step s past) a))
    (h : Meets step C s actions) : I actions (run step s actions) := by
  refine run_past (I := fun past state => Meets step C s past → I past state) (fun _ => init)
    (fun past a ih h => ?_) h
  obtain ⟨hpast, ha⟩ := meets_snoc.1 h
  exact next past a (ih hpast) ha

/-- **What every action that meets the condition keeps, the run keeps.** -/
theorem run_keeps {I : S → Prop} (init : I s) (next : ∀ s a, I s → C s a → I (step s a))
    (h : Meets step C s actions) : I (run step s actions) :=
  run_history (I := fun _ => I) init (fun _ a => next _ a) h

lemma meets_of_forall {C : A → Prop} (h : ∀ a ∈ actions, C a) :
    Meets step (fun _ => C) s actions := by
  induction actions generalizing s with
  | nil => trivial
  | cons a actions ih =>
    obtain ⟨ha, h⟩ := List.forall_mem_cons.1 h
    exact ⟨ha, ih h⟩

end ProtomoltSearch.Runs
