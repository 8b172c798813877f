import Mathlib.Algebra.BigOperators.Group.Finset.Basic
import Zeos.Library.Transition

/-!
# Systems whose runs end

A measure that every step lowers bounds the length of every run. If only finished states
are stuck, then whatever was done so far, going on leads to a finished state.
-/

namespace Library

universe u v w

namespace System

variable {State : Type u} {Label : Type v} {system : System State Label}

def Stuck (system : System State Label) (state : State) : Prop :=
  ∀ label, ¬ system.enabled state label

/-- Every step goes down, and stays where the measure is known to. -/
structure Descends (system : System State Label) (holds : State → Prop) (measure : State → Nat) :
    Prop where
  kept : ∀ state label, holds state → system.enabled state label → holds (system.next state label)
  down : ∀ state label, holds state → system.enabled state label →
    measure (system.next state label) < measure state

variable {holds : State → Prop} {measure : State → Nat} {state : State} {labels : List Label}

theorem Descends.run (descends : system.Descends holds measure) (start : holds state)
    (runs : system.Runs state labels) :
    holds (system.run state labels) ∧
      labels.length + measure (system.run state labels) ≤ measure state := by
  induction labels generalizing state with
  | nil => exact ⟨start, Nat.le_of_eq (Nat.zero_add _)⟩
  | cons label rest inductionHypothesis =>
      obtain ⟨last, bound⟩ := inductionHypothesis (descends.kept _ _ start runs.1) runs.2
      have less := descends.down _ _ start runs.1
      refine ⟨last, ?_⟩
      simp only [List.length_cons, System.run]
      omega

/-- Whatever order the steps are taken in, they run out. -/
theorem Descends.exists_stuck (descends : system.Descends holds measure) (start : holds state) :
    ∃ labels, system.Runs state labels ∧ system.Stuck (system.run state labels) := by
  induction bound : measure state using Nat.strong_induction_on generalizing state with
  | _ value inductionHypothesis =>
      by_cases stuck : system.Stuck state
      · exact ⟨[], trivial, stuck⟩
      · simp only [Stuck, not_forall, not_not] at stuck
        obtain ⟨label, enabled⟩ := stuck
        obtain ⟨labels, runs, last⟩ := inductionHypothesis _
          (bound ▸ descends.down _ _ start enabled) (descends.kept _ _ start enabled) rfl
        exact ⟨label :: labels, ⟨enabled, runs⟩, last⟩

end System

theorem sum_update_add {Index : Type w} [Fintype Index] [DecidableEq Index] {State : Type u}
    (measure : State → Nat) (family : Index → State) (index : Index) (state : State) :
    (∑ place, measure (Function.update family index state place)) + measure (family index) =
      (∑ place, measure (family place)) + measure state := by
  have others : ∑ place ∈ Finset.univ.erase index,
      measure (Function.update family index state place) =
        ∑ place ∈ Finset.univ.erase index, measure (family place) := by
    refine Finset.sum_congr rfl fun place member => ?_
    rw [Function.update_of_ne (Finset.ne_of_mem_erase member)]
  have inside := Finset.mem_univ index
  rw [← Finset.sum_erase_add _ _ inside, ← Finset.sum_erase_add (Finset.univ) (fun place =>
    measure (family place)) inside, others, Function.update_self]
  omega

end Library
