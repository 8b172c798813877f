import Mathlib.Logic.Basic

/-!
# Labelled transition systems

A system whose labels determine the successor state. Safety is proved once
for reachable states and once for runs: `Always` speaks about every state a
run visits, `Each` about every step it takes. The two are related by a
step lemma only.
-/

namespace Library

universe u v

structure System (State : Type u) (Label : Type v) where
  initial : State → Prop
  enabled : State → Label → Prop
  next : State → Label → State

namespace System

variable {State : Type u} {Label : Type v} (system : System State Label)

inductive Reachable : State → Prop where
  | initial {state} : system.initial state → Reachable state
  | step {state label} : Reachable state → system.enabled state label →
      Reachable (system.next state label)

def run : State → List Label → State
  | state, [] => state
  | state, label :: rest => run (system.next state label) rest

/-- Every label is enabled where the run takes it. -/
def Runs : State → List Label → Prop
  | _, [] => True
  | state, label :: rest =>
      system.enabled state label ∧ Runs (system.next state label) rest

/-- Every state of the run satisfies `good`. -/
def Always (good : State → Prop) : State → List Label → Prop
  | state, [] => good state
  | state, label :: rest => good state ∧ Always good (system.next state label) rest

/-- Every step of the run is taken from a state where `allowed` holds of it. -/
def Each (allowed : State → Label → Prop) : State → List Label → Prop
  | _, [] => True
  | state, label :: rest =>
      allowed state label ∧ Each allowed (system.next state label) rest

instance decidableRuns [∀ state label, Decidable (system.enabled state label)] (state : State) :
    (labels : List Label) → Decidable (system.Runs state labels)
  | [] => .isTrue trivial
  | label :: rest =>
      have := decidableRuns (system.next state label) rest
      inferInstanceAs (Decidable (system.enabled state label ∧ _))

instance decidableEach (allowed : State → Label → Prop)
    [∀ state label, Decidable (allowed state label)] (state : State) :
    (labels : List Label) → Decidable (system.Each allowed state labels)
  | [] => .isTrue trivial
  | label :: rest =>
      have := decidableEach allowed (system.next state label) rest
      inferInstanceAs (Decidable (allowed state label ∧ _))

variable {system}

theorem Reachable.invariant {holds : State → Prop}
    (base : ∀ state, system.initial state → holds state)
    (preserved : ∀ state label, holds state → system.enabled state label →
      holds (system.next state label))
    {state : State} (reachable : system.Reachable state) : holds state := by
  induction reachable with
  | initial start => exact base _ start
  | step _ enabled inductionHypothesis =>
      exact preserved _ _ inductionHypothesis enabled

theorem Reachable.run {state : State} (reachable : system.Reachable state)
    {labels : List Label} (runs : system.Runs state labels) :
    system.Reachable (system.run state labels) := by
  induction labels generalizing state with
  | nil => exact reachable
  | cons label rest inductionHypothesis =>
      exact inductionHypothesis (reachable.step runs.1) runs.2

theorem Always.here {good : State → Prop} {state : State} {labels : List Label}
    (always : system.Always good state labels) : good state := by
  cases labels with
  | nil => exact always
  | cons label rest => exact always.1

theorem Always.final {good : State → Prop} {state : State} {labels : List Label}
    (always : system.Always good state labels) : good (system.run state labels) := by
  induction labels generalizing state with
  | nil => exact always
  | cons label rest inductionHypothesis => exact inductionHypothesis always.2

theorem Always.mono {strong weak : State → Prop} (imp : ∀ state, strong state → weak state)
    {state : State} {labels : List Label} (always : system.Always strong state labels) :
    system.Always weak state labels := by
  induction labels generalizing state with
  | nil => exact imp _ always
  | cons label rest inductionHypothesis =>
      exact ⟨imp _ always.1, inductionHypothesis always.2⟩

/-- A property every allowed step preserves holds along a run of allowed steps. -/
theorem always_of_each {good : State → Prop} {allowed : State → Label → Prop}
    (preserved : ∀ state label, good state → system.enabled state label →
      allowed state label → good (system.next state label))
    {state : State} {labels : List Label} (runs : system.Runs state labels)
    (start : good state) (each : system.Each allowed state labels) :
    system.Always good state labels := by
  induction labels generalizing state with
  | nil => exact start
  | cons label rest inductionHypothesis =>
      exact ⟨start, inductionHypothesis runs.2
        (preserved _ _ start runs.1 each.1) each.2⟩

/-- What every allowed step does from a state of the invariant, every step of a run of
allowed steps does. -/
theorem each_of_each {holds : State → Prop} {allowed good : State → Label → Prop}
    (step : ∀ state label, holds state → system.enabled state label → allowed state label →
      good state label ∧ holds (system.next state label))
    {state : State} {labels : List Label} (runs : system.Runs state labels)
    (start : holds state) (each : system.Each allowed state labels) :
    system.Each good state labels := by
  induction labels generalizing state with
  | nil => trivial
  | cons label rest inductionHypothesis =>
      obtain ⟨here, next⟩ := step _ _ start runs.1 each.1
      exact ⟨here, inductionHypothesis runs.2 next each.2⟩

/-- What holds as long as every state is good holds at the end of such a run. -/
theorem Always.holds_final {holds good : State → Prop}
    (preserved : ∀ state label, holds state → system.enabled state label →
      good (system.next state label) → holds (system.next state label))
    {state : State} {labels : List Label} (always : system.Always good state labels)
    (runs : system.Runs state labels) (start : holds state) :
    holds (system.run state labels) := by
  induction labels generalizing state with
  | nil => exact start
  | cons label rest inductionHypothesis =>
      exact inductionHypothesis always.2 runs.2
        (preserved _ _ start runs.1 always.2.here)

theorem Always.holds_final_of_each {holds good : State → Prop} {allowed : State → Label → Prop}
    (preserved : ∀ state label, holds state → system.enabled state label → allowed state label →
      good (system.next state label) → holds (system.next state label))
    {state : State} {labels : List Label} (always : system.Always good state labels)
    (each : system.Each allowed state labels) (runs : system.Runs state labels)
    (start : holds state) : holds (system.run state labels) := by
  induction labels generalizing state with
  | nil => exact start
  | cons label rest inductionHypothesis =>
      exact inductionHypothesis always.2 each.2 runs.2
        (preserved _ _ start runs.1 each.1 always.2.here)

/-- What a step keeps exactly when it is allowed is left at the end of a run exactly when
every step was. -/
theorem final_iff_each {holds good : State → Prop} {allowed : State → Label → Prop}
    (preserved : ∀ state label, holds state → system.enabled state label →
      holds (system.next state label))
    (exact_step : ∀ state label, holds state → system.enabled state label →
      (good (system.next state label) ↔ good state ∧ allowed state label))
    {state : State} {labels : List Label} (runs : system.Runs state labels)
    (invariant : holds state) :
    good (system.run state labels) ↔ good state ∧ system.Each allowed state labels := by
  induction labels generalizing state with
  | nil => exact ⟨fun last => ⟨last, trivial⟩, fun both => both.1⟩
  | cons label rest inductionHypothesis =>
      have step := exact_step state label invariant runs.1
      have tail := inductionHypothesis runs.2 (preserved state label invariant runs.1)
      constructor
      · intro last
        obtain ⟨middle, later⟩ := tail.mp last
        obtain ⟨here, first⟩ := step.mp middle
        exact ⟨here, first, later⟩
      · rintro ⟨here, first, later⟩
        exact tail.mpr ⟨step.mpr ⟨here, first⟩, later⟩

/-- A measure that goes down at each step that counts bounds the number of such steps,
in a run that stays good. -/
theorem countP_le_of_measure {good : State → Prop} {measure : State → Nat → Prop}
    {counts : Label → Bool}
    (down : ∀ state label value, measure state value → system.enabled state label →
      good state → good (system.next state label) →
      ∃ less, measure (system.next state label) less ∧
        less + (if counts label then 1 else 0) ≤ value)
    {state : State} {labels : List Label} (runs : system.Runs state labels)
    (always : system.Always good state labels) {value : Nat} (start : measure state value) :
    ∃ less, measure (system.run state labels) less ∧ less + labels.countP counts ≤ value := by
  induction labels generalizing state value with
  | nil => exact ⟨value, start, Nat.le_refl _⟩
  | cons label rest inductionHypothesis =>
      obtain ⟨middle, next, head⟩ := down state label value start runs.1 always.1 always.2.here
      obtain ⟨less, last, tail⟩ := inductionHypothesis runs.2 always.2 next
      refine ⟨less, last, ?_⟩
      rw [List.countP_cons]
      omega

/-- A property that survives a step exactly when the step is allowed holds in
every state of a run exactly when every step is allowed. -/
theorem always_iff_each {holds good : State → Prop} {allowed : State → Label → Prop}
    (preserved : ∀ state label, holds state → system.enabled state label →
      holds (system.next state label))
    (exact_step : ∀ state label, holds state → good state → system.enabled state label →
      (good (system.next state label) ↔ allowed state label))
    {state : State} {labels : List Label} (runs : system.Runs state labels)
    (invariant : holds state) (start : good state) :
    system.Always good state labels ↔ system.Each allowed state labels := by
  induction labels generalizing state with
  | nil => exact ⟨fun _ => trivial, fun _ => start⟩
  | cons label rest inductionHypothesis =>
      have step := exact_step state label invariant start runs.1
      have next := preserved state label invariant runs.1
      constructor
      · intro always
        have after := Always.here always.2
        exact ⟨step.mp after, (inductionHypothesis runs.2 next after).mp always.2⟩
      · intro each
        have after := step.mpr each.1
        exact ⟨start, (inductionHypothesis runs.2 next after).mpr each.2⟩

end System

end Library
