import Zeos.Library.Transition

/-!
# Refinement of systems

A step of the concrete system tells a list of steps of the abstract one, which
its state and label determine: none where nothing happens that the abstract
system knows of.
-/

namespace Library

universe u v w x

namespace System

variable {State : Type u} {Label : Type v} {Image : Type w} {Action : Type x}

def told (system : System State Label) (tells : State → Label → List Action) :
    State → List Label → List Action
  | _, [] => []
  | state, label :: rest => tells state label ++ told system tells (system.next state label) rest

/-- Whatever the concrete system does, the abstract one may do. -/
structure Refines (concrete : System State Label) (abstract : System Image Action)
    (tells : State → Label → List Action) (related : State → Image → Prop) : Prop where
  start : ∀ state, concrete.initial state → ∃ image, abstract.initial image ∧ related state image
  step : ∀ {state image} label, related state image → concrete.enabled state label →
    abstract.Runs image (tells state label) ∧
      related (concrete.next state label) (abstract.run image (tells state label))

variable {concrete : System State Label} {abstract : System Image Action}
  {tells : State → Label → List Action} {related : State → Image → Prop}

theorem run_append (system : System State Label) (state : State) (first second : List Label) :
    system.run state (first ++ second) = system.run (system.run state first) second := by
  induction first generalizing state with
  | nil => rfl
  | cons label rest inductionHypothesis => exact inductionHypothesis (system.next state label)

theorem Runs.append {state : State} {first second : List Label} (one : concrete.Runs state first)
    (other : concrete.Runs (concrete.run state first) second) :
    concrete.Runs state (first ++ second) := by
  induction first generalizing state with
  | nil => exact other
  | cons label rest inductionHypothesis => exact ⟨one.1, inductionHypothesis one.2 other⟩

theorem Refines.run (refines : Refines concrete abstract tells related) {state : State}
    {image : Image} {labels : List Label} (start : related state image)
    (runs : concrete.Runs state labels) :
    abstract.Runs image (concrete.told tells state labels) ∧
      related (concrete.run state labels)
        (abstract.run image (concrete.told tells state labels)) := by
  induction labels generalizing state image with
  | nil => exact ⟨trivial, start⟩
  | cons label rest inductionHypothesis =>
      obtain ⟨goes, next⟩ := refines.step label start runs.1
      obtain ⟨later, last⟩ := inductionHypothesis next runs.2
      refine ⟨goes.append later, ?_⟩
      rw [told, run_append]
      exact last

end System

end Library
