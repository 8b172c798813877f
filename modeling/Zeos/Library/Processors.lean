import Mathlib.Logic.Function.Basic
import Zeos.Library.Refinement

/-!
# A processor for each process

What a system with one processor gives its processes: each has registers of its own.
They change by what the process computes, by its calls and by the answers to them, and
by nothing else. A child is made in a call of its parent and has its parent's
registers; it is answered like its parent, but otherwise.
-/

namespace Library

universe u v w x

inductive Activity where
  | computing
  | calling
  /-- Made, and not answered yet. -/
  | born
  deriving DecidableEq

structure Convention (Regs : Type v) (Request : Type w) (Answer : Type x) where
  called : Regs → Request → Regs
  answered : Regs → Answer → Regs
  forChild : Answer → Prop

structure Processors (Process : Type u) (Regs : Type v) where
  alive : Process → Prop
  activity : Process → Activity
  regs : Process → Regs

inductive ProcessorEvent (Process : Type u) (Regs : Type v) (Request : Type w)
    (Answer : Type x) where
  | compute (process : Process) (regs : Regs)
  | call (process : Process) (request : Request)
  | answer (process : Process) (answer : Answer)
  | fork (parent child : Process)
  | exit (process : Process)

namespace Processors

variable {Process : Type u} {Regs : Type v} {Request : Type w} {Answer : Type x}
  [DecidableEq Process]

def give (processors : Processors Process Regs) (process : Process) (activity : Activity)
    (regs : Regs) : Processors Process Regs :=
  { processors with
    activity := Function.update processors.activity process activity
    regs := Function.update processors.regs process regs }

def next (convention : Convention Regs Request Answer) (processors : Processors Process Regs) :
    ProcessorEvent Process Regs Request Answer → Processors Process Regs
  | .compute process regs => processors.give process .computing regs
  | .call process request =>
      processors.give process .calling (convention.called (processors.regs process) request)
  | .answer process answer =>
      processors.give process .computing (convention.answered (processors.regs process) answer)
  | .fork parent child =>
      { processors.give child .born (processors.regs parent) with
        alive := fun process => processors.alive process ∨ process = child }
  | .exit process =>
      { processors with alive := fun other => processors.alive other ∧ other ≠ process }

def Enabled (convention : Convention Regs Request Answer)
    (processors : Processors Process Regs) :
    ProcessorEvent Process Regs Request Answer → Prop
  | .compute process _ | .call process _ =>
      processors.alive process ∧ processors.activity process = .computing
  | .answer process answer =>
      processors.alive process ∧ (processors.activity process = .calling ∨
        processors.activity process = .born ∧ convention.forChild answer)
  | .fork parent child =>
      processors.alive parent ∧ processors.activity parent = .calling ∧ ¬ processors.alive child
  | .exit process => processors.alive process

def each (convention : Convention Regs Request Answer) (start : Processors Process Regs) :
    System (Processors Process Regs) (ProcessorEvent Process Regs Request Answer) where
  initial processors := processors = start
  enabled := Enabled convention
  next := next convention

def Spares (process : Process) : ProcessorEvent Process Regs Request Answer → Prop
  | .compute other _ | .call other _ | .answer other _ | .fork _ other | .exit other =>
      process ≠ other

variable {convention : Convention Regs Request Answer} {start processors : Processors Process Regs}
  {process : Process} {event : ProcessorEvent Process Regs Request Answer}
  {events : List (ProcessorEvent Process Regs Request Answer)}

theorem give_regs_of_ne {other : Process} (processors : Processors Process Regs)
    (activity : Activity) (regs : Regs) (apart : process ≠ other) :
    (processors.give other activity regs).regs process = processors.regs process :=
  Function.update_of_ne apart ..

theorem give_activity_of_ne {other : Process} (processors : Processors Process Regs)
    (activity : Activity) (regs : Regs) (apart : process ≠ other) :
    (processors.give other activity regs).activity process = processors.activity process :=
  Function.update_of_ne apart ..

@[simp] theorem give_regs (processors : Processors Process Regs) (activity : Activity)
    (regs : Regs) : (processors.give process activity regs).regs process = regs :=
  Function.update_self ..

@[simp] theorem give_activity (processors : Processors Process Regs) (activity : Activity)
    (regs : Regs) : (processors.give process activity regs).activity process = activity :=
  Function.update_self ..

theorem give_self (processors : Processors Process Regs) (process : Process) :
    processors.give process (processors.activity process) (processors.regs process) = processors := by
  unfold give
  rw [Function.update_eq_self, Function.update_eq_self]

@[simp] theorem give_give (processors : Processors Process Regs) (activity later : Activity)
    (regs last : Regs) : (processors.give process activity regs).give process later last =
      processors.give process later last := by
  unfold give
  rw [Function.update_idem, Function.update_idem]

theorem run_call_answer (process : Process) (request : Request) (answer : Answer) :
    (each convention start).run processors [.call process request, .answer process answer] =
      processors.give process .computing
        (convention.answered (convention.called (processors.regs process) request) answer) := by
  have called : (processors.next convention (.call process request)).regs process =
      convention.called (processors.regs process) request := give_regs ..
  show (processors.give process .calling _).give process .computing _ = _
  rw [give_give, ← called]
  rfl

/-- Alive, and going on like this. -/
structure Has (processors : Processors Process Regs) (process : Process) (activity : Activity)
    (regs : Regs) : Prop where
  alive : processors.alive process
  activity : processors.activity process = activity
  regs : processors.regs process = regs

variable {activity : Activity} {regs : Regs}

theorem Has.give {other : Process} (has : processors.Has process activity regs)
    (apart : process ≠ other) (newActivity : Activity) (newRegs : Regs) :
    (processors.give other newActivity newRegs).Has process activity regs :=
  ⟨has.alive, (processors.give_activity_of_ne _ _ apart).trans has.activity,
    (processors.give_regs_of_ne _ _ apart).trans has.regs⟩

theorem Has.next (has : processors.Has process activity regs) (spares : Spares process event) :
    (processors.next convention event).Has process activity regs := by
  cases event with
  | compute other _ | call other _ | answer other _ => exact has.give spares _ _
  | fork parent child =>
      obtain ⟨alive, same, kept⟩ := has.give spares .born (processors.regs parent)
      exact ⟨.inl alive, same, kept⟩
  | exit other => exact ⟨⟨has.alive, spares⟩, has.activity, has.regs⟩

theorem Has.run (has : processors.Has process activity regs)
    (spares : ∀ event ∈ events, Spares process event) :
    ((each convention start).run processors events).Has process activity regs := by
  induction events generalizing processors with
  | nil => exact has
  | cons event rest inductionHypothesis =>
      exact inductionHypothesis (has.next (spares event List.mem_cons_self))
        fun event member => spares event (List.mem_cons_of_mem _ member)

end Processors

end Library
