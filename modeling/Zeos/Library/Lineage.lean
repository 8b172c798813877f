import Mathlib.Data.List.Induction
import Mathlib.Logic.Function.Basic
import Zeos.Library.Refinement

/-!
# Processes with memory of their own

What processes are for: each has places of its own, all have some places in
common, and a child starts with what its parent has. `lastOwn` says without any
state what a process finds: the last value stored on the line that leads to it.
-/

namespace Library

universe u v w x

structure Images (Process : Type u) (Shared : Type v) (Own : Type w) (Value : Type x) where
  alive : Process → Prop
  shared : Shared → Value
  own : Process → Own → Value

inductive MemoryEvent (Process : Type u) (Shared : Type v) (Own : Type w) (Value : Type x) where
  | fork (parent child : Process)
  | exit (process : Process)
  | storeShared (place : Shared) (value : Value)
  | storeOwn (process : Process) (place : Own) (value : Value)

namespace Images

variable {Process : Type u} {Shared : Type v} {Own : Type w} {Value : Type x}

variable [DecidableEq Process] [DecidableEq Shared] [DecidableEq Own]

def next (images : Images Process Shared Own Value) :
    MemoryEvent Process Shared Own Value → Images Process Shared Own Value
  | .fork parent child =>
      { images with
        alive := fun process => images.alive process ∨ process = child
        own := Function.update images.own child (images.own parent) }
  | .exit process => { images with alive := fun other => images.alive other ∧ other ≠ process }
  | .storeShared place value =>
      { images with shared := Function.update images.shared place value }
  | .storeOwn process place value =>
      { images with own :=
          Function.update images.own process (Function.update (images.own process) place value) }

def Enabled (images : Images Process Shared Own Value) :
    MemoryEvent Process Shared Own Value → Prop
  | .fork parent child => images.alive parent ∧ ¬ images.alive child
  | .exit process => images.alive process
  | .storeShared _ _ => True
  | .storeOwn process _ _ => images.alive process

def family (start : Images Process Shared Own Value) :
    System (Images Process Shared Own Value) (MemoryEvent Process Shared Own Value) where
  initial images := images = start
  enabled := Enabled
  next := next

/-- What a process finds in a place of its own; the latest event comes first. -/
def lastOwn (start : Images Process Shared Own Value) :
    List (MemoryEvent Process Shared Own Value) → Process → Own → Value
  | [], process, place => start.own process place
  | .fork parent child :: earlier, process, place =>
      lastOwn start earlier (if process = child then parent else process) place
  | .storeOwn writer target value :: earlier, process, place =>
      if process = writer ∧ place = target then value else lastOwn start earlier process place
  | .exit _ :: earlier, process, place => lastOwn start earlier process place
  | .storeShared _ _ :: earlier, process, place => lastOwn start earlier process place

/-- What every process finds in a shared place; the latest event comes first. -/
def lastShared (start : Images Process Shared Own Value) :
    List (MemoryEvent Process Shared Own Value) → Shared → Value
  | [], place => start.shared place
  | .storeShared target value :: earlier, place =>
      if place = target then value else lastShared start earlier place
  | .fork _ _ :: earlier, place => lastShared start earlier place
  | .exit _ :: earlier, place => lastShared start earlier place
  | .storeOwn _ _ _ :: earlier, place => lastShared start earlier place

section

variable (start : Images Process Shared Own Value)

theorem run_concat (events : List (MemoryEvent Process Shared Own Value))
    (event : MemoryEvent Process Shared Own Value) (images : Images Process Shared Own Value) :
    (family start).run images (events ++ [event]) =
      ((family start).run images events).next event :=
  System.run_append _ images events [event]

/-- Going forward through the events comes to the same as looking back. -/
theorem run_own (events : List (MemoryEvent Process Shared Own Value)) (process : Process)
    (place : Own) :
    ((family start).run start events).own process place =
      start.lastOwn events.reverse process place := by
  induction events using List.reverseRecOn generalizing process with
  | nil => rfl
  | append_singleton earlier event inductionHypothesis =>
      rw [run_concat, List.reverse_concat]
      cases event with
      | fork parent child =>
          rw [lastOwn, ← inductionHypothesis]
          by_cases isChild : process = child <;> simp [next, isChild]
      | exit _ => exact inductionHypothesis process
      | storeShared _ _ => exact inductionHypothesis process
      | storeOwn writer target value =>
          rw [lastOwn, ← inductionHypothesis]
          by_cases mine : process = writer
          · subst mine
            simp [next, Function.update_apply]
          · simp [next, mine]

theorem run_shared (events : List (MemoryEvent Process Shared Own Value)) (place : Shared) :
    ((family start).run start events).shared place =
      start.lastShared events.reverse place := by
  induction events using List.reverseRecOn with
  | nil => rfl
  | append_singleton earlier event inductionHypothesis =>
      rw [run_concat, List.reverse_concat]
      cases event with
      | fork _ _ => exact inductionHypothesis
      | exit _ => exact inductionHypothesis
      | storeShared target value =>
          rw [lastShared, ← inductionHypothesis]
          simp [next, Function.update_apply]
      | storeOwn _ _ _ => exact inductionHypothesis

end

end Images

end Library
