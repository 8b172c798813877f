import Mathlib.Data.List.Basic
import Mathlib.Logic.Function.Basic
import Zeos.Library.Refinement

/-!
# Round robin on lists

A fixed number of slots for processes. One process runs; the others are free slots,
ready in order of arrival, or waiting somewhere. A turn is a whole number of ticks.
-/

namespace Library

universe u v

structure Robin (Process : Type u) (Wait : Type v) where
  running : Process
  free : List Process
  ready : List Process
  blocked : Wait → List Process
  /-- The ticks of a whole turn. -/
  quantum : Process → Nat
  /-- The ticks that are left of this one. -/
  left : Nat

inductive RobinEvent (Process : Type u) (Wait : Type v) where
  | fork
  | exit
  | yield
  | block (wait : Wait)
  | unblock (process : Process)
  | tick
  deriving DecidableEq

namespace Robin

variable {Process : Type u} {Wait : Type v} [DecidableEq Process] [DecidableEq Wait]

omit [DecidableEq Process] [DecidableEq Wait] in
/-- The first ready process starts a turn, or `idle` does. -/
def dispatch (idle : Process) (robin : Robin Process Wait) : Robin Process Wait :=
  { robin with
    running := robin.ready.headD idle
    ready := robin.ready.tail
    left := robin.quantum (robin.ready.headD idle) }

/-- The running process and its turn are left alone by what makes others ready. -/
def next (idle : Process) (robin : Robin Process Wait) :
    RobinEvent Process Wait → Robin Process Wait
  | .fork =>
      match robin.free with
      | [] => robin
      | child :: rest =>
          { robin with
            free := rest, ready := robin.ready ++ [child]
            quantum := Function.update robin.quantum child (robin.quantum robin.running) }
  | .exit => dispatch idle { robin with free := robin.free ++ [robin.running] }
  | .yield => dispatch idle { robin with ready := robin.ready ++ [robin.running] }
  | .block wait =>
      dispatch idle { robin with
        blocked := Function.update robin.blocked wait (robin.blocked wait ++ [robin.running]) }
  | .unblock process =>
      { robin with
        blocked := fun wait => (robin.blocked wait).erase process
        ready := robin.ready ++ [process] }
  | .tick =>
      if 1 < robin.left then { robin with left := robin.left - 1 }
      else if robin.ready.isEmpty then { robin with left := robin.quantum robin.running }
      else dispatch idle { robin with ready := robin.ready ++ [robin.running] }

omit [DecidableEq Process] [DecidableEq Wait] in
/-- `idle` has no services; a slot must be free, and a process wait, to be taken. -/
def Enabled (idle : Process) (robin : Robin Process Wait) : RobinEvent Process Wait → Prop
  | .fork => robin.running ≠ idle ∧ robin.free ≠ []
  | .exit => robin.running ≠ idle
  | .yield => robin.running ≠ idle
  | .block _ => robin.running ≠ idle
  | .unblock process => ∃ wait, process ∈ robin.blocked wait
  | .tick => True

def robins (start : Robin Process Wait → Prop) (idle : Process) :
    System (Robin Process Wait) (RobinEvent Process Wait) where
  initial := start
  enabled := Enabled idle
  next := next idle

variable {start : Robin Process Wait → Prop} {idle : Process} {robin : Robin Process Wait}

theorem next_free_length (event : RobinEvent Process Wait) (enabled : robin.Enabled idle event) :
    (robin.next idle event).free.length + (if event = .fork then 1 else 0) =
      robin.free.length + (if event = .exit then 1 else 0) := by
  cases event with
  | fork =>
      cases slots : robin.free with
      | nil => exact absurd slots enabled.2
      | cons child rest => simp [next, slots]
  | exit => simp [next, dispatch]
  | yield => simp [next, dispatch]
  | block wait => simp [next, dispatch]
  | unblock process => simp [next]
  | tick =>
      simp only [next]
      split
      · simp
      · split <;> simp [dispatch]

theorem run_free_length {events : List (RobinEvent Process Wait)}
    (runs : (robins start idle).Runs robin events) :
    ((robins start idle).run robin events).free.length + events.count .fork =
      robin.free.length + events.count .exit := by
  induction events generalizing robin with
  | nil => rfl
  | cons event rest inductionHypothesis =>
      have first := next_free_length event runs.1
      have later : ((robins start idle).run (robin.next idle event) rest).free.length +
          rest.count .fork = (robin.next idle event).free.length + rest.count .exit :=
        inductionHypothesis runs.2
      show ((robins start idle).run (robin.next idle event) rest).free.length + _ = _
      rw [List.count_cons, List.count_cons]
      simp only [beq_iff_eq]
      omega

end Robin

end Library
