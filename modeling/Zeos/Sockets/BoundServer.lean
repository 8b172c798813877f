import Zeos.Library.Transition

/-!
# The bounded server of `serverSocket.c`

The main loop counts a child after it has forked it, the handler of SIGCHLD counts it
down again. At most one SIGCHLD is pending, and the handler waits for one child.
-/

namespace Zeos.BoundServer

open Library

inductive MainLoop where
  /-- `connectionFD = acceptNewConnections (socketFD);` -/
  | accept
  /-- `while(forksAlive>=maxChild);` -/
  | test
  /-- `while(ret<0) ret = fork();` -/
  | fork
  /-- `forksAlive++;` -/
  | increment
  | exited
  deriving DecidableEq

inductive ProcExit where
  | returned
  /-- `waitpid(-1, NULL);` -/
  | waitpid
  /-- `forksAlive--;` -/
  | decrement
  deriving DecidableEq

def MainLoop.forked : MainLoop → Nat
  | .increment => 1
  | _ => 0

/-- 1 from the test to the count. -/
def MainLoop.admitted : MainLoop → Nat
  | .fork | .increment => 1
  | _ => 0

def ProcExit.waiting : ProcExit → Nat
  | .waitpid => 1
  | _ => 0

/-- 1 between `waitpid` and the count. -/
def ProcExit.waitedFor : ProcExit → Nat
  | .decrement => 1
  | _ => 0

theorem MainLoop.forked_le (main : MainLoop) : main.forked ≤ main.admitted := by
  cases main <;> decide

structure Server where
  forksAlive : Int
  main : MainLoop
  procExit : ProcExit
  pending : Bool
  inService : Nat
  /-- Children that are over and not waited for. -/
  terminated : Nat
  deriving DecidableEq

inductive Event where
  | accept (ok : Bool)
  | test
  | fork (ok : Bool)
  | increment
  | terminate
  /-- `proc_exit` is called, SIGCHLD held. -/
  | deliver
  | waitpid
  | decrement
  deriving DecidableEq

namespace Server

def start : Server where
  forksAlive := 0
  main := .accept
  procExit := .returned
  pending := false
  inService := 0
  terminated := 0

/-- The main loop stands still while `proc_exit` runs. -/
def Enabled (s : Server) : Event → Prop
  | .accept _ => s.main = .accept ∧ s.procExit = .returned
  | .test => s.main = .test ∧ s.procExit = .returned
  | .fork _ => s.main = .fork ∧ s.procExit = .returned
  | .increment => s.main = .increment ∧ s.procExit = .returned
  | .terminate => 0 < s.inService
  | .deliver => s.pending = true ∧ s.procExit = .returned ∧ s.main ≠ .exited
  | .waitpid => s.procExit = .waitpid ∧ 0 < s.terminated
  | .decrement => s.procExit = .decrement

instance (s : Server) : (event : Event) → Decidable (s.Enabled event)
  | .accept _ | .test | .fork _ | .increment => inferInstanceAs (Decidable (_ ∧ _))
  | .terminate => inferInstanceAs (Decidable (_ < _))
  | .deliver => inferInstanceAs (Decidable (_ ∧ _))
  | .waitpid => inferInstanceAs (Decidable (_ ∧ _))
  | .decrement => inferInstanceAs (Decidable (_ = _))

def step (maxChild : Int) (s : Server) : Event → Server
  | .accept ok => { s with main := if ok then .test else .exited }
  | .test => { s with main := if s.forksAlive ≥ maxChild then .test else .fork }
  | .fork ok => if ok then { s with main := .increment, inService := s.inService + 1 } else s
  | .increment => { s with forksAlive := s.forksAlive + 1, main := .accept }
  | .terminate =>
      { s with inService := s.inService - 1, terminated := s.terminated + 1, pending := true }
  | .deliver => { s with pending := false, procExit := .waitpid }
  | .waitpid => { s with terminated := s.terminated - 1, procExit := .decrement }
  | .decrement => { s with forksAlive := s.forksAlive - 1, procExit := .returned }

/-- At `while(forksAlive>=maxChild);`, with no SIGCHLD pending. -/
def AtTest (s : Server) : Prop :=
  s.main = .test ∧ s.procExit = .returned ∧ s.pending = false

instance (s : Server) : Decidable s.AtTest := inferInstanceAs (Decidable (_ ∧ _))

/-- Terminated children that no call of `proc_exit` is going to wait for. -/
def lost (s : Server) : Int := s.terminated - s.pending.toNat - s.procExit.waiting

/-- The step is no termination while a SIGCHLD is pending. -/
def Noticed (s : Server) (event : Event) : Prop := event = .terminate → s.pending = false

instance (s : Server) (event : Event) : Decidable (s.Noticed event) :=
  inferInstanceAs (Decidable (_ → _))

structure Counts (maxChild : Int) (s : Server) : Prop where
  balance : s.forksAlive + s.main.forked = s.inService + s.terminated + s.procExit.waitedFor
  bounded : s.forksAlive + s.main.admitted ≤ maxChild
  announced : 0 ≤ s.lost
  spare : s.lost < maxChild

variable {maxChild : Int} {s : Server} {event : Event}

theorem start_counts (positive : 1 ≤ maxChild) : start.Counts maxChild :=
  ⟨rfl, Int.le_trans (by decide) positive, Int.le_refl 0, positive⟩

theorem Counts.range (counts : s.Counts maxChild) : -1 ≤ s.forksAlive ∧ s.forksAlive ≤ maxChild := by
  have balance := counts.balance
  have bounded := counts.bounded
  have one : s.main.forked ≤ 1 := by cases s.main <;> decide
  omega

theorem Counts.inService_le (counts : s.Counts maxChild) :
    (s.inService + s.terminated : Int) ≤ maxChild := by
  have balance := counts.balance
  have bounded := counts.bounded
  have forked := s.main.forked_le
  omega

/-- A child is lost when it terminates unnoticed, and never found again. -/
theorem lost_step (enabled : s.Enabled event) :
    (s.step maxChild event).lost = s.lost + if s.Noticed event then 0 else 1 := by
  cases event with
  | accept ok => simp [step, lost, Noticed]
  | test => simp [step, lost, Noticed]
  | fork ok => cases ok <;> simp [step, lost, Noticed]
  | increment => simp [step, lost, Noticed]
  | terminate =>
      cases held : s.pending with
      | false => simp [step, lost, Noticed, held]
      | true =>
          simp [step, lost, Noticed, held]
          omega
  | deliver =>
      obtain ⟨held, returned, _⟩ := enabled
      simp [step, lost, Noticed, held, returned, ProcExit.waiting]
  | waitpid =>
      obtain ⟨waits, some⟩ := enabled
      simp [step, lost, Noticed, waits, ProcExit.waiting]
      omega
  | decrement =>
      have counting : s.procExit = .decrement := enabled
      simp [step, lost, Noticed, counting, ProcExit.waiting]

theorem Counts.balance_step (counts : s.Counts maxChild) (enabled : s.Enabled event) :
    (s.step maxChild event).forksAlive + (s.step maxChild event).main.forked =
      (s.step maxChild event).inService + (s.step maxChild event).terminated +
        (s.step maxChild event).procExit.waitedFor := by
  have balance := counts.balance
  cases event with
  | accept ok =>
      rw [enabled.1] at balance
      cases ok <;> exact balance
  | test =>
      rw [enabled.1] at balance
      simp only [step]
      split <;> exact balance
  | fork ok =>
      cases ok with
      | false => exact balance
      | true =>
          rw [enabled.1] at balance
          simp only [step, if_true, MainLoop.forked] at balance ⊢
          omega
  | increment =>
      rw [enabled.1] at balance
      simp only [step, MainLoop.forked] at balance ⊢
      omega
  | terminate =>
      have some : 0 < s.inService := enabled
      simp only [step]
      omega
  | deliver =>
      rw [enabled.2.1] at balance
      exact balance
  | waitpid =>
      obtain ⟨waits, some⟩ := enabled
      rw [waits] at balance
      simp only [step, ProcExit.waitedFor] at balance ⊢
      omega
  | decrement =>
      have counting : s.procExit = .decrement := enabled
      rw [counting] at balance
      simp only [step, ProcExit.waitedFor] at balance ⊢
      omega

theorem Counts.bounded_step (counts : s.Counts maxChild) (enabled : s.Enabled event) :
    (s.step maxChild event).forksAlive + (s.step maxChild event).main.admitted ≤ maxChild := by
  have bounded := counts.bounded
  cases event with
  | accept ok =>
      rw [enabled.1] at bounded
      cases ok <;> exact bounded
  | test =>
      rw [enabled.1] at bounded
      simp only [step]
      split
      · exact bounded
      · simp only [MainLoop.admitted]
        omega
  | fork ok =>
      rw [enabled.1] at bounded
      cases ok with
      | false =>
          show s.forksAlive + s.main.admitted ≤ maxChild
          rwa [enabled.1]
      | true => exact bounded
  | increment =>
      rw [enabled.1] at bounded
      simp only [step, MainLoop.admitted] at bounded ⊢
      omega
  | terminate => exact bounded
  | deliver => exact bounded
  | waitpid => exact bounded
  | decrement =>
      simp only [step]
      omega

/-- A signal is pending or being handled for one of the children that are over. -/
theorem Counts.spare_step (counts : s.Counts maxChild) (enabled : s.Enabled event) :
    (s.step maxChild event).lost < maxChild := by
  have result := @lost_step maxChild _ _ enabled
  by_cases noticed : s.Noticed event
  · rw [if_pos noticed, Int.add_zero] at result
    rw [result]
    exact counts.spare
  · obtain ⟨rfl, held⟩ := Classical.not_imp.mp noticed
    have some : 0 < s.inService := enabled
    have most := counts.inService_le
    simp only [step, lost, Bool.toNat_true]
    omega

theorem Counts.step (counts : s.Counts maxChild) (enabled : s.Enabled event) :
    (s.step maxChild event).Counts maxChild where
  balance := counts.balance_step enabled
  bounded := counts.bounded_step enabled
  announced := by
    have before := counts.announced
    rw [lost_step enabled]
    split <;> omega
  spare := counts.spare_step enabled

theorem Counts.lost_eq_zero_iff (counts : s.Counts maxChild) (enabled : s.Enabled event) :
    (s.step maxChild event).lost = 0 ↔ s.lost = 0 ∧ s.Noticed event := by
  have before := counts.announced
  rw [lost_step enabled]
  by_cases noticed : s.Noticed event
  · simp [noticed]
  · simp only [noticed, if_false, and_false, iff_false]
    omega

theorem Counts.atTest (counts : s.Counts maxChild) (atTest : s.AtTest) :
    s.forksAlive = s.inService + s.lost := by
  obtain ⟨main, returned, held⟩ := atTest
  have balance := counts.balance
  rw [main, returned] at balance
  simp only [MainLoop.forked, ProcExit.waitedFor] at balance
  simp only [lost, returned, held, ProcExit.waiting, Bool.toNat_false]
  omega

end Server

def boundServer (maxChild : Int) : System Server Event where
  initial s := s = .start
  enabled := Server.Enabled
  next := Server.step maxChild

instance (maxChild : Int) (s : Server) (event : Event) :
    Decidable ((boundServer maxChild).enabled s event) :=
  inferInstanceAs (Decidable (s.Enabled event))

variable {maxChild : Int} {events : List Event}

theorem counts_of_runs (positive : 1 ≤ maxChild) (runs : (boundServer maxChild).Runs .start events) :
    ((boundServer maxChild).run .start events).Counts maxChild := by
  have start : ∀ s, s = Server.start → s.Counts maxChild := by
    rintro _ rfl
    exact Server.start_counts positive
  have kept : ∀ (s : Server) event, s.Counts maxChild → s.Enabled event →
      (s.step maxChild event).Counts maxChild := fun _ _ counts enabled => counts.step enabled
  have reachable : (boundServer maxChild).Reachable ((boundServer maxChild).run .start events) :=
    .run (.initial rfl) runs
  exact reachable.invariant start kept

theorem lost_eq_zero_iff (positive : 1 ≤ maxChild)
    (runs : (boundServer maxChild).Runs .start events) :
    ((boundServer maxChild).run .start events).lost = 0 ↔
      (boundServer maxChild).Each Server.Noticed .start events := by
  have kept : ∀ (s : Server) event, s.Counts maxChild → s.Enabled event →
      (s.step maxChild event).Counts maxChild := fun _ _ counts enabled => counts.step enabled
  have exact_step : ∀ (s : Server) event, s.Counts maxChild → s.Enabled event →
      ((s.step maxChild event).lost = 0 ↔ s.lost = 0 ∧ s.Noticed event) :=
    fun _ _ counts enabled => counts.lost_eq_zero_iff enabled
  have whole := @System.final_iff_each Server Event (boundServer maxChild) (Server.Counts maxChild)
    (fun s => s.lost = 0) Server.Noticed kept exact_step _ _ runs (Server.start_counts positive)
  exact whole.trans (and_iff_right rfl)

/-- In every run there are at most `maxChild` children, and the server is not stuck without
one. At the test the counter is right exactly if no child has terminated while a SIGCHLD was
pending. -/
theorem bounded_iff_noticed (positive : 1 ≤ maxChild)
    (runs : (boundServer maxChild).Runs .start events) :
    let s := (boundServer maxChild).run .start events
    s.inService ≤ maxChild ∧ (s.AtTest → s.inService = 0 → s.forksAlive < maxChild) ∧
      (s.AtTest → (s.forksAlive = s.inService ↔
        (boundServer maxChild).Each Server.Noticed .start events)) := by
  have counts := counts_of_runs positive runs
  have zero := lost_eq_zero_iff positive runs
  intro s
  change s.Counts maxChild at counts
  change s.lost = 0 ↔ _ at zero
  have most := counts.inService_le
  refine ⟨by omega, fun atTest none => ?_, fun atTest => ?_⟩
  · have counter := counts.atTest atTest
    have spare := counts.spare
    omega
  · have counter := counts.atTest atTest
    rw [← zero]
    omega

def serves : List Event := [.accept true, .test, .fork true, .increment]

def ends : List Event := [.terminate, .deliver, .waitpid, .decrement]

/-- Two children, one after the other. -/
def inTurn : List Event := serves ++ serves ++ ends ++ ends ++ [.accept true]

/-- Two children end before the handler runs: it waits for one of them. -/
def atOnce : List Event := serves ++ serves ++ .terminate :: ends ++ [.accept true]

theorem inTurn_counted :
    ((boundServer 2).run .start inTurn).forksAlive = ((boundServer 2).run .start inTurn).inService := by
  have runs : (boundServer 2).Runs .start inTurn := by decide
  obtain ⟨_, _, count⟩ := bounded_iff_noticed (by decide) runs
  have atTest : ((boundServer 2).run .start inTurn).AtTest := by decide
  exact (count atTest).mpr (by decide)

theorem child_lost :
    ¬ ∀ (maxChild : Int) (events : List Event), 1 ≤ maxChild →
      (boundServer maxChild).Runs .start events →
      let s := (boundServer maxChild).run .start events
      s.inService ≤ maxChild ∧ (s.AtTest → s.inService = 0 → s.forksAlive < maxChild) ∧
        (s.AtTest → s.forksAlive = s.inService) := by
  intro always
  have wrong := (always 2 atOnce (by decide) (by decide)).2.2 (by decide)
  exact absurd wrong (by decide)

end Zeos.BoundServer
