import Zeos.Library.Progress

/-!
# The launcher of `launchClient.c`

Like the bounded server it counts its children up in `main` and down in the handler of
SIGCHLD, of which at most one is pending. But its handler goes on as long as there is a
child to wait for. `main` stands still while the handler runs, so only the statements of
`main` are taken apart into their loads and stores.
-/

namespace Zeos.LaunchClient

open Library

inductive LaunchMain where
  /-- `pidh =fork();` -/
  | fork
  /-- `current_concurrent++;`, its load. -/
  | load
  /-- `current_concurrent++;`, its store. -/
  | store
  /-- `if (current_concurrent > max_concurrent)` -/
  | test
  /-- `max_concurrent = current_concurrent;` -/
  | assign
  /-- `while (waitpid(-1,NULL,0) > 0);` -/
  | wait
  | finished
  | exited
  deriving DecidableEq

inductive TratSigchld where
  | returned
  /-- `while (waitpid(-1, NULL, WNOHANG) > 0)` -/
  | waitpid
  /-- `current_concurrent --;` -/
  | decrement
  deriving DecidableEq

structure Launcher where
  currentConcurrent : Int
  maxConcurrent : Int
  main : LaunchMain
  /-- What the last load of `current_concurrent++` found. -/
  loaded : Int
  tratSigchld : TratSigchld
  /-- `nclients - i` -/
  left : Nat
  pending : Bool
  running : Nat
  /-- Clients that are over and not waited for. -/
  terminated : Nat
  /-- History: the clients there were, over or not, at that test of `main` that found most. -/
  mostTested : Nat
  /-- History: decrements between a load of `current_concurrent++` and its store. -/
  overwritten : Nat
  /-- History: decrements between a test of `main` and the assignment. -/
  late : Nat
  deriving DecidableEq

inductive Event where
  | fork (ok : Bool)
  | load
  | store
  | test
  | assign
  /-- `waitpid` in `main` returns a child. -/
  | wait
  /-- It returns -1, as there is none. -/
  | finish
  | terminate
  /-- `trat_sigchld` is called, SIGCHLD held. -/
  | deliver
  | waitpid
  | decrement
  deriving DecidableEq

namespace Launcher

/-- Where `main` goes with so many clients to launch. -/
def atLoop (left : Nat) : LaunchMain := if left = 0 then .wait else .fork

def start (nclients : Nat) : Launcher where
  currentConcurrent := 0
  maxConcurrent := 0
  main := atLoop nclients
  loaded := 0
  tratSigchld := .returned
  left := nclients
  pending := false
  running := 0
  terminated := 0
  mostTested := 0
  overwritten := 0
  late := 0

/-- `main` stands still while `trat_sigchld` runs. -/
def Enabled (l : Launcher) : Event → Prop
  | .fork _ => l.main = .fork ∧ l.tratSigchld = .returned
  | .load => l.main = .load ∧ l.tratSigchld = .returned
  | .store => l.main = .store ∧ l.tratSigchld = .returned
  | .test => l.main = .test ∧ l.tratSigchld = .returned
  | .assign => l.main = .assign ∧ l.tratSigchld = .returned
  | .wait => l.main = .wait ∧ l.tratSigchld = .returned ∧ 0 < l.terminated
  | .finish => l.main = .wait ∧ l.tratSigchld = .returned ∧ l.running = 0 ∧ l.terminated = 0
  | .terminate => 0 < l.running
  | .deliver =>
      l.pending = true ∧ l.tratSigchld = .returned ∧ l.main ≠ .finished ∧ l.main ≠ .exited
  | .waitpid => l.tratSigchld = .waitpid
  | .decrement => l.tratSigchld = .decrement

instance (l : Launcher) : (event : Event) → Decidable (l.Enabled event)
  | .fork _ | .load | .store | .test | .assign | .wait | .finish | .deliver =>
      inferInstanceAs (Decidable (_ ∧ _))
  | .terminate => inferInstanceAs (Decidable (_ < _))
  | .waitpid | .decrement => inferInstanceAs (Decidable (_ = _))

/-- `i++`, and back to the loop. -/
def iterate (l : Launcher) : Launcher :=
  { l with left := l.left - 1, main := atLoop (l.left - 1) }

def next (l : Launcher) : Event → Launcher
  | .fork ok =>
      if ok then { l with main := .load, running := l.running + 1 }
      else { l with main := .exited }
  | .load => { l with loaded := l.currentConcurrent, main := .store }
  | .store => { l with currentConcurrent := l.loaded + 1, main := .test }
  | .test =>
      let tested := { l with mostTested := max l.mostTested (l.running + l.terminated) }
      if l.currentConcurrent > l.maxConcurrent then { tested with main := .assign }
      else tested.iterate
  | .assign => { l with maxConcurrent := l.currentConcurrent }.iterate
  | .wait => { l with terminated := l.terminated - 1 }
  | .finish => { l with main := .finished }
  | .terminate =>
      { l with running := l.running - 1, terminated := l.terminated + 1, pending := true }
  | .deliver => { l with pending := false, tratSigchld := .waitpid }
  | .waitpid =>
      if l.terminated = 0 then { l with tratSigchld := .returned }
      else { l with terminated := l.terminated - 1, tratSigchld := .decrement }
  | .decrement =>
      { l with
        currentConcurrent := l.currentConcurrent - 1
        tratSigchld := .waitpid
        overwritten := l.overwritten + if l.main = .store then 1 else 0
        late := l.late + if l.main = .assign then 1 else 0 }

def Launching (l : Launcher) : Prop :=
  l.main ≠ .wait ∧ l.main ≠ .finished ∧ l.main ≠ .exited

/-- `current_concurrent`, once `main` has counted the client it is about to count. -/
def counted (l : Launcher) : Int :=
  match l.main with
  | .load => l.currentConcurrent + 1
  | .store => l.loaded + 1
  | _ => l.currentConcurrent

end Launcher

/-- 1 between `waitpid` and the count. -/
def TratSigchld.waitedFor : TratSigchld → Int
  | .decrement => 1
  | _ => 0

def launchers (nclients : Nat) : System Launcher Event where
  initial l := l = .start nclients
  enabled := Launcher.Enabled
  next := Launcher.next

instance (nclients : Nat) (l : Launcher) (event : Event) :
    Decidable ((launchers nclients).enabled l event) :=
  inferInstanceAs (Decidable (l.Enabled event))

variable {nclients : Nat} {l : Launcher} {event : Event} {events : List Event}

/-- 1 while the client of this iteration is launched and the iteration goes on. -/
def LaunchMain.launched : LaunchMain → Nat
  | .load | .store | .test | .assign => 1
  | .fork | .wait | .finished | .exited => 0

namespace Launcher

/-- `max_concurrent`, once `main` has assigned what it is about to assign. -/
def reported (l : Launcher) : Int :=
  if l.main = .assign then l.currentConcurrent else l.maxConcurrent

/-- What the counters count. -/
structure Counts (nclients : Nat) (l : Launcher) : Prop where
  balance : l.Launching → l.counted =
    l.running + l.terminated + l.tratSigchld.waitedFor + l.overwritten
  /-- Who is over is announced, or the handler is still looking. -/
  announced : 0 < l.terminated → l.pending = true ∨ l.tratSigchld ≠ .returned
  highest : l.reported ≤ l.mostTested + l.overwritten
  reached : l.late = 0 → l.mostTested ≤ l.reported
  left : l.Launching → 0 < l.left
  gone : l.main = .finished → l.running = 0 ∧ l.terminated = 0
  children : l.running + l.terminated + l.left ≤ nclients + l.main.launched
  most : l.mostTested + l.left ≤ nclients + l.main.launched

theorem reported_eq (notAssigning : l.main ≠ .assign) : l.reported = l.maxConcurrent :=
  if_neg notAssigning

theorem atLoop_cases (left : Nat) :
    (left = 0 ∧ atLoop left = .wait) ∨ (0 < left ∧ atLoop left = .fork) := by
  unfold atLoop
  split
  · exact .inl ⟨‹_›, rfl⟩
  · exact .inr ⟨Nat.pos_of_ne_zero ‹_›, rfl⟩

theorem counts_atLoop (loop : l.main = atLoop l.left)
    (balance : l.currentConcurrent =
      l.running + l.terminated + l.tratSigchld.waitedFor + l.overwritten)
    (announced : 0 < l.terminated → l.pending = true ∨ l.tratSigchld ≠ .returned)
    (highest : l.maxConcurrent ≤ l.mostTested + l.overwritten)
    (reached : l.late = 0 → l.mostTested ≤ l.maxConcurrent)
    (children : l.running + l.terminated + l.left ≤ nclients)
    (most : l.mostTested + l.left ≤ nclients) : l.Counts nclients := by
  rcases atLoop_cases l.left with ⟨none, atWait⟩ | ⟨some, atFork⟩
  · rw [atWait] at loop
    refine ⟨fun launching => absurd loop launching.1, announced, ?_, fun early => ?_,
      fun launching => absurd loop launching.1, fun ended => ?_, ?_, ?_⟩
    · simpa [reported, loop] using highest
    · simpa [reported, loop] using reached early
    · rw [loop] at ended
      cases ended
    · rwa [loop]
    · rwa [loop]
  · rw [atFork] at loop
    refine ⟨fun _ => ?_, announced, ?_, fun early => ?_, fun _ => some, fun ended => ?_, ?_, ?_⟩
    · simpa only [counted, loop] using balance
    · simpa [reported, loop] using highest
    · simpa [reported, loop] using reached early
    · rw [loop] at ended
      cases ended
    · rwa [loop]
    · rwa [loop]

theorem start_counts (nclients : Nat) : (start nclients).Counts nclients :=
  counts_atLoop rfl rfl nofun (Int.le_refl 0) (fun _ => Int.le_refl 0)
    (Nat.le_of_eq (Nat.zero_add nclients)) (Nat.le_of_eq (Nat.zero_add nclients))

theorem Counts.next_fork {ok : Bool} (counts : l.Counts nclients) (enabled : l.Enabled (.fork ok)) :
    (l.next (.fork ok)).Counts nclients := by
  obtain ⟨balance, announced, highest, reached, left, gone, children, most⟩ := counts
  obtain ⟨atFork, returned⟩ := enabled
  have launching : l.Launching := by simp [Launching, atFork]
  have total := balance launching
  have some := left launching
  simp only [counted, reported, atFork, LaunchMain.launched] at total highest reached children most
  cases ok with
  | false =>
      exact ⟨fun launching => absurd rfl launching.2.2, announced, highest, reached,
        fun launching => absurd rfl launching.2.2, nofun, children, most⟩
  | true =>
      refine ⟨fun _ => ?_, announced, highest, reached, fun _ => some, nofun, ?_, ?_⟩
      · simp only [Launcher.next, if_true, counted]
        omega
      · simp only [Launcher.next, if_true, LaunchMain.launched]
        omega
      · simp only [Launcher.next, if_true, LaunchMain.launched]
        omega

theorem Counts.next_test (counts : l.Counts nclients) (enabled : l.Enabled .test) :
    (l.next .test).Counts nclients := by
  obtain ⟨balance, announced, highest, reached, left, gone, children, most⟩ := counts
  obtain ⟨atTest, returned⟩ := enabled
  have launching : l.Launching := by simp [Launching, atTest]
  have total := balance launching
  have some := left launching
  simp only [counted, reported, atTest, returned, TratSigchld.waitedFor, LaunchMain.launched,
    reduceCtorEq, if_false] at total highest reached children most
  by_cases more : l.currentConcurrent > l.maxConcurrent
  · simp only [Launcher.next, if_pos more]
    refine ⟨fun _ => ?_, announced, ?_, fun early => ?_, fun _ => some, nofun, ?_, ?_⟩
    · simpa only [counted, returned, TratSigchld.waitedFor] using total
    · simp only [reported, if_true]
      omega
    · have before := reached early
      simp only [reported, if_true]
      omega
    · simp only [LaunchMain.launched]
      omega
    · simp only [LaunchMain.launched]
      omega
  · simp only [Launcher.next, if_neg more]
    refine counts_atLoop rfl ?_ announced ?_ (fun early => ?_) ?_ ?_
    · simpa only [iterate, returned, TratSigchld.waitedFor] using total
    · simp only [iterate]
      omega
    · have before := reached early
      simp only [iterate]
      omega
    · simp only [iterate]
      omega
    · simp only [iterate]
      omega

theorem Counts.next_assign (counts : l.Counts nclients) (enabled : l.Enabled .assign) :
    (l.next .assign).Counts nclients := by
  obtain ⟨balance, announced, highest, reached, left, gone, children, most⟩ := counts
  obtain ⟨atAssign, returned⟩ := enabled
  have launching : l.Launching := by simp [Launching, atAssign]
  have total := balance launching
  have some := left launching
  simp only [counted, reported, atAssign, returned, TratSigchld.waitedFor, LaunchMain.launched]
    at total highest reached children most
  refine counts_atLoop rfl ?_ announced highest reached ?_ ?_
  · simpa only [Launcher.next, iterate, returned, TratSigchld.waitedFor] using total
  · simp only [Launcher.next, iterate]
    omega
  · simp only [Launcher.next, iterate]
    omega

theorem Counts.next_waitpid (counts : l.Counts nclients) (enabled : l.Enabled .waitpid) :
    (l.next .waitpid).Counts nclients := by
  obtain ⟨balance, announced, highest, reached, left, gone, children, most⟩ := counts
  have waits : l.tratSigchld = .waitpid := enabled
  rw [waits] at balance
  by_cases none : l.terminated = 0
  · simp only [Launcher.next, if_pos none]
    exact ⟨balance, fun some => absurd none (Nat.ne_of_gt some), highest, reached, left, gone,
      children, most⟩
  · simp only [Launcher.next, if_neg none]
    refine ⟨fun launching => ?_, fun _ => .inr nofun, highest, reached, left, fun ended => ?_, ?_,
      most⟩
    · have total := balance launching
      change l.counted = _
      simp only [TratSigchld.waitedFor] at total ⊢
      omega
    · exact absurd (gone ended).2 none
    · change l.running + (l.terminated - 1) + l.left ≤ nclients + l.main.launched
      omega

theorem Counts.next_decrement (counts : l.Counts nclients) (enabled : l.Enabled .decrement) :
    (l.next .decrement).Counts nclients := by
  obtain ⟨balance, announced, highest, reached, left, gone, children, most⟩ := counts
  have counting : l.tratSigchld = .decrement := enabled
  refine ⟨fun launching => ?_, fun _ => .inr nofun, ?_, fun early => ?_, left, gone, children,
    most⟩
  · have total := balance launching
    rw [counting] at total
    -- the store of `main` will undo this decrement, the others stay
    cases atMain : l.main with
    | store =>
        simp only [counted, Launcher.next, atMain, if_true, TratSigchld.waitedFor] at total ⊢
        omega
    | fork | load | test | assign | wait | finished | exited =>
        simp only [counted, Launcher.next, atMain, TratSigchld.waitedFor, reduceCtorEq,
          if_false] at total ⊢
        omega
  · by_cases atAssign : l.main = .assign
    · simp only [reported, Launcher.next, if_pos atAssign] at highest ⊢
      omega
    · simp only [reported, Launcher.next, if_neg atAssign] at highest ⊢
      omega
  · by_cases atAssign : l.main = .assign
    · simp only [Launcher.next, if_pos atAssign] at early
      omega
    · simp only [reported, Launcher.next, if_neg atAssign] at early reached ⊢
      exact reached early

theorem Counts.next (counts : l.Counts nclients) (enabled : l.Enabled event) :
    (l.next event).Counts nclients := by
  have ⟨balance, announced, highest, reached, left, gone, children, most⟩ := counts
  cases event with
  | fork ok => exact counts.next_fork enabled
  | load =>
      obtain ⟨atLoad, returned⟩ := enabled
      have launching : l.Launching := by simp [Launching, atLoad]
      have total := balance launching
      have some := left launching
      simp only [counted, reported, atLoad, LaunchMain.launched] at total highest reached children most
      exact ⟨fun _ => total, announced, highest, reached, fun _ => some, nofun, children, most⟩
  | store =>
      obtain ⟨atStore, returned⟩ := enabled
      have launching : l.Launching := by simp [Launching, atStore]
      have total := balance launching
      have some := left launching
      simp only [counted, reported, atStore, LaunchMain.launched] at total highest reached children most
      exact ⟨fun _ => total, announced, highest, reached, fun _ => some, nofun, children, most⟩
  | test => exact counts.next_test enabled
  | assign => exact counts.next_assign enabled
  | wait =>
      obtain ⟨atWait, returned, some⟩ := enabled
      refine ⟨fun launching => absurd atWait launching.1, fun more => announced some, highest, reached,
        fun launching => absurd atWait launching.1, fun ended => ?_, ?_, most⟩
      · change l.main = .finished at ended
        rw [atWait] at ended
        cases ended
      · simp only [Launcher.next]
        omega
  | finish =>
      obtain ⟨atWait, returned, noneRuns, noneOver⟩ := enabled
      simp only [reported, atWait, LaunchMain.launched] at highest reached children most
      exact ⟨fun launching => absurd rfl launching.2.1, announced, highest, reached,
        fun launching => absurd rfl launching.2.1, fun _ => ⟨noneRuns, noneOver⟩, children, most⟩
  | terminate =>
      have some : 0 < l.running := enabled
      refine ⟨fun launching => ?_, fun _ => .inl rfl, highest, reached, left, fun ended => ?_, ?_, most⟩
      · have total := balance launching
        simp only [Launcher.next]
        change l.counted = _
        omega
      · have none := (gone ended).1
        omega
      · simp only [Launcher.next]
        omega
  | deliver =>
      obtain ⟨held, returned, _⟩ := enabled
      refine ⟨fun launching => ?_, fun _ => .inr nofun, highest, reached, left, gone, children, most⟩
      have total := balance launching
      rw [returned] at total
      exact total
  | waitpid => exact counts.next_waitpid enabled
  | decrement => exact counts.next_decrement enabled

theorem Counts.mostTested_le (counts : l.Counts nclients) : l.mostTested ≤ nclients := by
  have most := counts.most
  cases atMain : l.main with
  | load | store | test | assign =>
      have some := counts.left (by simp [Launching, atMain])
      simp only [atMain, LaunchMain.launched] at most
      omega
  | fork | wait | finished | exited =>
      simp only [atMain, LaunchMain.launched] at most
      omega

/-- Events still to come of `main`. -/
def mainAhead (left : Nat) : LaunchMain → Nat
  | .fork => 11 * left + 1
  | .load => 11 * left - 6
  | .store => 11 * left - 7
  | .test => 11 * left - 8
  | .assign => 11 * left - 9
  | .wait => 1
  | .finished | .exited => 0

def handlerAhead : TratSigchld → Nat
  | .returned => 0
  | .waitpid => 1
  | .decrement => 2

def budget (l : Launcher) : Nat :=
  mainAhead l.left l.main + handlerAhead l.tratSigchld + 6 * l.running + 2 * l.terminated +
    3 * l.pending.toNat

theorem mainAhead_atLoop (left : Nat) : mainAhead left (atLoop left) ≤ 11 * left + 1 := by
  rcases atLoop_cases left with ⟨none, loop⟩ | ⟨some, loop⟩
  · rw [loop]
    exact Nat.le_add_left 1 _
  · rw [loop]
    exact Nat.le_refl _

theorem budget_iterate (l : Launcher) : l.iterate.budget ≤
    11 * (l.left - 1) + 1 + handlerAhead l.tratSigchld + 6 * l.running + 2 * l.terminated +
      3 * l.pending.toNat := by
  have loop := mainAhead_atLoop (l.left - 1)
  simp only [budget, iterate]
  omega

theorem descends (nclients : Nat) : (launchers nclients).Descends (Counts nclients) budget where
  kept _ _ counts enabled := counts.next enabled
  down l event counts enabled := by
    show (l.next event).budget < l.budget
    cases event with
    | fork ok =>
        obtain ⟨atFork, _⟩ := enabled
        have some := counts.left (by simp [Launching, atFork])
        cases ok with
        | false =>
            simp only [budget, Launcher.next, atFork, mainAhead, Bool.false_eq_true, if_false]
            omega
        | true =>
            simp only [budget, Launcher.next, atFork, mainAhead, if_true]
            omega
    | load =>
        obtain ⟨atLoad, _⟩ := enabled
        have some := counts.left (by simp [Launching, atLoad])
        simp only [budget, Launcher.next, atLoad, mainAhead]
        omega
    | store =>
        obtain ⟨atStore, _⟩ := enabled
        have some := counts.left (by simp [Launching, atStore])
        simp only [budget, Launcher.next, atStore, mainAhead]
        omega
    | test =>
        obtain ⟨atTest, _⟩ := enabled
        have some := counts.left (by simp [Launching, atTest])
        have here : l.budget = 11 * l.left - 8 + handlerAhead l.tratSigchld + 6 * l.running +
            2 * l.terminated + 3 * l.pending.toNat := by
          rw [budget, atTest, mainAhead]
        by_cases more : l.currentConcurrent > l.maxConcurrent
        · simp only [Launcher.next, if_pos more, here]
          simp only [budget, mainAhead]
          omega
        · simp only [Launcher.next, if_neg more, here]
          refine Nat.lt_of_le_of_lt (budget_iterate _) ?_
          simp only
          omega
    | assign =>
        obtain ⟨atAssign, _⟩ := enabled
        have some := counts.left (by simp [Launching, atAssign])
        have here : l.budget = 11 * l.left - 9 + handlerAhead l.tratSigchld + 6 * l.running +
            2 * l.terminated + 3 * l.pending.toNat := by
          rw [budget, atAssign, mainAhead]
        rw [here]
        refine Nat.lt_of_le_of_lt (budget_iterate _) ?_
        simp only
        omega
    | wait =>
        obtain ⟨atWait, _, some⟩ := enabled
        simp only [budget, Launcher.next, atWait, mainAhead]
        omega
    | finish =>
        obtain ⟨atWait, _⟩ := enabled
        simp only [budget, Launcher.next, atWait, mainAhead]
        omega
    | terminate =>
        have some : 0 < l.running := enabled
        have one : l.pending.toNat ≤ 1 := Bool.toNat_le l.pending
        simp only [budget, Launcher.next, Bool.toNat_true]
        omega
    | deliver =>
        obtain ⟨held, returned, _⟩ := enabled
        simp only [budget, Launcher.next, held, returned, handlerAhead, Bool.toNat_true,
          Bool.toNat_false]
        omega
    | waitpid =>
        have waits : l.tratSigchld = .waitpid := enabled
        by_cases none : l.terminated = 0
        · simp only [budget, Launcher.next, waits, handlerAhead, if_pos none]
          omega
        · simp only [budget, Launcher.next, waits, handlerAhead, if_neg none]
          omega
    | decrement =>
        have counting : l.tratSigchld = .decrement := enabled
        simp only [budget, Launcher.next, counting, handlerAhead]
        omega

theorem Counts.ended_of_stuck (counts : l.Counts nclients) (stuck : (launchers nclients).Stuck l) :
    l.main = .finished ∨ l.main = .exited := by
  by_contra goes
  obtain ⟨notFinished, notExited⟩ := not_or.mp goes
  have noneRuns : l.running = 0 := Nat.eq_zero_of_not_pos (stuck .terminate)
  have returned : l.tratSigchld = .returned := by
    cases at_ : l.tratSigchld with
    | returned => rfl
    | waitpid => exact absurd at_ (stuck .waitpid)
    | decrement => exact absurd at_ (stuck .decrement)
  have quiet : l.pending ≠ true := fun held =>
    stuck .deliver ⟨held, returned, notFinished, notExited⟩
  have noneOver : l.terminated = 0 := by
    refine Nat.eq_zero_of_not_pos fun some => ?_
    rcases counts.announced some with held | looking
    · exact quiet held
    · exact looking returned
  cases at_ : l.main with
  | fork => exact stuck (.fork true) ⟨at_, returned⟩
  | load => exact stuck .load ⟨at_, returned⟩
  | store => exact stuck .store ⟨at_, returned⟩
  | test => exact stuck .test ⟨at_, returned⟩
  | assign => exact stuck .assign ⟨at_, returned⟩
  | wait => exact stuck .finish ⟨at_, returned, noneRuns, noneOver⟩
  | finished => exact notFinished at_
  | exited => exact notExited at_

theorem iterate_ne_exited (l : Launcher) : l.iterate.main ≠ .exited := by
  rcases atLoop_cases (l.left - 1) with ⟨none, loop⟩ | ⟨some, loop⟩
  · simp [iterate, loop]
  · simp [iterate, loop]

theorem run_exited (events : List Event) (forks : ∀ event ∈ events, event ≠ .fork false)
    (goes : l.main ≠ .exited) : ((launchers nclients).run l events).main ≠ .exited := by
  induction events generalizing l with
  | nil => exact goes
  | cons event rest inductionHypothesis =>
      obtain ⟨first, later⟩ := List.forall_mem_cons.mp forks
      refine inductionHypothesis later ?_
      show (l.next event).main ≠ .exited
      cases event with
      | fork ok =>
          cases ok with
          | false => exact absurd rfl first
          | true => exact nofun
      | load => exact nofun
      | store => exact nofun
      | test =>
          simp only [Launcher.next]
          split
          · exact nofun
          · exact iterate_ne_exited _
      | assign => exact iterate_ne_exited _
      | wait => exact goes
      | finish => exact nofun
      | terminate => exact goes
      | deliver => exact goes
      | waitpid =>
          simp only [Launcher.next]
          split <;> exact goes
      | decrement => exact goes

end Launcher

structure Reports (nclients : Nat) (events : List Event) (after : Launcher) : Prop where
  /-- Too much by the decrements that `current_concurrent++` has overwritten. -/
  counter : after.Launching → after.counted =
    after.running + after.terminated + after.tratSigchld.waitedFor + after.overwritten
  /-- With no signal to handle, everybody who is over was waited for. -/
  quiet : after.pending = false → after.tratSigchld = .returned → after.terminated = 0
  highest : after.main ≠ .assign → after.maxConcurrent ≤ after.mostTested + after.overwritten
  largest : after.main ≠ .assign → after.overwritten = 0 → after.late = 0 →
    after.maxConcurrent = after.mostTested
  bounded : after.mostTested ≤ nclients
  few : events.length ≤ 11 * nclients + 1
  ends : (launchers nclients).Stuck after →
    (after.main = .finished ∧ after.running = 0 ∧ after.terminated = 0) ∨ after.main = .exited
  succeeds : (∀ event ∈ events, event ≠ .fork false) → after.main ≠ .exited

/-- In every interleaving, and however many clients end before a signal is handled: while
clients are launched the counter is the number of clients there are and of the decrements
overwritten, the reported maximum is what the tests of `main` saw unless the handler came in
between, no client is left over, and the launcher ends. -/
theorem launcher_reports (runs : (launchers nclients).Runs (.start nclients) events) :
    Reports nclients events ((launchers nclients).run (.start nclients) events) := by
  obtain ⟨counts, bound⟩ :=
    (Launcher.descends nclients).run (Launcher.start_counts nclients) runs
  have start := Launcher.mainAhead_atLoop nclients
  have whole : (Launcher.start nclients).budget = Launcher.mainAhead nclients
    (Launcher.atLoop nclients) := rfl
  refine ⟨counts.balance, fun quiet returned => ?_, fun notAssigning => ?_,
    fun notAssigning exact early => ?_, counts.mostTested_le, by omega, fun stuck => ?_,
    fun forks => ?_⟩
  · refine Nat.eq_zero_of_not_pos fun some => ?_
    rcases counts.announced some with held | looking
    · rw [quiet] at held
      cases held
    · exact looking returned
  · rw [← Launcher.reported_eq notAssigning]
    exact counts.highest
  · have highest := counts.highest
    have reached := counts.reached early
    rw [Launcher.reported_eq notAssigning] at highest reached
    omega
  · rcases counts.ended_of_stuck stuck with finished | exited
    · exact .inl ⟨finished, counts.gone finished⟩
    · exact .inr exited
  · refine Launcher.run_exited events forks ?_
    rcases Launcher.atLoop_cases nclients with ⟨none, loop⟩ | ⟨some, loop⟩
    · simp [Launcher.start, loop]
    · simp [Launcher.start, loop]

/-- Two clients end before the signal is handled: the handler waits for both. -/
def bothAtOnce : List Event :=
  [.fork true, .load, .store, .test, .assign, .fork true, .terminate, .terminate, .deliver, .waitpid,
    .decrement, .waitpid, .decrement, .waitpid, .load, .store, .test]

theorem launcher_reports_bothAtOnce :
    Reports 2 bothAtOnce ((launchers 2).run (.start 2) bothAtOnce) :=
  launcher_reports (by decide)

/-- The first client ends between the load and the store that count the second. -/
def betweenLoadAndStore : List Event :=
  [.fork true, .load, .store, .test, .assign, .fork true, .load, .terminate, .deliver, .waitpid,
    .decrement, .waitpid, .store, .test, .assign]

example : let l := (launchers 2).run (.start 2) betweenLoadAndStore
    (launchers 2).Runs (.start 2) betweenLoadAndStore ∧ l.maxConcurrent = 2 ∧
      l.currentConcurrent = 2 ∧ l.running + l.terminated = 1 := by
  decide

end Zeos.LaunchClient
