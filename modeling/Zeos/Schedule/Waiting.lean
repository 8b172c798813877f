import Zeos.Schedule.RoundRobin

/-!
# Bounded waiting

Under round robin a ready task waits for no more than a whole quantum of each task
ahead of it and of the running one: its place in the queue times the largest quantum,
plus what is left of the running task's, goes down at each tick.
-/

namespace Zeos

open Library

def Within (bound : Int) (quantum : DWord) : Prop := 1 ≤ quantum.toInt ∧ quantum.toInt ≤ bound

instance (bound : Int) (quantum : DWord) : Decidable (Within bound quantum) :=
  inferInstanceAs (Decidable (_ ∧ _))

namespace State

variable (s after : State)

/-- Every task's quantum is set, with some of the running task's left. -/
def withQuanta (quanta : Task → DWord) (remaining : DWord) : State :=
  { s with
    task := fun t => { s.task t with totalQuantum := quanta t }
    remainingQuantum := remaining }

/-- `remaining_quantum` is between 1 and the `total_quantum` of the running task. -/
def QuantumLeft : Prop := Within (s.task s.current).totalQuantum.toInt s.remainingQuantum

def Ready (tasks : List Task) : Prop := s.links.Ring (.head .readyqueue) (tasks.map .node)

def Ahead (t : Task) (k : Nat) : Prop :=
  ∃ ahead behind, ahead.length = k ∧ s.Ready (ahead ++ t :: behind)

/-- New tasks go to the end of the ready queue, and only its first task leaves it, for
the processor. Idle gets the processor when no task is ready. -/
def ServedInOrder : Prop :=
  ∃ ready entered later, s.Ready ready ∧ after.Ready later ∧ (ready ++ entered).Nodup ∧
    ((later = ready ++ entered ∧ after.current = s.current) ∨
      ready ++ entered = after.current :: later ∨
      (ready ++ entered = [] ∧ later = [] ∧ after.current = s.idleTask))

end State

section

variable [Image]

def roundRobin (Q : Nat) (memory : State) : System State Op where
  initial s := ∃ quanta remaining, (∀ t, Within Q (quanta t)) ∧
    Within (quanta memory.boot.current).toInt remaining ∧
    s = memory.boot.withQuanta quanta remaining
  enabled := State.Enabled
  next := State.step .rr

variable {Q : Nat} {memory s after : State} {queues later : Queues}

omit [Image] in
theorem counts_down {quantum less : DWord} {tick : Bool} (positive : 1 ≤ quantum.toInt)
    (some : less ≠ 0) (counts : less + (if tick then 1 else 0) = quantum) :
    1 ≤ less.toInt ∧ less.toInt ≤ quantum.toInt ∧
      less.toNat + (if tick then 1 else 0) = quantum.toNat := by
  have nonzero : less.toNat ≠ 0 := fun zero => some (BitVec.eq_of_toNat_eq zero)
  have bound := less.isLt
  rw [BitVec.toInt_eq_toNat_cond] at positive
  rw [BitVec.toInt_eq_toNat_cond, BitVec.toInt_eq_toNat_cond]
  cases tick with
  | false =>
      obtain rfl : less = quantum := (BitVec.add_zero _).symm.trans counts
      simp only [Bool.false_eq_true, if_false]
      omega
  | true =>
      subst counts
      simp only [if_true, BitVec.toNat_add] at positive ⊢
      have one : (1 : DWord).toNat = 1 := rfl
      rw [one] at positive ⊢
      omega

/-- The invariant: every live task has a quantum, and some of the running one's is left. -/
structure Paced (Q : Nat) (s : State) (queues : Queues) : Prop where
  sched : Sched .RR s queues
  within : ∀ t, t ∉ queues.on .freequeue → Within Q (s.task t).totalQuantum
  left : s.QuantumLeft

omit [Image] in
theorem Paced.remaining (paced : Paced Q s queues) : s.remainingQuantum ≠ 0 := by
  intro zero
  have positive := paced.left.1
  rw [zero] at positive
  exact absurd positive (by decide)

omit [Image] in
theorem Paced.remaining_le (paced : Paced Q s queues) :
    1 ≤ s.remainingQuantum.toNat ∧ s.remainingQuantum.toNat ≤ Q := by
  obtain ⟨positive, atMost⟩ := paced.left
  have bound := (paced.within s.current (paced.sched.current_off _)).2
  have small := s.remainingQuantum.isLt
  rw [BitVec.toInt_eq_toNat_cond] at positive atMost
  split at positive <;> omega

theorem Paced.next (paced : Paced Q s queues) {op : Op} (enabled : s.Enabled op) :
    ∃ later entered, Paced Q (s.step .rr op) later ∧
      Turn op.isTick s (queues.on .readyqueue) entered (later.on .readyqueue) (s.step .rr op) := by
  obtain ⟨later, entered, sched, turn, inherits⟩ :=
    paced.sched.step_proceeds paced.remaining enabled
  have within : ∀ t, t ∉ later.on .freequeue → Within Q ((s.step .rr op).task t).totalQuantum := by
    intro t live
    obtain ⟨u, alive, total⟩ := inherits.new t live
    rw [total]
    exact paced.within u alive
  have running := within _ (sched.current_off .freequeue)
  refine ⟨later, entered, ⟨sched, within, ?_⟩, turn⟩
  cases turn with
  | goesOn _ current counts =>
      obtain ⟨positive, less, _⟩ := counts_down paced.left.1 counts.1 counts.2
      have same := inherits.old s.current (paced.sched.current_off _)
      rw [State.QuantumLeft, current, same]
      exact ⟨positive, Int.le_trans less paced.left.2⟩
  | renewed _ _ _ whole =>
      rw [State.QuantumLeft, whole]
      exact ⟨running.1, Int.le_refl _⟩
  | handsOver _ _ whole =>
      rw [State.QuantumLeft, whole]
      exact ⟨running.1, Int.le_refl _⟩

theorem Paced.servedInOrder (paced : Paced Q s queues) {op : Op} (enabled : s.Enabled op) :
    s.ServedInOrder (s.step .rr op) := by
  obtain ⟨later, entered, after, turn⟩ := paced.next enabled
  have distinct := later.nodup .readyqueue
  refine ⟨queues.on .readyqueue, entered, later.on .readyqueue,
    paced.sched.represents.ring _, after.sched.represents.ring _, ?_⟩
  cases turn with
  | goesOn queue current => exact ⟨queue ▸ distinct, .inl ⟨queue, current⟩⟩
  | renewed alone queue current =>
      rw [alone, List.nil_append]
      exact ⟨queue ▸ distinct, .inl ⟨queue, current⟩⟩
  | handsOver queue current =>
      cases tasks : queues.on .readyqueue ++ entered with
      | nil =>
          rw [tasks] at queue current
          exact ⟨List.nodup_nil, .inr (.inr ⟨rfl, queue, current⟩)⟩
      | cons first rest =>
          rw [tasks] at queue current
          have off := after.sched.current_off .readyqueue
          rw [queue, current] at off
          rw [queue] at distinct
          exact ⟨List.nodup_cons.mpr ⟨off, distinct⟩, .inr (.inl (by rw [queue, current]; rfl))⟩

/-- The ticks a ready task may still have to wait. -/
inductive Waits (Q : Nat) (t : Task) (s : State) : Nat → Prop where
  | behind {queues : Queues} {ahead behind : List Task} (paced : Paced Q s queues)
      (place : queues.on .readyqueue = ahead ++ t :: behind) :
      Waits Q t s (ahead.length * Q + s.remainingQuantum.toNat)

/-- The measure goes down at each tick, and never up. -/
theorem Waits.next {t : Task} {value : Nat} (waits : Waits Q t s value) {op : Op}
    (enabled : s.Enabled op) (stays : (s.step .rr op).OnQueue t .readyqueue) :
    ∃ less, Waits Q t (s.step .rr op) less ∧ less + (if op.isTick then 1 else 0) ≤ value := by
  obtain @⟨queues, ahead, behind, paced, place⟩ := waits
  obtain ⟨later, entered, after, turn⟩ := paced.next enabled
  have member := after.sched.represents.on_iff.mp stays
  cases turn with
  | goesOn queue current counts =>
      rw [place, List.append_assoc] at queue
      have less := (counts_down paced.left.1 counts.1 counts.2).2.2
      exact ⟨_, .behind after queue, by omega⟩
  | renewed alone =>
      rw [place] at alone
      exact absurd alone (List.append_ne_nil_of_right_ne_nil _ (List.cons_ne_nil _ _))
  | handsOver queue current =>
      rw [place, List.append_assoc] at queue current
      cases ahead with
      | nil =>
          have running : (s.step .rr op).current = t := current
          exact absurd member (running ▸ after.sched.current_off .readyqueue)
      | cons first rest =>
          have start := paced.remaining_le
          have turn := after.remaining_le
          refine ⟨_, .behind after queue, ?_⟩
          rw [List.length_cons, Nat.succ_mul]
          split <;> omega

omit [Image] in
theorem Paced.waits (paced : Paced Q s queues) {t : Task} {k : Nat} (place : s.Ahead t k) :
    ∃ value, Waits Q t s value ∧ value ≤ (k + 1) * Q := by
  obtain ⟨ahead, behind, rfl, ready⟩ := place
  have same := (paced.sched.represents.ring .readyqueue).unique ready
  have tasks : queues.on .readyqueue = ahead ++ t :: behind :=
    List.map_injective_iff.mpr (fun _ _ => Link.node.inj) same
  have atMost := paced.remaining_le.2
  refine ⟨_, .behind paced tasks, ?_⟩
  rw [Nat.succ_mul]
  omega

theorem boot_paced {quanta : Task → DWord} {remaining : DWord} (within : ∀ t, Within Q (quanta t))
    (left : Within (quanta memory.boot.current).toInt remaining) :
    Paced Q (memory.boot.withQuanta quanta remaining) .boot := by
  have sched := boot_sched .RR memory
  generalize memory.boot = s at sched left ⊢
  exact ⟨⟨sched.toPlaced.congr rfl rfl rfl fun _ _ => rfl, sched.running⟩, fun t _ => within t, left⟩

theorem paced_of_reachable (reachable : (roundRobin Q memory).Reachable s) :
    ∃ queues, Paced Q s queues := by
  have start : ∀ s, (roundRobin Q memory).initial s → ∃ queues, Paced Q s queues := by
    rintro s ⟨quanta, remaining, within, left, rfl⟩
    exact ⟨_, boot_paced within left⟩
  refine reachable.invariant start ?_
  rintro s op ⟨queues, paced⟩ enabled
  obtain ⟨later, _, after, _⟩ := paced.next enabled
  exact ⟨later, after⟩

/-- Under round robin some of the running task's quantum is always left, the ready queue
is served in order, and a task with `k` others ahead of it does not stay on it for
`(k + 1) * Q` ticks. -/
theorem bounded_waiting (reachable : (roundRobin Q memory).Reachable s) :
    s.QuantumLeft ∧ (∀ op, s.Enabled op → s.ServedInOrder (s.step .rr op)) ∧
      ∀ (ops : List Op) (t : Task) (k : Nat), (roundRobin Q memory).Runs s ops → s.Ahead t k →
        (roundRobin Q memory).Always (fun s => s.OnQueue t .readyqueue) s ops →
        ops.countP Op.isTick < (k + 1) * Q := by
  obtain ⟨queues, paced⟩ := paced_of_reachable reachable
  refine ⟨paced.left, fun op enabled => paced.servedInOrder enabled,
    fun ops t k runs place always => ?_⟩
  obtain ⟨value, waits, atMost⟩ := paced.waits place
  obtain ⟨less, last, fewer⟩ := @System.countP_le_of_measure _ _ (roundRobin Q memory)
    (fun s => s.OnQueue t .readyqueue) (Waits Q t) Op.isTick
    (fun s op value waits enabled _ stays => Waits.next waits enabled stays)
    s ops runs always value waits
  obtain ⟨final, _⟩ := last
  have some := final.remaining_le.1
  omega

end

/-- The sample machine, with seven ticks for everybody and five of them left. -/
def sampleTurns : State := sampleBoot.withQuanta (fun _ => 7) 5

theorem bounded_waiting_boot : sampleTurns.QuantumLeft ∧
    (∀ op, sampleTurns.Enabled op →
      sampleTurns.ServedInOrder (@State.step Image.sample (@Policy.rr Image.sample) sampleTurns op)) ∧
    ∀ (ops : List Op) (t : Task) (k : Nat),
      (@roundRobin Image.sample 7 State.blank).Runs sampleTurns ops → sampleTurns.Ahead t k →
      (@roundRobin Image.sample 7 State.blank).Always (fun s => s.OnQueue t .readyqueue)
        sampleTurns ops →
      ops.countP Op.isTick < (k + 1) * 7 := by
  have within : Within 7 7 := by decide
  have left : Within 7 5 := by decide
  exact @bounded_waiting Image.sample 7 State.blank sampleTurns
    (.initial ⟨fun _ => 7, 5, fun _ => within, left, rfl⟩)

end Zeos
