import Mathlib.Data.BitVec
import Zeos.Library.Meter
import Zeos.Schedule.Effects

/-!
# The statistics of a task as a meter

`p_stats` books the time of a task on four counters; `elapsed_total_ticks` is the
mark. `update_stats` charges the meter. Where the clock is read twice, the ticks
between the two readings are skipped.
-/

namespace Zeos

open Library

instance counters : Fintype Counter where
  elems := {.userTicks, .systemTicks, .blockedTicks, .readyTicks}
  complete counter := by cases counter <;> decide

instance ticksGroup : AddCommGroup DWord := BitVec.instCommRing.toRing.toAddCommGroup

def Stats.count (stats : Stats) : Counter → DWord
  | .userTicks => stats.userTicks
  | .systemTicks => stats.systemTicks
  | .blockedTicks => stats.blockedTicks
  | .readyTicks => stats.readyTicks

def Stats.meter (stats : Stats) : Meter Counter DWord := ⟨stats.count, stats.elapsedTotalTicks⟩

def Stats.Accounts (stats : Stats) (begun : DWord) : Prop :=
  stats.userTicks + stats.systemTicks + stats.blockedTicks + stats.readyTicks =
    stats.elapsedTotalTicks - begun

theorem Stats.accounts_iff (stats : Stats) (begun : DWord) :
    stats.Accounts begun ↔ stats.meter.balance = -begun := by
  have total : ∑ counter, stats.meter.count counter =
      stats.userTicks + stats.systemTicks + stats.blockedTicks + stats.readyTicks := by
    show ∑ counter ∈ {.userTicks, .systemTicks, .blockedTicks, .readyTicks}, stats.count counter = _
    rw [Finset.sum_insert (by decide), Finset.sum_insert (by decide),
      Finset.sum_insert (by decide), Finset.sum_singleton, ← add_assoc, ← add_assoc]
    rfl
  rw [← Meter.sum_eq_iff, total]
  rfl

theorem Stats.accounts_start {stats : Stats} {now : DWord} (started : stats.meter = .start now) :
    stats.Accounts stats.elapsedTotalTicks := by
  have mark : stats.elapsedTotalTicks = now := congrArg Meter.mark started
  rw [accounts_iff, started, Meter.balance_start, mark]

theorem Stats.of_start {stats : Stats} {now : DWord} (started : stats.meter = .start now) :
    (∀ v, stats.count v = 0) ∧ stats.elapsedTotalTicks = now :=
  ⟨fun v => congrFun (congrArg Meter.count started) v, congrArg Meter.mark started⟩

theorem Stats.charge_meter (stats : Stats) (now : DWord) (v : Counter) :
    ({ stats.charge (now - stats.elapsedTotalTicks) v with elapsedTotalTicks := now } : Stats).meter
      = stats.meter.charge v now := by
  have counts : ∀ other, (stats.charge (now - stats.elapsedTotalTicks) v).count other =
      (stats.meter.charge v now).count other := by
    intro other
    cases v <;> cases other <;> rfl
  exact congrArg (Meter.mk · now) (funext counts)

/-- From a meter to a later one: the mark moves forward, no counter grows by more, and
only some counters change. -/
structure Books (kinds : Counter → Prop) (before after : Stats) : Prop where
  forward : before.elapsedTotalTicks ≤ after.elapsedTotalTicks
  bounded : ∀ v, after.count v - before.count v ≤ after.elapsedTotalTicks - before.elapsedTotalTicks
  other : ∀ v, ¬ kinds v → after.count v = before.count v

section

variable {kinds : Counter → Prop} {before middle after : Stats} {now later : DWord} {v : Counter}

theorem Books.of_meter (same : after.meter = before.meter) : Books kinds before after := by
  have count : after.count = before.count := congrArg Meter.count same
  have mark : after.elapsedTotalTicks = before.elapsedTotalTicks := congrArg Meter.mark same
  refine ⟨by rw [mark]; exact BitVec.le_refl _, fun v => ?_, fun v _ => by rw [count]⟩
  rw [count, mark, BitVec.sub_self, BitVec.sub_self]
  exact BitVec.le_refl _

theorem Books.charge (allowed : kinds v) (past : before.elapsedTotalTicks ≤ now)
    (order : now ≤ later)
    (meter : after.meter = (before.meter.charge v now).skip later) : Books kinds before after := by
  have mark : after.elapsedTotalTicks = later := congrArg Meter.mark meter
  have count : after.count = Function.update before.count v
      (before.count v + (now - before.elapsedTotalTicks)) := congrArg Meter.count meter
  refine ⟨by rw [mark]; exact BitVec.le_trans past order, fun other => ?_, fun other outside => ?_⟩
  · rw [count, mark]
    by_cases same : other = v
    · subst same
      rw [Function.update_self, BitVec.add_comm, BitVec.add_sub_cancel]
      bv_omega
    · rw [Function.update_of_ne same, BitVec.sub_self]
      bv_omega
  · rw [count, Function.update_of_ne fun same : other = v => outside (same ▸ allowed)]

theorem Books.trans (first : Books kinds before middle) (second : Books kinds middle after) :
    Books kinds before after := by
  refine ⟨BitVec.le_trans first.forward second.forward, fun v => ?_, fun v outside => ?_⟩
  · have head := first.bounded v
    have tail := second.bounded v
    have order := first.forward
    have next := second.forward
    bv_omega
  · rw [second.other v outside, first.other v outside]

end

namespace State

def balance (s : State) (t : Task) : DWord := (s.task t).pStats.meter.balance

/-- After so many readings of the clock, the balance of every meter is off by a loss. -/
structure Elapses (s after : State) (reads : Nat) (loss : Task → DWord) : Prop where
  clock : ∀ n, after.clock n = s.clock (n + reads)
  balance : ∀ t, after.balance t = s.balance t + loss t

variable {s middle after : State}

theorem Elapses.of_same (clock : after.clock = s.clock)
    (meters : ∀ t, (after.task t).pStats.meter = (s.task t).pStats.meter) :
    s.Elapses after 0 0 := by
  refine ⟨fun n => by rw [clock]; rfl, fun t => ?_⟩
  rw [State.balance, meters, Pi.zero_apply, add_zero]
  rfl

theorem Elapses.trans {first second : Nat} {lost later : Task → DWord}
    (head : s.Elapses middle first lost) (tail : middle.Elapses after second later) :
    s.Elapses after (first + second) (lost + later) := by
  constructor
  · intro n
    rw [tail.clock, head.clock, Nat.add_assoc, Nat.add_comm second]
  · intro t
    rw [tail.balance, head.balance, add_assoc]
    rfl

theorem Elapses.conserving {first second : Nat} (head : s.Elapses middle first 0)
    (tail : middle.Elapses after second 0) : s.Elapses after (first + second) 0 := by
  simpa using head.trans tail

theorem Elapses.keep {reads : Nat} {loss : Task → DWord} (head : s.Elapses middle reads loss)
    (tail : middle.Elapses after 0 0) : s.Elapses after reads loss := by
  simpa using head.trans tail

theorem Elapses.keeping {reads : Nat} {loss : Task → DWord} (head : s.Elapses middle 0 0)
    (tail : middle.Elapses after reads loss) : s.Elapses after reads loss := by
  simpa using head.trans tail

theorem setTask_elapses (s : State) (task : Task) {f : TaskStruct → TaskStruct}
    (meter : (f (s.task task)).pStats.meter = (s.task task).pStats.meter) :
    s.Elapses (s.setTask task f) 0 0 := by
  refine .of_same rfl fun t => ?_
  rw [setTask_task]
  split
  · rename_i same
    rw [same, meter]
  · rfl

theorem setStats_stats (s : State) (task t : Task) (f : Stats → Stats) :
    ((s.setStats task f).task t).pStats =
      if t = task then f (s.task task).pStats else (s.task t).pStats := by
  rw [setStats, setTask_task]
  split <;> rfl

theorem updateStats_meter (s : State) (task t : Task) (v : Counter) :
    ((s.updateStats task v).task t).pStats.meter =
      if t = task then (s.task t).pStats.meter.charge v (s.clock 0) else (s.task t).pStats.meter := by
  simp only [updateStats, getTicks, setStats_stats]
  split
  · rename_i same
    rw [same, Stats.charge_meter]
  · rfl

/-- Two readings charge the meter and skip what passes between them. -/
theorem addTicks_meter (s : State) (task t : Task) (v : Counter) :
    ((s.addTicks task v).task t).pStats.meter =
      if t = task then ((s.task t).pStats.meter.charge v (s.clock 0)).skip (s.clock 1)
      else (s.task t).pStats.meter := by
  simp only [addTicks, getTicks, setStats_stats, if_true]
  split
  · rename_i same
    rw [same, ← Stats.charge_meter]
    rfl
  · rfl

theorem updateStats_elapses (s : State) (task : Task) (v : Counter) :
    s.Elapses (s.updateStats task v) 1 0 := by
  refine ⟨fun n => rfl, fun t => ?_⟩
  rw [balance, updateStats_meter, Pi.zero_apply, add_zero]
  split
  · exact Meter.balance_charge _ _ _
  · rfl

theorem addTicks_elapses (s : State) (task : Task) (v : Counter) :
    s.Elapses (s.addTicks task v) 2 (Pi.single task (s.clock 0 - s.clock 1)) := by
  refine ⟨fun n => rfl, fun t => ?_⟩
  rw [balance, addTicks_meter]
  split
  · rename_i same
    subst same
    rw [Meter.balance_skip, Meter.balance_charge, Pi.single_eq_same]
    rfl
  · rename_i apart
    rw [Pi.single_eq_of_ne apart, add_zero]
    rfl

theorem Relinks.elapses {after : State} (relinks : s.Relinks after) : s.Elapses after 0 0 := by
  obtain ⟨_, _, rfl, _⟩ := relinks
  exact .of_same rfl fun _ => rfl

theorem prepareRr_elapses (s : State) (t : Task) : s.Elapses (s.prepareRr t) 2 0 := by
  have running : s.Elapses (s.setState t .ST_RUN) 0 0 := s.setTask_elapses t rfl
  unfold prepareRr
  dsimp only
  generalize s.setState t .ST_RUN = middle at running ⊢
  have loaded : s.Elapses
      { middle with remainingQuantum := (middle.task t).totalQuantum } 0 0 :=
    running.keep (.of_same rfl fun _ => rfl)
  have counted := (loaded.keeping (updateStats_elapses _ middle.current .systemTicks)).conserving
    (updateStats_elapses _ t .readyTicks)
  exact counted.keep (setTask_elapses _ t rfl)

section

variable [Image]

theorem taskSwitch_elapses (s : State) (new : Task) : s.Elapses (s.taskSwitch new) 0 0 := by
  refine .of_same (s.taskSwitch_globals new).1 fun t => ?_
  obtain ⟨registerEsp, same⟩ := s.taskSwitch_task new t
  rw [same]

theorem schedNextRr_elapses (s : State) : s.Elapses s.schedNextRr 2 0 := by
  have prepared := s.takeNext_relinks.elapses.keeping (prepareRr_elapses _ s.takeNext.1)
  exact prepared.keep (taskSwitch_elapses _ s.takeNext.1)

theorem schedNextFcfs_elapses (s : State) :
    s.Elapses s.schedNextFcfs 2 (Pi.single s.takeNext.1 (s.clock 0 - s.clock 1)) := by
  have chosen := s.takeNext_relinks.elapses
  have counted := addTicks_elapses s.takeNext.2 s.takeNext.1 .readyTicks
  rw [chosen.clock, chosen.clock] at counted
  exact (chosen.keeping counted).keep (taskSwitch_elapses _ s.takeNext.1)

end

theorem updateProcessStateRr_elapses (s : State) (t : Task) (queue : Queue) :
    s.Elapses (s.updateProcessStateRr t (some queue)) (if queue = .readyqueue then 1 else 0) 0 := by
  obtain ⟨middle, relinks, result⟩ := s.updateProcessStateRr_relinks t queue
  rw [result]
  split
  · exact (relinks.elapses.keeping (updateStats_elapses middle t .systemTicks)).keep
      (setTask_elapses _ t rfl)
  · exact relinks.elapses.keep (setTask_elapses middle t rfl)

theorem updateProcessStateFcfs_elapses (s : State) (t : Task) (dst : Option Queue) :
    s.Elapses (s.updateProcessStateFcfs t dst) 0 0 :=
  (s.updateProcessStateFcfs_relinks t dst).elapses

theorem needsSchedRr_elapses (s : State) : s.Elapses s.needsSchedRr.2 0 0 := by
  obtain ⟨quantum, result⟩ := s.needsSchedRr_writes
  rw [result]
  exact .of_same rfl fun _ => rfl

end State

end Zeos
