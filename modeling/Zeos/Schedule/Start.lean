import Zeos.Kernel.Boot
import Zeos.Schedule.Placement

/-!
# Where every task is after boot

All slots go on the free queue; the first becomes idle, the second the running
task.
-/

namespace Zeos

open Library

namespace State

theorem freeSlot_quiet (s : State) (i : Task) : s.Quiet (s.freeSlot i) := by
  refine ⟨rfl, rfl, rfl, rfl, rfl, rfl, fun t => ?_, fun t => ?_⟩ <;>
    by_cases same : t = i <;> simp [freeSlot, setTask, listAddTail, same]

theorem foldl_freeSlot_quiet (tasks : List Task) (s : State) :
    s.Quiet (tasks.foldl freeSlot s) := by
  induction tasks generalizing s with
  | nil => exact .refl s
  | cons i rest inductionHypothesis =>
      exact (s.freeSlot_quiet i).trans (inductionHypothesis _)

theorem foldl_freeSlot_ring (tasks : List Task) (s : State) (done : List Task)
    (ring : s.links.Ring (.head .freequeue) (done.map .node)) (nodup : (done ++ tasks).Nodup) :
    (tasks.foldl freeSlot s).links.Ring (.head .freequeue) ((done ++ tasks).map .node) := by
  induction tasks generalizing s done with
  | nil => simpa using ring
  | cons i rest inductionHypothesis =>
      have fresh : Link.node i ∉ Link.head .freequeue :: done.map .node := by
        rw [List.nodup_append'] at nodup
        simpa using fun member => nodup.2.2 member List.mem_cons_self
      have grown : (s.freeSlot i).links.Ring (.head .freequeue) ((done ++ [i]).map .node) := by
        rw [List.map_append]
        exact listAddTail_ring ring fresh
      have next := inductionHypothesis _ _ grown (by simpa using nodup)
      simpa using next

end State

def Queues.start : Queues where
  on
    | .freequeue => List.finRange NR_TASKS
    | _ => []
  nodup queue := by cases queue <;> simp [List.nodup_finRange]
  apart {queue other task} first second := by cases queue <;> cases other <;> simp at *

namespace State

theorem initSched_links_free (s : State) :
    s.initSched.links.Ring (.head .freequeue) ((Queues.start.on .freequeue).map .node) := by
  have ring := foldl_freeSlot_ring (List.finRange NR_TASKS) (s.initListHead .freequeue) []
    (initListHead_ring s.links (.head .freequeue)) (List.nodup_finRange NR_TASKS)
  refine ring.congr ?_ ?_ <;>
    · intro cell member
      have apart : cell ≠ Link.head .readyqueue := by
        rintro rfl
        simp at member
      simp [initSched, initFreequeue, initListHead, initListHead_other _ apart]

section

variable [Image]

theorem prepare_represents (s : State) : Represents s.prepare.links Queues.start := by
  constructor
  · intro queue
    cases queue with
    | freequeue =>
        refine (initSched_links_free s.load.initMm).congr ?_ ?_ <;>
          · intro cell member
            cases cell with
            | head queue =>
                cases queue with
                | freequeue => rfl
                | readyqueue => rfl
                | blocking n => simp at member
            | node task => rfl
    | readyqueue =>
        refine (initListHead_ring s.load.initMm.initFreequeue.links (.head .readyqueue)).congr
          ?_ ?_ <;>
          · intro cell member
            obtain rfl : cell = .head .readyqueue := by simpa using member
            rfl
    | blocking n => exact ⟨⟨rfl, rfl⟩, by simp [Queues.start]⟩
  · intro task off
    exact absurd (List.mem_finRange task) (off .freequeue)

theorem prepare_quiet (s : State) : s.load.initMm.Quiet s.prepare := by
  have heads : (s.load.initMm.initListHead .freequeue).Quiet s.load.initMm.initFreequeue :=
    foldl_freeSlot_quiet _ _
  exact ⟨heads.current, heads.idleTask, heads.mm, heads.cpu, heads.saved, heads.switches, heads.dir,
    heads.registerEsp⟩

theorem boot_eq (s : State) : s.boot =
    { ((((s.prepare.listDel (.node 0)).idleInto 0).listDel (.node 1)).task1Into 1) with
      trace := [] } := by
  have represents := prepare_represents s
  have first : s.prepare.listFirst .freequeue = .node 0 :=
    represents.listFirst (List.finRange NR_TASKS).tail rfl
  have idle : s.prepare.initIdle = (s.prepare.listDel (.node 0)).idleInto 0 := by
    simp only [initIdle, first, listHeadToTaskStruct]
  have removed : Represents ((s.prepare.listDel (.node 0)).idleInto 0).links
      (Queues.start.remove 0) :=
    represents.remove .freequeue (List.mem_finRange 0)
  have second : ((s.prepare.listDel (.node 0)).idleInto 0).listFirst .freequeue = .node 1 :=
    removed.listFirst ((List.finRange NR_TASKS).erase 0).tail rfl
  unfold boot initTask1
  rw [idle, second]
  rfl

@[simp] theorem boot_current (s : State) : s.boot.current = 1 := by
  rw [boot_eq]
  rfl

@[simp] theorem boot_idleTask (s : State) : s.boot.idleTask = 0 := by
  rw [boot_eq]
  rfl

end

end State

def Queues.boot : Queues := (Queues.start.remove 0).remove 1

theorem Queues.mem_boot {task : Task} {queue : Queue} :
    task ∈ Queues.boot.on queue ↔ queue = .freequeue ∧ task ≠ 0 ∧ task ≠ 1 := by
  rw [boot, mem_remove, mem_remove]
  cases queue with
  | freequeue => simp [start, and_comm, List.mem_finRange]
  | readyqueue => simp [start]
  | blocking n => simp [start]

section

variable [Image]

theorem boot_sched (installed : Installed) (memory : State) :
    Sched installed memory.boot Queues.boot := by
  have removed : Represents (memory.prepare.listDel (.node 0)).links (Queues.start.remove 0) :=
    (State.prepare_represents memory).remove .freequeue (List.mem_finRange 0)
  have represents : Represents memory.boot.links Queues.boot := by
    rw [State.boot_eq]
    exact removed.remove .freequeue (Queues.mem_remove.mpr ⟨by decide,
      List.mem_finRange 1⟩)
  have current := memory.boot_current
  have idle := memory.boot_idleTask
  have trace : memory.boot.trace = [] := rfl
  refine ⟨⟨represents, ?_, ?_, ?_, ?_⟩, fun _ => ?_⟩
  · rintro task rfl queue member
    exact (Queues.mem_boot.mp member).2.2 current
  · intro task
    rw [current, idle]
    by_cases isIdle : task = 0
    · exact .inr (.inl isIdle)
    · by_cases isFirst : task = 1
      · exact .inl isFirst
      · exact .inr (.inr ⟨.freequeue, Queues.mem_boot.mpr ⟨rfl, isIdle, isFirst⟩⟩)
  · intro queue task member
    obtain ⟨rfl, isIdle, _⟩ := Queues.mem_boot.mp member
    rw [Fits, idle]
    exact isIdle
  · simp [trace]
  · rw [current, State.boot_eq]
    rfl

end

end Zeos
