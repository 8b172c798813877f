import Zeos.Schedule.Start
import Zeos.Space.Layout

/-!
# Memory after boot

`init_table_pages` leaves ten equal tables; `set_user_pages` then gives the first
process its code and data pages.
-/

namespace Zeos

open Library

namespace Mm

variable {mm : Mm} {table : Task}

theorem allocFrame_pagusrTable (mm : Mm) : mm.allocFrame.2.pagusrTable = mm.pagusrTable := by
  unfold allocFrame
  split <;> rfl

theorem setUserPage_page_ne (mm : Mm) (table t : Task) {page place : Nat} (rw : Bool)
    (apart : place ≠ page) :
    (mm.setUserPage table page rw).pagusrTable t place = mm.pagusrTable t place := by
  rw [setUserPage, setEntry_page_ne _ _ _ _ apart, allocFrame_pagusrTable]

theorem setUserRange_first (mm : Mm) (table : Task) (first : Nat) (rw : Bool) (count : Nat) :
    (setUserRange table first rw (count + 1) mm).pagusrTable table first =
      (mm.setUserPage table first rw).pagusrTable table first := by
  induction count with
  | zero => rfl
  | succ count inductionHypothesis =>
      rw [setUserRange, setUserPage_page_ne _ _ _ _ (by omega), inductionHypothesis]

variable [image : Image]

structure Fresh (mm : Mm) : Prop where
  rows : ∀ t, mm.dirPages t = { present := true, rw := true, user := true, pbaseAddr := t }
  tables : ∀ t page, mm.pagusrTable t page = initTableEntry page
  free : ∀ frame, NUM_PAG_KERNEL ≤ frame → frame < TOTAL_PAGES → mm.physMem frame = FREE_FRAME
  freed : mm.freed = []
  fault : mm.fault = false

theorem Fresh.pool (fresh : mm.Fresh) : mm.Pool fun _ _ => False where
  accounted := by
    refine ⟨fun frame => ⟨?_, fun ⟨_, held⟩ => held.elim⟩, fun held => held.elim⟩
    rintro ⟨low, high, used⟩
    rw [fresh.free frame low high] at used
    exact absurd used (by decide)
  marked frame low high := .inl (fresh.free frame low high)
  known held := held.elim
  single held := held.elim

theorem Fresh.allocFrame (fresh : mm.Fresh) : mm.allocFrame.1 = some NUM_PAG_KERNEL := by
  have found : allocatable.find? (fun frame => mm.physMem frame = FREE_FRAME) =
      some NUM_PAG_KERNEL := by
    have head : allocatable = NUM_PAG_KERNEL :: List.range' (NUM_PAG_KERNEL + 2) 383 2 := rfl
    rw [head, List.find?_cons_of_pos]
    simpa using fresh.free NUM_PAG_KERNEL (Nat.le_refl _) (by decide)
  simp only [Mm.allocFrame, found]

def codeFrame (mm : Mm) (table : Task) (pag : Nat) : Nat :=
  mm.getFrame table (PAG_LOG_INIT_CODE + pag)

theorem Fresh.setUserPages (fresh : mm.Fresh) {idle : Task} (apart : idle ≠ table) :
    (mm.setUserPages table).Original (codeFrame (mm.setUserPages table) table) table ∧
      Space (codeFrame (mm.setUserPages table) table) (mm.setUserPages table) (· = table)
        idle := by
  have codes := fresh.pool.setUserRange .code (fun _ _ same => Owner.code.inj same) table
    PAG_LOG_INIT_CODE false NUM_PAG_CODE (fun pag bound => Owner.code_mem_all.mpr bound)
    fun _ _ _ held => held
  have start := setUserRange_first mm table PAG_LOG_INIT_CODE false 7
  unfold Mm.setUserPages
  generalize setUserRange table PAG_LOG_INIT_CODE false NUM_PAG_CODE mm = coded at *
  have datas := codes.pool.setUserRange (.data table) (fun _ _ same => (Owner.data.inj same).2)
    table PAG_LOG_INIT_DATA true NUM_PAG_DATA (fun pag bound => Owner.data_mem_all.mpr bound) (by
      rintro pag _ frame (held | ⟨_, _, other, _⟩)
      · exact held
      · exact Owner.noConfusion other)
  generalize setUserRange table PAG_LOG_INIT_DATA true NUM_PAG_DATA coded = after at *
  obtain ⟨_, _, _, codeShape⟩ := codes.remaps.same
  obtain ⟨_, _, _, dataShape⟩ := datas.remaps.same
  have codePage : ∀ pag < NUM_PAG_CODE, after.pagusrTable table (PAG_LOG_INIT_CODE + pag) =
      coded.pagusrTable table (PAG_LOG_INIT_CODE + pag) := by
    intro pag bound
    exact datas.remaps.entry table _ fun inside => absurd inside.2.1 (by simp at *; omega)
  have codeFrames : ∀ pag < NUM_PAG_CODE,
      coded.getFrame table (PAG_LOG_INIT_CODE + pag) = codeFrame after table pag := by
    intro pag bound
    rw [codeFrame, getFrame, getFrame, codePage pag bound]
  have untouched : ∀ t page, ¬ (t = table ∧ PAG_LOG_INIT_CODE ≤ page ∧
      page < PAG_LOG_INIT_DATA + NUM_PAG_DATA) →
        after.pagusrTable t page = initTableEntry page := by
    intro t page outside
    rw [datas.remaps.entry t page fun inside => outside ⟨inside.1, by simp at *; omega, inside.2.2⟩,
      codes.remaps.entry t page fun inside => outside ⟨inside.1, inside.2.1, by simp at *; omega⟩,
      fresh.tables]
  have original : after.Original (codeFrame after table) table := by
    refine ⟨fun page bound => untouched table page fun inside => ?_, fun pag bound => ?_⟩
    · exact absurd inside.2.1 (by simp at *; omega)
    · rw [codePage pag bound, codes.entry pag bound, codeFrames pag bound]
  refine ⟨original, ?_⟩
  constructor
  · intro t
    rw [dataShape, codeShape]
    exact fresh.rows t
  · exact fun page => untouched idle page fun inside => apart inside.1
  · rintro t rfl
    exact .inl original
  · rintro t rfl pag bound
    exact datas.entry pag bound
  · intro t page high
    rw [untouched t page fun inside => absurd inside.2.2 (by omega)]
    exact if_pos (.inr (by simp at *; omega))
  · refine datas.pool.congr rfl ?_
    rintro (pag | ⟨t, pag⟩) frame
    · constructor
      · rintro ⟨bound, same⟩
        exact .inl (.inr ⟨pag, bound, rfl, same.trans (codeFrames pag bound).symm⟩)
      · rintro ((held | ⟨other, bound, mine, same⟩) | ⟨_, _, mine, _⟩)
        · exact held.elim
        · obtain rfl := Owner.code.inj mine
          exact ⟨bound, same.trans (codeFrames pag bound)⟩
        · exact Owner.noConfusion mine
    · constructor
      · rintro ⟨rfl, bound, same⟩
        exact .inr ⟨pag, bound, rfl, same⟩
      · rintro ((held | ⟨_, _, mine, _⟩) | ⟨other, bound, mine, same⟩)
        · exact held.elim
        · exact Owner.noConfusion mine
        · obtain ⟨rfl, rfl⟩ := Owner.data.inj mine
          exact ⟨rfl, bound, same⟩
  · show after.getFrame table (PAG_LOG_INIT_CODE + 0) = NUM_PAG_KERNEL
    rw [getFrame, codePage 0 (by decide), Nat.add_zero, start, setUserPage, setEntry_self,
      fresh.allocFrame]
    rfl
  · rintro a b rfl rfl _ _
    rfl
  · rw [datas.freed, codes.freed, fresh.freed]
    exact fun release member => absurd member (List.not_mem_nil)
  · rw [dataShape, codeShape]
    exact fresh.fault

end Mm

variable [image : Image]

def startMemory (memory : State) : Mm := memory.load.initMm.mm

theorem startMemory_fresh (memory : State) : (startMemory memory).Fresh where
  rows t := rfl
  tables t page := rfl
  free frame low high := by
    show (if frame < NUM_PAG_KERNEL then USED_FRAME else if frame < TOTAL_PAGES then FREE_FRAME
      else _) = FREE_FRAME
    rw [if_neg (Nat.not_lt.mpr low), if_pos high]
  freed := rfl
  fault := rfl

theorem task1Into_mm (s : State) (c : Task) :
    (s.task1Into c).mm = (s.mm.setUserPages (s.mm.dirPages c).pbaseAddr).setCr3 c := by
  simp [State.task1Into, State.getPT, State.getDIR, State.setCr3, State.allocateDIR,
    State.initStats, State.setStats, State.getTicks, State.setTask]

theorem boot_mm (memory : State) :
    memory.boot.mm = ((startMemory memory).setUserPages 1).setCr3 1 := by
  have before : (((memory.prepare.listDel (.node 0)).idleInto 0).listDel (.node 1)).mm =
      startMemory memory := memory.prepare_quiet.mm
  generalize idles : ((memory.prepare.listDel (.node 0)).idleInto 0).listDel (.node 1) = s at *
  have started : memory.boot = { s.task1Into 1 with trace := [] } := by
    rw [State.boot_eq, idles]
  rw [started]
  refine (task1Into_mm s 1).trans ?_
  rw [before, (startMemory_fresh memory).rows]

theorem boot_dirs (memory : State) {t : Task} (notFree : t ∉ Queues.boot.on .freequeue) :
    (memory.boot.task t).dirPagesBaseAddr = t := by
  have isFirst : t = 0 ∨ t = 1 := by
    by_contra neither
    rw [not_or] at neither
    exact notFree (Queues.mem_boot.mpr ⟨rfl, neither⟩)
  rw [State.boot_eq]
  rcases isFirst with rfl | rfl
  · rfl
  · rfl

end Zeos
