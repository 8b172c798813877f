import Zeos.Kernel.Tables
import Zeos.Stacks.Handlers

/-!
# Where the tables lead

The kernel fills in fields; the processor reads bytes. Between them: an interrupt gets to
its handler at level 0, on the stack of the running task, and only an interrupt does.
-/

namespace Zeos

open Library Library.X86

variable {mem : DWord → BitVec 8} {address : DWord}

theorem highWord_lowWord (address : DWord) : highWord address ++ lowWord address = address := by
  have high : highWord address = address.extractLsb' 16 16 := by
    apply BitVec.eq_of_toNat_eq
    simp [highWord]
  rw [high]
  exact @high_append_low 16 16 address

theorem bytes_of_address (address : DWord) :
    highByte address ++ midByte address ++ lowWord address = address := by
  have high : highByte address ++ midByte address = highWord address := by
    have upper : highByte address = (highWord address).extractLsb' 8 8 := by
      apply BitVec.eq_of_getLsbD_eq
      intro index bound
      have inside : 8 + index < 16 := by omega
      simp [highByte, highWord, bound, inside, ← Nat.add_assoc]
    have lower : midByte address = (highWord address).setWidth 8 := by
      apply BitVec.eq_of_getLsbD_eq
      intro index bound
      simp [midByte, highWord]
    rw [upper, lower]
    exact @high_append_low 8 8 (highWord address)
  rw [high]
  exact highWord_lowWord address

theorem Descriptor.length_bytes (descriptor : Descriptor) : descriptor.bytes.length = 8 := rfl

theorem Gate.length_bytes (gate : Gate) : gate.bytes.length = 8 := rfl

def Descriptor.segment (descriptor : Descriptor) : Segment where
  base := descriptor.highBase ++ descriptor.midBase ++ descriptor.lowBase
  limit := segmentLimit descriptor.flags2 descriptor.limit
  access := descriptor.flags1

theorem segmentAt_bytes {descriptor : Descriptor} (stored : Stored mem address descriptor.bytes) :
    segmentAt mem address = descriptor.segment := by
  rw [Descriptor.bytes, List.append_assoc] at stored
  obtain ⟨limit, later⟩ := stored.half
  obtain ⟨lowBase, _⟩ := later.half
  have four : mem (address + 4) = descriptor.midBase := stored 4 _ rfl
  have five : mem (address + 5) = descriptor.flags1 := stored 5 _ rfl
  have six : mem (address + 6) = descriptor.flags2 := stored 6 _ rfl
  have seven : mem (address + 7) = descriptor.highBase := stored 7 _ rfl
  rw [segmentAt, four, five, six, seven, limit, lowBase]
  rfl

theorem gateAt_bytes {gate : Gate} (stored : Stored mem address gate.bytes) :
    gateAt mem address = ⟨gate.highOffset ++ gate.lowOffset, gate.segmentSelector.setWidth 32,
      gate.flags.extractLsb' 8 8⟩ := by
  rw [Gate.bytes, List.append_assoc, List.append_assoc] at stored
  obtain ⟨lowOffset, later⟩ := stored.half
  obtain ⟨selector, last⟩ := later.half
  obtain ⟨_, upper⟩ := last.half
  rw [← List.append_nil (bytes16 gate.highOffset)] at upper
  have highOffset := upper.half.1
  simp only [BitVec.add_assoc] at highOffset
  have five : mem (address + 5) = gate.flags.extractLsb' 8 8 := stored 5 _ rfl
  have six : halfAt mem (address + 6) = gate.highOffset := highOffset
  rw [gateAt, five, six, lowOffset, selector]

section

variable [Image] [HandlerImage]

variable {tables : Tables} {s : State} {setHandlers : Idt → Idt} {idt : Idt}
  {idtAddress tssAddress : DWord} {msr : DWord → BitVec 64}

/-- The tables are where `setGdt`, `setIdt` and `setTSS` say, and hold what they and `ltr` put
there; `tss.esp0` and MSR 0x175 have followed the running task. -/
structure Loaded (tables : Tables) (s : State) (setHandlers : Idt → Idt) (idt : Idt)
    (idtAddress tssAddress : DWord) (msr : DWord → BitVec 64) : Prop where
  gdtr : tables.gdt = gdtR
  idtr : tables.idt = idtR idtAddress
  tr : tables.task = KERNEL_TSS
  msrs : tables.msr = s.msr msr
  segments : Stored tables.mem GDT_START ((setTaskReg (setGdt bootGdt tssAddress)).flatMap Descriptor.bytes)
  gates : Stored tables.mem idtAddress ((setIdt setHandlers idt).toList.flatMap Gate.bytes)
  taskState : Stored tables.mem tssAddress (s.tss.words.flatMap bytes32)

theorem Loaded.segment (loaded : Loaded tables s setHandlers idt idtAddress tssAddress msr)
    {selector : DWord} {descriptor : Descriptor} (global : selector.getLsbD 2 = false)
    (notNull : selector.toNat / 8 ≠ 0)
    (found : (setTaskReg (setGdt bootGdt tssAddress))[selector.toNat / 8]? = some descriptor) :
    tables.segment selector = some descriptor.segment := by
  have bound : selector.toNat / 8 < 7 := by
    by_contra high
    have none : (setTaskReg (setGdt bootGdt tssAddress))[selector.toNat / 8]? = none :=
      List.getElem?_eq_none (by simpa [setTaskReg, setGdt, bootGdt] using high)
    rw [none] at found
    exact absurd found (by simp)
  have stored := loaded.segments.record Descriptor.length_bytes found
  have inside : 8 * (selector.toNat / 8) + 7 ≤ gdtR.limit.toNat := by
    have limit : gdtR.limit.toNat = 2048 := rfl
    omega
  have condition : ¬ (selector.getLsbD 2 = true ∨ selector.toNat / 8 = 0) := by
    rintro (other | null)
    · rw [global] at other
      exact Bool.noConfusion other
    · exact notNull null
  rw [Tables.segment, if_neg condition, loaded.gdtr, Table.slot, if_pos inside]
  exact congrArg some (segmentAt_bytes stored)

theorem Loaded.flat (loaded : Loaded tables s setHandlers idt idtAddress tssAddress msr)
    {selector : DWord} {flags : BitVec 8} (global : selector.getLsbD 2 = false)
    (notNull : selector.toNat / 8 ≠ 0)
    (found : (setTaskReg (setGdt bootGdt tssAddress))[selector.toNat / 8]? = some ⟨0xFFFF, 0, 0, flags, 0xcf, 0⟩)
    (present : Access.present flags = true) (dpl : Access.dpl flags = level selector) :
    ∃ segment, tables.segment selector = some segment ∧ segment.base = 0 ∧
      segment.limit = 0xFFFFFFFF ∧ segment.access.present = true ∧
      segment.access.dpl = level selector := by
  refine ⟨_, loaded.segment global notNull found, ?_, ?_, present, dpl⟩
  · dsimp only [Descriptor.segment]
    decide
  · dsimp only [Descriptor.segment]
    decide

theorem setIdt_vector (handler : Handler) :
    (setIdt setHandlers idt).toList[handler.vector.val]? =
      some (handlerGate (HandlerImage.handler handler) 0) := by
  have apart : ¬ 33 % IDT_ENTRIES = 32 % IDT_ENTRIES := by decide
  cases handler with
  | clock => simp [setIdt, setInterruptHandler, Handler.vector, apart]
  | keyboard => simp [setIdt, setInterruptHandler, Handler.vector]

theorem Loaded.gate (loaded : Loaded tables s setHandlers idt idtAddress tssAddress msr)
    (handler : Handler) : ∃ place, tables.idt.slot handler.vector = some place ∧
      gateAt tables.mem place = ⟨HandlerImage.handler handler, KERNEL_CS, 0x8E⟩ := by
  have stored := loaded.gates.record Gate.length_bytes (setIdt_vector handler)
  have vector : handler.vector.val ≤ 33 := by cases handler <;> decide
  have inside : 8 * handler.vector.val + 7 ≤ (idtR idtAddress).limit.toNat := by
    have limit : (idtR idtAddress).limit.toNat = 2047 := rfl
    omega
  refine ⟨_, by rw [loaded.idtr, Table.slot, if_pos inside], ?_⟩
  have read := gateAt_bytes stored
  simp only [handlerGate, highWord_lowWord] at read
  exact read

theorem Loaded.taskSegment (loaded : Loaded tables s setHandlers idt idtAddress tssAddress msr) :
    tables.segment tables.task = some ⟨tssAddress, 104, 0x8B⟩ := by
  have busy : (0x89 : BitVec 8) ||| 0x02 = 0x8B := by decide
  have segment : tables.segment KERNEL_TSS = some (Descriptor.segment
      ⟨104, lowWord tssAddress, midByte tssAddress, 0x8B, 0, highByte tssAddress⟩) := by
    rw [← busy]
    exact loaded.segment rfl (by decide) rfl
  have limit : segmentLimit 0 104 = 104 := by decide
  rw [loaded.tr, segment, Descriptor.segment, bytes_of_address, limit]

theorem Loaded.taskWord (loaded : Loaded tables s setHandlers idt idtAddress tssAddress msr)
    {index : Nat} {word : DWord} (found : s.tss.words[index]? = some word) :
    Stored tables.mem (tssAddress + BitVec.ofNat 32 (4 * index)) (bytes32 word) :=
  loaded.taskState.record length_bytes32 found

theorem Loaded.stack (loaded : Loaded tables s setHandlers idt idtAddress tssAddress msr) :
    wordAt tables.mem (tssAddress + 4) = s.esp0 ∧
      halfAt tables.mem (tssAddress + 8) = KERNEL_DS.setWidth 16 := by
  have first : s.tss.words[1]? = some s.esp0 := rfl
  have second : s.tss.words[2]? = some KERNEL_DS := rfl
  have esp0 := loaded.taskWord first
  have ss0 := loaded.taskWord second
  rw [← List.append_nil (bytes32 _)] at esp0
  exact ⟨esp0.word.1, ss0.half.1⟩

theorem Loaded.innerStack (loaded : Loaded tables s setHandlers idt idtAddress tssAddress msr) :
    tables.innerStack = some (KERNEL_DS, s.esp0) := by
  obtain ⟨esp0, ss0⟩ := loaded.stack
  have data : tables.segment KERNEL_DS =
      some (Descriptor.segment ⟨0xFFFF, 0, 0, 0x92, 0xcf, 0⟩) :=
    loaded.segment rfl (by decide) rfl
  have same : (KERNEL_DS.setWidth 16).setWidth 32 = KERNEL_DS := rfl
  rw [Tables.innerStack, loaded.taskSegment, Option.bind_some, ss0, same]
  dsimp only
  rw [data, Option.bind_some, esp0]
  exact if_pos (by decide)

theorem Loaded.low (loaded : Loaded tables s setHandlers idt idtAddress tssAddress msr) :
    tables.low 0x174 = KERNEL_CS ∧ tables.low 0x175 = s.esp0 ∧
      tables.low 0x176 = HandlerImage.systemCallHandler := by
  simp only [Tables.low, loaded.msrs, State.msr]
  refine ⟨?_, setMSR_low _ _ _ _, ?_⟩
  · rw [setMSR_other (by decide), setSysenter, setMSR_other (by decide), setMSR_other (by decide)]
    exact setMSR_low _ _ _ _
  · rw [setMSR_other (by decide), setSysenter]
    exact setMSR_low _ _ _ _

/-- The four ways between user mode and the kernel, where the processor decides. -/
structure Crosses (tables : Tables) (s : State) : Prop where
  interrupt : ∀ cpu handler, tables.interrupt cpu (Handler.vector handler) false =
    some (cpu.deliver KERNEL_CS (HandlerImage.handler handler) KERNEL_DS s.esp0)
  refused : ∀ cpu handler, level cpu.cs ≠ 0 →
    tables.interrupt cpu (Handler.vector handler) true = none
  sysenter : tables.sysenter s.cpu = { s.sysenter.cpu with
    eip := HandlerImage.systemCallHandler, eflags := s.cpu.eflags &&& ~~~0x30200 }
  sysexit : ∀ cpu, tables.sysexit cpu = Zeos.sysexit cpu
  /-- All of memory, at the level of the selector. -/
  flat : ∀ selector ∈ [KERNEL_CS, KERNEL_DS, USER_CS, USER_DS], ∃ segment,
    tables.segment selector = some segment ∧ segment.base = 0 ∧ segment.limit = 0xFFFFFFFF ∧
      segment.access.present = true ∧ segment.access.dpl = level selector

omit [Image] [HandlerImage] in
theorem deliver_inner_any {cpu : Cpu} {selector entry ss esp other top : DWord}
    (inner : level cpu.cs = 0) :
    cpu.deliver selector entry ss esp = cpu.deliver selector entry other top := by
  rw [Cpu.deliver_inner inner, Cpu.deliver_inner inner]

/-- Whatever `set_handlers` puts in the other vectors, and wherever the linker puts
handlers, tables and task state. -/
theorem tables_lead_to_handlers
    (loaded : Loaded tables s setHandlers idt idtAddress tssAddress msr) : Crosses tables s := by
  have code : tables.segment KERNEL_CS =
      some (Descriptor.segment ⟨0xFFFF, 0, 0, 0x9a, 0xcf, 0⟩) :=
    loaded.segment rfl (by decide) rfl
  refine ⟨fun cpu handler => ?_, fun cpu handler outer => ?_, ?_, fun cpu => ?_, fun selector => ?_⟩
  · obtain ⟨place, slot, gate⟩ := loaded.gate handler
    have kind : Access.kind 0x8E = 0x0E := by decide
    have present : Access.present 0x8E = true := by decide
    have admits : Tables.Admits cpu false ⟨HandlerImage.handler handler, KERNEL_CS, 0x8E⟩
        (Descriptor.segment ⟨0xFFFF, 0, 0, 0x9a, 0xcf, 0⟩) :=
      ⟨kind, present, fun no => Bool.noConfusion no, by decide, by decide, by decide⟩
    rw [Tables.interrupt, slot, Option.bind_some, gate]
    dsimp only
    rw [code, Option.bind_some, if_pos admits, loaded.innerStack, Option.map_some]
    split
    · next inner => exact congrArg some (deliver_inner_any inner)
    · rfl
  · obtain ⟨place, slot, gate⟩ := loaded.gate handler
    have refuses : ¬ Tables.Admits cpu true ⟨HandlerImage.handler handler, KERNEL_CS, 0x8E⟩
        (Descriptor.segment ⟨0xFFFF, 0, 0, 0x9a, 0xcf, 0⟩) := by
      rintro ⟨_, _, reaches, _⟩
      have zero : Access.dpl 0x8E = 0 := by decide
      have low := reaches rfl
      rw [zero] at low
      exact outer (BitVec.le_zero_iff.mp low)
    rw [Tables.interrupt, slot, Option.bind_some, gate]
    dsimp only
    rw [code, Option.bind_some, if_neg refuses]
  · obtain ⟨cs, esp, eip⟩ := loaded.low
    rw [Tables.sysenter, cs, esp, eip]
    rfl
  · rw [Tables.sysexit, loaded.low.1]
    rfl
  · simp only [List.mem_cons, List.not_mem_nil, or_false]
    rintro (rfl | rfl | rfl | rfl)
    · exact loaded.flat rfl (by decide) rfl (by decide) (by decide)
    · exact loaded.flat rfl (by decide) rfl (by decide) (by decide)
    · exact loaded.flat rfl (by decide) rfl (by decide) (by decide)
    · exact loaded.flat rfl (by decide) rfl (by decide) (by decide)

def kernelTables (s : State) (setHandlers : Idt → Idt) (idt : Idt)
    (msr : DWord → BitVec 64) : Tables where
  mem :=
    placing (placing (placing (fun _ => 0)
      GDT_START ((setTaskReg (setGdt bootGdt 0x21000)).flatMap Descriptor.bytes))
      0x20000 ((setIdt setHandlers idt).toList.flatMap Gate.bytes))
      0x21000 (s.tss.words.flatMap bytes32)
  gdt := gdtR
  idt := idtR 0x20000
  task := KERNEL_TSS
  msr := s.msr msr

theorem kernelTables_loaded (s : State) (setHandlers : Idt → Idt) (idt : Idt)
    (msr : DWord → BitVec 64) :
    Loaded (kernelTables s setHandlers idt msr) s setHandlers idt 0x20000 0x21000 msr := by
  have segments : ((setTaskReg (setGdt bootGdt 0x21000)).flatMap Descriptor.bytes).length = 56 := rfl
  have gates : ((setIdt setHandlers idt).toList.flatMap Gate.bytes).length = 2048 := by
    have size : IDT_ENTRIES * 8 = 2048 := rfl
    simp [List.length_flatMap, Gate.length_bytes, size]
  have words : (s.tss.words.flatMap bytes32).length = 104 := rfl
  refine ⟨rfl, rfl, rfl, rfl, ?_, ?_, stored_placing (by rw [words]; decide)⟩
  · refine ((stored_placing (by rw [segments]; decide)).placing fun index bound => ?_).placing
      fun index bound => ?_
    · rw [segments] at bound
      rw [gates]
      bv_omega
    · rw [segments] at bound
      rw [words]
      bv_omega
  · refine (stored_placing (by rw [gates]; decide)).placing fun index bound => ?_
    rw [gates] at bound
    rw [words]
    bv_omega

end

def sampleTables : Tables :=
  @kernelTables Image.sample HandlerImage.sample sampleBoot id (Vector.replicate 256 ⟨0, 0, 0, 0⟩)
    fun _ => 0

theorem tables_lead_to_handlers_boot :
    @Crosses Image.sample HandlerImage.sample sampleTables sampleBoot :=
  @tables_lead_to_handlers Image.sample HandlerImage.sample _ _ _ _ _ _ _
    (@kernelTables_loaded Image.sample HandlerImage.sample sampleBoot id
      (Vector.replicate 256 ⟨0, 0, 0, 0⟩) fun _ => 0)

end Zeos
