import Zeos.Identity.Answers
import Zeos.Kernel.Io
import Zeos.Syscall.ReadCheck

/-!
# `sys_write`

The service copies the buffer of the caller in chunks to a buffer on the kernel stack and
prints it from there. It is all or nothing, except for buffers that end inside the page
after the user pages, which the check of the pointer lets through.
-/

namespace Zeos

open Library

@[simp] abbrev TAM_BUFFER : Nat := 512
abbrev ESCRIPTURA : DWord := 1
abbrev EBADF : DWord := 9
abbrev EACCES : DWord := 13

/-- `check_fd`; `none` is 0. -/
def checkFd (fd permissions : DWord) : Option DWord :=
  if fd ≠ 1 then some EBADF
  else if permissions ≠ ESCRIPTURA then some EACCES
  else none

structure Writing where
  memory : Bus.Local Mm
  console : Console

section

variable (kernel : Nat → Nat → Byte) (localbuffer : DWord)

/-- `copy_from_user(buffer, localbuffer, size); ret = sys_write_console(localbuffer, size);` -/
def writeChunk (buffer : DWord) (size : Int) (w : Writing) : Int × Writing :=
  let memory := (copyFromUser ((Mm.bus kernel).intoLocal localbuffer TAM_BUFFER) buffer
    localbuffer size w.memory).2
  let printed := w.console.sysWriteConsole memory.cells size
  (printed.1, ⟨memory, printed.2⟩)

/-- `while (bytes_left > TAM_BUFFER)`; returns `bytes_left` and `buffer`. -/
def writeChunks (bytesLeft : Int) (buffer : DWord) (w : Writing) : Int × DWord × Writing :=
  if TAM_BUFFER < bytesLeft then
    let chunk := writeChunk kernel localbuffer buffer TAM_BUFFER w
    writeChunks (bytesLeft - chunk.1) (buffer + BitVec.ofInt 32 chunk.1) chunk.2
  else (bytesLeft, buffer, w)
termination_by bytesLeft.toNat
decreasing_by
  have ret : (writeChunk kernel localbuffer buffer TAM_BUFFER w).1 = 512 := rfl
  rw [ret]
  simp only [TAM_BUFFER] at *
  omega

def sysWrite (fd buffer nbytes : DWord) (w : Writing) : Result × Writing :=
  match checkFd fd ESCRIPTURA with
  | some ret => (.error ret, w)
  | none =>
      if nbytes.slt 0 then (.error EINVAL, w)
      else if accessOk VERIFY_READ buffer nbytes = false then (.error EFAULT, w)
      else
        let chunks := writeChunks kernel localbuffer nbytes.toInt buffer w
        if 0 < chunks.1 then
          let chunk := writeChunk kernel localbuffer chunks.2.1 chunks.1 chunks.2.2
          (.ok (BitVec.ofInt 32 (nbytes.toInt - (chunks.1 - chunk.1))), chunk.2)
        else (.ok (BitVec.ofInt 32 (nbytes.toInt - chunks.1)), chunks.2.2)

variable {kernel localbuffer} {buffer nbytes : DWord} {w : Writing} {done total : Nat}

/-- What every chunk keeps holds up to the tail. -/
theorem writeChunks_rule {inv : Nat → Writing → Prop}
    (step : ∀ done size w, inv done w → size ≤ TAM_BUFFER → done + size ≤ total →
      inv (done + size) (writeChunk kernel localbuffer (offset buffer done) size w).2)
    (left : Nat) (holds : inv done w) (rest : done + left = total) :
    ∃ (last remaining : Nat) (after : Writing), writeChunks kernel localbuffer left (offset buffer done) w =
        ((remaining : Int), offset buffer last, after) ∧
      last + remaining = total ∧ remaining ≤ TAM_BUFFER ∧ inv last after := by
  induction left using Nat.strong_induction_on generalizing done w with
  | _ left inductionHypothesis =>
      by_cases more : TAM_BUFFER < left
      · have ret : (writeChunk kernel localbuffer (offset buffer done) TAM_BUFFER w).1 = 512 := rfl
        have next : offset buffer done + BitVec.ofInt 32 512 = offset buffer (done + 512) :=
          offset_add buffer done 512
        have less : (left : Int) - 512 = (left - 512 : Nat) := by
          simp only [TAM_BUFFER] at more
          omega
        obtain ⟨last, remaining, after, result, sum, small, kept⟩ :=
          inductionHypothesis (left - 512) (by simp only [TAM_BUFFER] at more; omega)
            (step done TAM_BUFFER w holds (Nat.le_refl _) (by omega))
            (by simp only [TAM_BUFFER] at more ⊢; omega)
        refine ⟨last, remaining, after, ?_, sum, small, kept⟩
        rw [writeChunks, if_pos (Int.ofNat_lt.mpr more)]
        dsimp only
        rw [ret, next, less]
        exact result
      · refine ⟨done, left, w, ?_, rest, Nat.le_of_not_lt more, holds⟩
        rw [writeChunks, if_neg fun goesOn => more (Int.ofNat_lt.mp goesOn)]

/-- Past the checks the service answers `nbytes`, and what every chunk keeps holds of all
of the buffer. -/
theorem sysWrite_rule {inv : Nat → Writing → Prop} (nonneg : 0 ≤ nbytes.toInt)
    (passed : accessOk VERIFY_READ buffer nbytes = true)
    (step : ∀ done size w, inv done w → size ≤ TAM_BUFFER → done + size ≤ nbytes.toNat →
      inv (done + size) (writeChunk kernel localbuffer (offset buffer done) size w).2)
    (holds : inv 0 w) :
    ∃ after, sysWrite kernel localbuffer 1 buffer nbytes w = (.ok nbytes, after) ∧
      inv nbytes.toNat after := by
  have natural : nbytes.toInt = (nbytes.toNat : Int) := by
    rw [BitVec.toInt_eq_toNat_cond] at nonneg ⊢
    have bits := nbytes.isLt
    split at nonneg <;> omega
  have fd : checkFd 1 ESCRIPTURA = none := by decide
  have sign : nbytes.slt 0 = false := decide_eq_false (Int.not_lt.mpr nonneg)
  obtain ⟨last, remaining, middle, result, sum, small, kept⟩ :=
    writeChunks_rule step nbytes.toNat holds (Nat.zero_add _)
  rw [offset_zero] at result
  have answer : BitVec.ofInt 32 (nbytes.toInt - 0) = nbytes := by
    rw [Int.sub_zero, BitVec.ofInt_toInt]
  unfold sysWrite
  rw [fd]
  dsimp only
  rw [sign, if_neg Bool.noConfusion, passed, if_neg Bool.noConfusion, natural, result]
  dsimp only
  cases remaining with
  | zero =>
      refine ⟨middle, ?_, ?_⟩
      · rw [if_neg (show ¬ (0 : Int) < ((0 : Nat) : Int) from Int.lt_irrefl 0), ← natural]
        exact congrArg (fun word => (Except.ok word, middle)) answer
      · rwa [← sum]
  | succ remaining =>
      refine ⟨_, ?_, sum ▸ step last _ middle kept small (Nat.le_of_eq sum)⟩
      have all : ((remaining + 1 : Nat) : Int) - (writeChunk kernel localbuffer (offset buffer last)
          (remaining + 1 : Nat) middle).1 = 0 := Int.sub_self _
      rw [if_pos (Int.natCast_pos.mpr (Nat.succ_pos remaining)), all, ← natural]
      exact congrArg (fun word => (Except.ok word, _)) answer

/-- The mapped memory and the local buffer. -/
abbrev chunkView (kernel : Nat → Nat → Byte) (mm : Mm) (coherent : mm.Coherent)
    (localbuffer : DWord) :=
  (mm.window kernel mm.loadedMap coherent.maps).intoLocal localbuffer TAM_BUFFER

structure Printed (kernel : Nat → Nat → Byte) (mm : Mm) (coherent : mm.Coherent)
    (localbuffer : DWord) (text : Nat → Byte) (console : Console) (done : Nat) (w : Writing) :
    Prop where
  holds : (chunkView kernel mm coherent localbuffer).holds w.memory
  bytes : ∀ place, w.memory.outer.byteAt kernel place = mm.byteAt kernel place
  console : w.console = Console.writeLoop text done console

structure Readable (kernel : Nat → Nat → Byte) (mm : Mm) (localbuffer address : DWord)
    (frame : Nat) (byte : Byte) : Prop where
  mapped : mm.loadedMap (PH_PAGE address) = some frame
  found : mm.byteAt kernel (frame, address.toNat % PAGE_SIZE) = byte
  apart : ¬ (address - localbuffer).toNat < TAM_BUFFER

variable {mm : Mm} {coherent : mm.Coherent} {console : Console} {text : Nat → Byte} {size : Nat}

theorem chunkView_local (coherent : mm.Coherent) {index : Nat} (bound : index < TAM_BUFFER) :
    (chunkView kernel mm coherent localbuffer).writable (offset localbuffer index) ∧
      (chunkView kernel mm coherent localbuffer).place (offset localbuffer index) = .inr index := by
  have inside : (offset localbuffer index - localbuffer).toNat = index := by
    simp only [TAM_BUFFER] at bound
    simp only [offset]
    bv_omega
  constructor
  · show (offset localbuffer index - localbuffer).toNat < TAM_BUFFER
    rwa [inside]
  · show (if _ then _ else _) = _
    rw [inside, if_pos bound]

theorem Readable.chunkView {address : DWord} {frame : Nat} {byte : Byte}
    (readable : Readable kernel mm localbuffer address frame byte) (coherent : mm.Coherent) :
    (chunkView kernel mm coherent localbuffer).readable address ∧
      (Zeos.chunkView kernel mm coherent localbuffer).place address =
        .inl (frame, address.toNat % PAGE_SIZE) := by
  refine ⟨⟨⟨frame, readable.mapped⟩, readable.apart⟩, ?_⟩
  show (if _ then _ else _) = _
  rw [if_neg readable.apart, Mm.loadedMap_place coherent kernel readable.mapped]

theorem Printed.copied (printed : Printed kernel mm coherent localbuffer text console done w)
    (readable : ∀ index < size, ∃ frame byte,
      Readable kernel mm localbuffer (offset (offset buffer done) index) frame byte)
    (small : size ≤ TAM_BUFFER) :
    (chunkView kernel mm coherent localbuffer).Copied (offset buffer done) localbuffer size w.memory
      (Zeos.writeChunk kernel localbuffer (offset buffer done) size w).2.memory := by
  have into : ∀ index < size, _ := fun index bound =>
    @chunkView_local kernel localbuffer mm coherent index (Nat.lt_of_lt_of_le bound small)
  refine wordLoop_copied size printed.holds (fun index bound => ?_)
    (fun index bound => (into index bound).1) ⟨?_, ?_⟩
  · obtain ⟨frame, byte, here⟩ := readable index bound
    exact (here.chunkView coherent).1
  · intro i iBound j jBound same
    rw [(into i iBound).2, (into j jBound).2] at same
    exact Sum.inr.inj same
  · intro i iBound j jBound same
    obtain ⟨frame, byte, here⟩ := readable j jBound
    rw [(into i iBound).2, (here.chunkView coherent).2] at same
    exact absurd same nofun

theorem Printed.writeChunk (readable : ∀ index < total, ∃ frame,
      Readable kernel mm localbuffer (offset buffer index) frame (text index))
    (printed : Printed kernel mm coherent localbuffer text console done w)
    (small : size ≤ TAM_BUFFER) (bound : done + size ≤ total) :
    Printed kernel mm coherent localbuffer text console (done + size)
      (Zeos.writeChunk kernel localbuffer (offset buffer done) size w).2 := by
  have here : ∀ index < size, ∃ frame,
      Readable kernel mm localbuffer (offset (offset buffer done) index) frame
        (text (done + index)) := by
    intro index below
    rw [offset_add]
    exact readable (done + index) (by omega)
  have copied := printed.copied (fun index below => (here index below).imp fun _ => .intro _) small
  have into : ∀ index < size, (chunkView kernel mm coherent localbuffer).place
      (offset localbuffer index) = .inr index := fun index below =>
    (chunkView_local coherent (Nat.lt_of_lt_of_le below small)).2
  refine ⟨copied.holds, fun place => ?_, ?_⟩
  · have kept := copied.frame (.inl place) fun index below same => by
      rw [into index below] at same
      exact absurd same nofun
    exact kept.trans (printed.bytes place)
  · show Console.writeLoop _ size w.console = _
    rw [Console.writeLoop_add, printed.console]
    apply Console.writeLoop_congr
    intro index below
    obtain ⟨frame, byte⟩ := here index below
    have arrived := copied.bytes index below
    rw [into index below, (byte.chunkView coherent).2] at arrived
    exact (arrived.trans (printed.bytes _)).trans byte.found

/-- The chunks so far only accessed memory, and faulted if they got past a byte. -/
def Tripped (mm : Mm) (last done : Nat) (w : Writing) : Prop :=
  mm.Accessed w.memory.outer ∧ (last < done → w.memory.outer.fault = true)

theorem Tripped.writeChunk {last : Nat}
    (unmapped : mm.loadedMap (PH_PAGE (offset buffer last)) = none) (tripped : Tripped mm last done w) :
    Tripped mm last (done + size)
      (Zeos.writeChunk kernel localbuffer (offset buffer done) size w).2 := by
  have keeps := (Mm.bus_keeps_accessed mm kernel).intoLocal localbuffer TAM_BUFFER
  have stuck := (@Mm.bus_keeps_fault mm kernel).intoLocal localbuffer TAM_BUFFER
  refine ⟨wordLoop_keeps keeps size tripped.1, fun bound => ?_⟩
  rcases Nat.lt_or_ge last done with before | here
  · exact (wordLoop_keeps stuck size ⟨tripped.1, tripped.2 before⟩).2
  · obtain ⟨index, rfl⟩ := Nat.exists_eq_add_of_le here
    rw [← offset_add] at unmapped
    have faults := @wordLoop_bad_load _ _ _ _ keeps stuck size _ localbuffer _ tripped.1 _
      (Nat.lt_of_add_lt_add_left bound)
      fun memory accessed => ⟨keeps.load memory _ accessed, accessed.load_faults unmapped⟩
    exact faults.2

end

theorem toInt_of_nonneg {nbytes : DWord} (nonneg : 0 ≤ nbytes.toInt) :
    nbytes.toInt = (nbytes.toNat : Int) ∧ nbytes.toNat < 0x80000000 := by
  rw [BitVec.toInt_eq_toNat_cond] at nonneg ⊢
  have bits := nbytes.isLt
  split at nonneg <;> omega

/-- What the check lets through is in the user pages, or ends just past them. -/
theorem accessOk_write_cases {buffer nbytes : DWord} (nonneg : 0 ≤ nbytes.toInt)
    (passed : accessOk VERIFY_READ buffer nbytes = true) :
    InUserRange buffer nbytes ∨ 0 < nbytes.toInt ∧ EndsPast buffer nbytes := by
  obtain ⟨natural, small⟩ := toInt_of_nonneg nonneg
  rcases Nat.eq_zero_or_pos nbytes.toNat with empty | nonempty
  · refine .inl ⟨?_, fun index bound => ?_⟩
    · have start := buffer.isLt
      omega
    · rw [empty] at bound
      exact absurd bound (Nat.not_lt_zero index)
  · by_cases past : EndsPast buffer nbytes
    · exact .inr ⟨by omega, past⟩
    · refine .inl (((accessOk_read_exact nonempty).mpr ⟨past, fun wraps => ?_⟩).mp passed)
      obtain ⟨_, low, high, _⟩ := wraps
      simp only [PH_PAGE, USER_END_PAGE, USER_FIRST_PAGE, L_USER_START, PAGE_SIZE, NUM_PAG_CODE,
        NUM_PAG_DATA] at low
      omega

/-- Those are let through, and their last byte is in no user page. -/
theorem EndsPast.passes {buffer nbytes : DWord} (past : EndsPast buffer nbytes)
    (nonempty : 0 < nbytes.toNat) : accessOk VERIFY_READ buffer nbytes = true ∧ ∃ index < nbytes.toNat,
      PH_PAGE (offset buffer index) = PAG_LOG_INIT_DATA + NUM_PAG_DATA := by
  obtain ⟨low, above, below⟩ := past
  have start := buffer.isLt
  have last : (buffer + nbytes).toNat = (buffer.toNat + nbytes.toNat) % 0x100000000 :=
    BitVec.toNat_add buffer nbytes
  rw [accessOk_read_iff]
  simp only [PH_PAGE, last, USER_END_PAGE, USER_FIRST_PAGE, L_USER_START, PAGE_SIZE, NUM_PAG_CODE,
    NUM_PAG_DATA, PAG_LOG_INIT_DATA, PAG_LOG_INIT_CODE] at *
  refine ⟨by omega, nbytes.toNat - 1, Nat.sub_one_lt_of_lt nonempty, ?_⟩
  · rw [offset, BitVec.toNat_add, BitVec.toNat_ofNat]
    omega

section

variable [Image]

/-- A call of the running process; the local buffer lies in its kernel stack. -/
def State.callSysWrite (s : State) (fd buffer nbytes : DWord) (place : Nat) (cells : Nat → Byte)
    (console : Console) : Result × Writing :=
  sysWrite s.kernelByte (taskAddr s.current place) fd buffer nbytes ⟨⟨s.mm, cells, false⟩, console⟩

/-- The call comes back and stays in its local buffer; it fails and prints nothing, or
prints all of the buffer, as in one pass. -/
structure AllOrNothing (s : State) (buffer nbytes : DWord) (console : Console)
    (result : Result × Writing) : Prop where
  returns : result.2.memory.outer.fault = false
  inBounds : result.2.memory.overrun = false
  outcome : (∃ code, result.1 = .error code ∧ (-code).slt 0 = true ∧ result.2.console = console) ∨
    result.1 = .ok nbytes ∧ 0 ≤ nbytes.toInt ∧ ∃ text : Nat → Byte,
      (∀ index < nbytes.toNat, s.userByte (offset buffer index) = some (text index)) ∧
      result.2.console = (console.sysWriteConsole text nbytes.toInt).2 ∧
      result.2.console.port = ((List.range nbytes.toNat).map text).reverse ++ console.port

variable {installed : Installed} {memory s : State} {queues : Queues} {code : Nat → Nat}
  {fd buffer nbytes : DWord} {place : Nat} {cells : Nat → Byte} {console : Console}

theorem callSysWrite_cases (s : State) (fd buffer nbytes : DWord) (place : Nat)
    (cells : Nat → Byte) (console : Console) :
    (∃ code, (-code).slt 0 = true ∧ s.callSysWrite fd buffer nbytes place cells console =
        (.error code, ⟨⟨s.mm, cells, false⟩, console⟩)) ∨
      fd = 1 ∧ 0 ≤ nbytes.toInt ∧ accessOk VERIFY_READ buffer nbytes = true := by
  unfold State.callSysWrite sysWrite
  by_cases isConsole : fd = 1
  · subst isConsole
    rw [show checkFd 1 ESCRIPTURA = none by decide]
    dsimp only
    by_cases negative : nbytes.slt 0 = true
    · exact .inl ⟨EINVAL, by decide, if_pos negative⟩
    · rw [if_neg negative]
      by_cases refused : accessOk VERIFY_READ buffer nbytes = false
      · exact .inl ⟨EFAULT, by decide, if_pos refused⟩
      · refine .inr ⟨rfl, Int.not_lt.mp fun below => negative (decide_eq_true below), ?_⟩
        exact Bool.eq_true_of_not_eq_false refused
  · have refused : checkFd fd ESCRIPTURA = some EBADF := if_pos isConsole
    rw [refused]
    exact .inl ⟨EBADF, by decide, rfl⟩

theorem Spaced.readable (spaced : Spaced code s queues)
    (live : queues.Process s.idleTask s.current) (fits : place + TAM_BUFFER ≤ PAGE_SIZE)
    (inRange : InUserRange buffer nbytes) {index : Nat} (bound : index < nbytes.toNat) :
    ∃ frame byte, s.userByte (offset buffer index) = some byte ∧
      Readable s.kernelByte s.mm (taskAddr s.current place) (offset buffer index) frame byte := by
  obtain ⟨low, high⟩ := inRange.2 index bound
  have address : (offset buffer index).toNat = buffer.toNat + index :=
    Bus.offset_toNat inRange.1 bound
  have page : PH_PAGE (offset buffer index) = (buffer.toNat + index) / PAGE_SIZE := by
    rw [PH_PAGE, address]
  rw [← page] at low high
  obtain ⟨frame, mapped, above, _⟩ := spaced.user_page live low high
  refine ⟨frame, s.mm.frames frame ((offset buffer index).toNat % PAGE_SIZE), ?_, mapped, ?_, ?_⟩
  · rw [State.userByte, mapped]
    rfl
  · exact if_neg (Nat.not_lt.mpr above)
  · have stack := taskAddr_toNat s.current (Nat.le_trans (Nat.le_add_right _ _) fits)
    have below := taskPage_lt s.current
    rw [BitVec.toNat_sub, address, stack]
    simp only [USER_FIRST_PAGE, L_USER_START, PAGE_SIZE, NUM_PAG_KERNEL, TAM_BUFFER] at *
    omega

theorem Spaced.allOrNothing_of_inRange (spaced : Spaced code s queues)
    (live : queues.Process s.idleTask s.current) (fits : place + TAM_BUFFER ≤ PAGE_SIZE)
    (nonneg : 0 ≤ nbytes.toInt) (passed : accessOk VERIFY_READ buffer nbytes = true)
    (inRange : InUserRange buffer nbytes) : AllOrNothing s buffer nbytes console
      (s.callSysWrite 1 buffer nbytes place cells console) := by
  have bytes : ∀ index, ∃ byte, index < nbytes.toNat →
      s.userByte (offset buffer index) = some byte ∧ ∃ frame,
        Readable s.kernelByte s.mm (taskAddr s.current place) (offset buffer index) frame byte := by
    intro index
    by_cases bound : index < nbytes.toNat
    · obtain ⟨frame, byte, user, readable⟩ := spaced.readable live fits inRange bound
      exact ⟨byte, fun _ => ⟨user, frame, readable⟩⟩
    · exact ⟨0, fun below => absurd below bound⟩
  choose text bytes using bytes
  have start : Printed s.kernelByte s.mm spaced.coherent (taskAddr s.current place) text console 0
      ⟨⟨s.mm, cells, false⟩, console⟩ :=
    ⟨⟨Mm.window_start .., rfl⟩, fun _ => rfl, rfl⟩
  obtain ⟨after, result, printed⟩ := sysWrite_rule nonneg passed
    (fun done size w printed small bound =>
      Printed.writeChunk (fun index below => (bytes index below).2) printed small bound) start
  obtain ⟨_, _, _, shape, _⟩ := printed.holds.1.1
  have whole : after.console = (console.sysWriteConsole text nbytes.toInt).2 := by
    rw [printed.console, (toInt_of_nonneg nonneg).1]
    rfl
  rw [State.callSysWrite, result]
  refine ⟨?_, printed.holds.2, .inr ⟨rfl, nonneg, text, fun index below => (bytes index below).1,
    whole, ?_⟩⟩
  · rw [shape]
    exact spaced.space.fault
  · rw [printed.console, Console.writeLoop_port]

theorem Spaced.faults_of_endsPast (spaced : Spaced code s queues) (positive : 0 < nbytes.toInt)
    (past : EndsPast buffer nbytes) :
    (s.callSysWrite 1 buffer nbytes place cells console).2.memory.outer.fault = true := by
  obtain ⟨natural, _⟩ := toInt_of_nonneg (Int.le_of_lt positive)
  have nonempty : 0 < nbytes.toNat := by omega
  obtain ⟨passed, last, inside, page⟩ := past.passes nonempty
  have unmapped : s.mm.loadedMap (PH_PAGE (offset buffer last)) = none := by
    rw [spaced.loadedMap, page, spaced.space.beyond _ _ (Nat.le_refl _)]
    rfl
  have start : Tripped s.mm last 0 ⟨⟨s.mm, cells, false⟩, console⟩ :=
    ⟨.refl spaced.coherent, fun below => absurd below (Nat.not_lt_zero last)⟩
  obtain ⟨after, result, _, faults⟩ := sysWrite_rule (Int.le_of_lt positive) passed
    (fun done size w tripped _ _ => Tripped.writeChunk unmapped tripped) start
  rw [State.callSysWrite, result]
  exact faults inside

/-- For a process in any state reachable under one policy, whatever it asks for: all or
nothing, unless its buffer ends inside the page after the user pages. -/
theorem write_allOrNothing_iff (reachable : (kernel installed memory).Reachable s)
    (process : s.current ≠ s.idleTask) (fits : place + TAM_BUFFER ≤ PAGE_SIZE)
    (fd buffer nbytes : DWord) (cells : Nat → Byte) (console : Console) :
    AllOrNothing s buffer nbytes console (s.callSysWrite fd buffer nbytes place cells console) ↔
      ¬ (fd = 1 ∧ 0 < nbytes.toInt ∧ EndsPast buffer nbytes) := by
  obtain ⟨queues, sched, spaced⟩ := spaced_of_reachable reachable
  have live : queues.Process s.idleTask s.current := ⟨sched.current_off .freequeue, process⟩
  constructor
  · rintro allOrNothing ⟨rfl, positive, past⟩
    have faults := @Spaced.faults_of_endsPast _ s queues _ buffer nbytes place cells console spaced
      positive past
    exact absurd (allOrNothing.returns.symm.trans faults) Bool.noConfusion
  · intro exact_range
    rcases callSysWrite_cases s fd buffer nbytes place cells console with
      ⟨code, negative, refused⟩ | ⟨rfl, nonneg, passed⟩
    · rw [refused]
      exact ⟨spaced.space.fault, rfl, .inl ⟨code, rfl, negative, rfl⟩⟩
    · rcases accessOk_write_cases nonneg passed with inRange | past
      · exact spaced.allOrNothing_of_inRange live fits nonneg passed inRange
      · exact absurd ⟨rfl, past⟩ exact_range

end

/-- A chunk and a tail: 515 bytes of the first process. -/
theorem write_allOrNothing_iff_tail :
    AllOrNothing sampleBoot 0x108000 515 .start
        (@State.callSysWrite Image.sample sampleBoot 1 0x108000 515 0 (fun _ => 0) .start) ↔
      ¬ ((1 : DWord) = 1 ∧ 0 < (515 : DWord).toInt ∧ EndsPast 0x108000 515) :=
  @write_allOrNothing_iff Image.sample .RR State.blank sampleBoot 0 (.initial rfl) (by decide)
    (by decide) 1 0x108000 515 (fun _ => 0) .start

/-- The last byte of the user pages and the first one after them. -/
theorem write_past_end : ¬ ∀ s, (sampleKernel .RR).Reachable s → s.current ≠ s.idleTask →
    ∀ (fd buffer nbytes : DWord) (place : Nat) (cells : Nat → Byte) (console : Console),
      place + TAM_BUFFER ≤ PAGE_SIZE →
      AllOrNothing s buffer nbytes console
        (@State.callSysWrite Image.sample s fd buffer nbytes place cells console) := by
  intro always
  obtain ⟨queues, _, spaced⟩ := @spaced_of_reachable Image.sample .RR State.blank sampleBoot
    (.initial rfl)
  have faults := @Spaced.faults_of_endsPast Image.sample sampleBoot queues _ 0x11BFFF 2 0
    (fun _ => 0) .start spaced (by decide) ⟨by decide, by decide, by decide⟩
  have returns := (always sampleBoot (.initial rfl) (by decide) 1 0x11BFFF 2 0 (fun _ => 0) .start
    (by decide)).returns
  exact absurd (returns.symm.trans faults) Bool.noConfusion

end Zeos
