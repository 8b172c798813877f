import Zeos.Schedule.Partition
import Zeos.Space.Accounts

/-!
# `sys_fork` copies the address space

The copy goes through temporary pages of the parent's own table, with no flush
of the translation buffer until the end. Whatever the buffer keeps, the child
gets its parent's bytes, and nothing else changes.
-/

namespace Zeos

open Library

def State.withFrames (s : State) (frames : Nat → Nat → Byte) : State :=
  { s with mm := { s.mm with frames := frames } }

section

variable [Image]

variable {installed : Installed} {memory s : State} {queues later : Queues} {code : Nat → Nat}
  {child : Task}

omit [Image] in
theorem Sched.withFrames (sched : Sched installed s queues) (frames : Nat → Nat → Byte) :
    Sched installed (s.withFrames frames) queues := sched.setMemory _

theorem Spaced.withFrames (spaced : Spaced code s queues) (frames : Nat → Nat → Byte) :
    Spaced code (s.withFrames frames) queues :=
  ⟨spaced.space.congr ⟨rfl, rfl, rfl, rfl, rfl⟩ fun _ => .rfl, spaced.dirs, spaced.loaded,
    spaced.coherent⟩

end

end Zeos
