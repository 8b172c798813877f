import Zeos.Kernel.System

/-!
# `alloc_frame` and `free_frame` by themselves

Callers that free only what they were given and still hold. `alloc_frame` looks at every
second frame from `NUM_PAG_KERNEL` on, `free_frame` only at the frames after it: once
freed, the first frame is never handed out again.
-/

namespace Zeos

open Library

/-- The frame map, and the frames that were handed out and not freed since. -/
structure Allocator where
  mm : Mm
  held : List Nat

inductive FrameRequest where
  | alloc
  | free (frame : Nat)
  deriving DecidableEq

namespace Allocator

/-- After `init_frames`, whatever memory held before. -/
def start (mm : Mm) : Allocator := ⟨mm.initFrames, []⟩

def Enabled (a : Allocator) : FrameRequest → Prop
  | .alloc => True
  | .free frame => frame ∈ a.held

def step (a : Allocator) : FrameRequest → Allocator
  | .alloc => ⟨a.mm.allocFrame.2, a.mm.allocFrame.1.toList ++ a.held⟩
  | .free frame => ⟨a.mm.freeFrame frame, a.held.erase frame⟩

/-- What callers rely on: a frame handed out is new and none of the kernel's, `-1` means
that all frames are held, and what is not held can be handed out. -/
structure Lawful (a : Allocator) : Prop where
  fresh : ∀ frame, a.mm.allocFrame.1 = some frame →
    frame ∉ a.held ∧ NUM_PAG_KERNEL ≤ frame
  exhausted : a.mm.allocFrame.1 = none → ∀ frame ∈ Mm.allocatable, frame ∈ a.held
  returned : ∀ frame ∈ Mm.allocatable, frame ∉ a.held → a.mm.physMem frame = FREE_FRAME

def KeepsFirst (_ : Allocator) (request : FrameRequest) : Prop := request ≠ .free NUM_PAG_KERNEL

structure Tracked (a : Allocator) : Prop where
  nodup : a.held.Nodup
  member : ∀ frame ∈ a.held, frame ∈ Mm.allocatable
  used : ∀ frame ∈ a.held, a.mm.physMem frame = USED_FRAME

variable {mm after : Mm} {a : Allocator} {frame other : Nat} {request : FrameRequest}

theorem used_ne_free : USED_FRAME ≠ FREE_FRAME := by decide

theorem freeFrame_physMem (member : frame ∈ Mm.allocatable) (other : Nat) :
    (mm.freeFrame frame).physMem other =
      if other = frame ∧ frame ≠ NUM_PAG_KERNEL then FREE_FRAME else mm.physMem other := by
  obtain ⟨low, high, _⟩ := Mm.mem_allocatable.mp member
  by_cases first : frame = NUM_PAG_KERNEL
  · subst first
    rw [Mm.freeFrame, if_neg (by decide), if_neg fun both => both.2 rfl]
  · rw [Mm.freeFrame, if_pos ⟨Nat.lt_of_le_of_ne low (Ne.symm first), high⟩]
    by_cases same : other = frame
    · subst same
      rw [if_pos ⟨rfl, first⟩]
      exact Function.update_self ..
    · rw [if_neg fun both => same both.1]
      exact Function.update_of_ne same ..

theorem start_tracked (mm : Mm) : (start mm).Tracked where
  nodup := List.nodup_nil
  member _ held := absurd held List.not_mem_nil
  used _ held := absurd held List.not_mem_nil

theorem Tracked.lawful (tracked : a.Tracked)
    (returned : ∀ frame ∈ Mm.allocatable, frame ∉ a.held → a.mm.physMem frame = FREE_FRAME) :
    a.Lawful := by
  refine ⟨fun frame found => ?_, fun full frame member => ?_, returned⟩
  · obtain ⟨member, free, _⟩ := Mm.allocFrame_some (Prod.ext found rfl)
    refine ⟨fun held => ?_, (Mm.mem_allocatable.mp member).1⟩
    exact used_ne_free ((tracked.used frame held).symm.trans free)
  · by_contra unheld
    obtain ⟨_, used⟩ := Mm.allocFrame_none (Prod.ext full rfl)
    exact used frame member (returned frame member unheld)

theorem start_lawful (mm : Mm) : (start mm).Lawful := by
  refine (start_tracked mm).lawful fun frame member _ => ?_
  obtain ⟨low, high, _⟩ := Mm.mem_allocatable.mp member
  show (if frame < NUM_PAG_KERNEL then USED_FRAME else if frame < TOTAL_PAGES then FREE_FRAME
    else mm.physMem frame) = FREE_FRAME
  rw [if_neg (Nat.not_lt.mpr low), if_pos high]

theorem step_alloc (a : Allocator) :
    (∃ frame ∈ Mm.allocatable, a.mm.physMem frame = FREE_FRAME ∧ a.step .alloc =
      ⟨{ a.mm with physMem := Function.update a.mm.physMem frame USED_FRAME }, frame :: a.held⟩) ∨
    a.step .alloc = a := by
  cases result : a.mm.allocFrame with
  | mk found after =>
      cases found with
      | some frame =>
          obtain ⟨member, free, rfl⟩ := Mm.allocFrame_some result
          refine .inl ⟨frame, member, free, ?_⟩
          rw [step, result]
          rfl
      | none =>
          obtain ⟨rfl, _⟩ := Mm.allocFrame_none result
          right
          rw [step, result]
          rfl

theorem Tracked.step (tracked : a.Tracked) (enabled : a.Enabled request) :
    (a.step request).Tracked := by
  cases request with
  | alloc =>
      rcases a.step_alloc with ⟨frame, member, free, result⟩ | unchanged
      · rw [result]
        have unheld : frame ∉ a.held := fun held =>
          used_ne_free ((tracked.used frame held).symm.trans free)
        refine ⟨List.nodup_cons.mpr ⟨unheld, tracked.nodup⟩, ?_, ?_⟩
        · intro other held
          rcases List.mem_cons.mp held with rfl | old
          · exact member
          · exact tracked.member other old
        · intro other held
          rcases List.mem_cons.mp held with rfl | old
          · exact Function.update_self ..
          · have apart : other ≠ frame := fun same => unheld (same ▸ old)
            exact (Function.update_of_ne apart ..).trans (tracked.used other old)
      · rwa [unchanged]
  | free frame =>
      refine ⟨tracked.nodup.erase frame, fun other held => ?_, fun other held => ?_⟩
      · exact tracked.member other (List.mem_of_mem_erase held)
      · obtain ⟨apart, old⟩ := tracked.nodup.mem_erase_iff.mp held
        show (a.mm.freeFrame frame).physMem other = USED_FRAME
        rw [freeFrame_physMem (tracked.member frame enabled), if_neg fun both => apart both.1]
        exact tracked.used other old

/-- Only freeing the first frame loses it. -/
theorem Tracked.lawful_step_iff (tracked : a.Tracked) (lawful : a.Lawful)
    (enabled : a.Enabled request) : (a.step request).Lawful ↔ a.KeepsFirst request := by
  cases request with
  | alloc =>
      refine ⟨fun _ => FrameRequest.noConfusion, fun _ => ?_⟩
      rcases a.step_alloc with ⟨frame, member, free, result⟩ | unchanged
      · refine (tracked.step enabled).lawful ?_
        rw [result]
        intro other inPool unheld
        have apart : other ≠ frame := List.ne_of_not_mem_cons unheld
        exact (Function.update_of_ne apart ..).trans
          (lawful.returned other inPool (List.not_mem_of_not_mem_cons unheld))
      · rwa [unchanged]
  | free frame =>
      have member := tracked.member frame enabled
      constructor
      · intro after same
        obtain rfl := FrameRequest.free.inj same
        have lost : NUM_PAG_KERNEL ∉ a.held.erase NUM_PAG_KERNEL := tracked.nodup.not_mem_erase
        have free : (a.mm.freeFrame NUM_PAG_KERNEL).physMem NUM_PAG_KERNEL = FREE_FRAME :=
          after.returned NUM_PAG_KERNEL member lost
        rw [freeFrame_physMem member, if_neg fun both => both.2 rfl] at free
        exact used_ne_free ((tracked.used _ enabled).symm.trans free)
      · intro keeps
        have notFirst : frame ≠ NUM_PAG_KERNEL := fun same => keeps (congrArg FrameRequest.free same)
        refine (tracked.step enabled).lawful fun other inPool unheld => ?_
        show (a.mm.freeFrame frame).physMem other = FREE_FRAME
        rw [freeFrame_physMem member]
        by_cases same : other = frame
        · exact if_pos ⟨same, notFirst⟩
        · rw [if_neg fun both => same both.1]
          refine lawful.returned other inPool fun held => unheld ?_
          exact tracked.nodup.mem_erase_iff.mpr ⟨same, held⟩

end Allocator

def allocator (mm : Mm) : System Allocator FrameRequest where
  initial a := a = Allocator.start mm
  enabled := Allocator.Enabled
  next := Allocator.step

/-- Along every run the allocator is lawful in every state exactly if no request frees the
first frame after the kernel's. -/
theorem allocator_lawful_iff (mm : Mm) {requests : List FrameRequest}
    (runs : (allocator mm).Runs (Allocator.start mm) requests) :
    (allocator mm).Always Allocator.Lawful (Allocator.start mm) requests ↔
      (allocator mm).Each Allocator.KeepsFirst (Allocator.start mm) requests := by
  refine @System.always_iff_each _ _ (allocator mm) Allocator.Tracked Allocator.Lawful _ ?_ ?_ _ _
    runs (Allocator.start_tracked mm) (Allocator.start_lawful mm)
  · intro a request tracked enabled
    exact tracked.step enabled
  · intro a request tracked lawful enabled
    exact tracked.lawful_step_iff lawful enabled

namespace Allocator

theorem blank_held : ((start State.blank.mm).step .alloc).held = [NUM_PAG_KERNEL] ∧
    (((start State.blank.mm).step .alloc).step .alloc).held =
      [NUM_PAG_KERNEL + 2, NUM_PAG_KERNEL] := by
  decide +kernel

end Allocator

/-- Two frames are taken and the second one is given back. -/
theorem allocator_lawful_iff_second :
    (allocator State.blank.mm).Always Allocator.Lawful (Allocator.start State.blank.mm)
        [.alloc, .alloc, .free (NUM_PAG_KERNEL + 2)] ↔
      (allocator State.blank.mm).Each Allocator.KeepsFirst (Allocator.start State.blank.mm)
        [.alloc, .alloc, .free (NUM_PAG_KERNEL + 2)] := by
  refine allocator_lawful_iff State.blank.mm ⟨trivial, trivial, ?_, trivial⟩
  show NUM_PAG_KERNEL + 2 ∈ (((Allocator.start State.blank.mm).step .alloc).step .alloc).held
  rw [Allocator.blank_held.2]
  exact List.mem_cons_self

/-- A frame is taken and given back, and lost. -/
theorem first_frame_lost : ¬ ∀ mm requests,
    (allocator mm).Runs (Allocator.start mm) requests →
      (allocator mm).Always Allocator.Lawful (Allocator.start mm) requests := by
  intro always
  have held : NUM_PAG_KERNEL ∈ ((Allocator.start State.blank.mm).step .alloc).held := by
    rw [Allocator.blank_held.1]
    exact List.mem_cons_self
  have tracked : ((Allocator.start State.blank.mm).step .alloc).Tracked :=
    (Allocator.start_tracked State.blank.mm).step trivial
  obtain ⟨_, lawful, last⟩ := always State.blank.mm [.alloc, .free NUM_PAG_KERNEL]
    ⟨trivial, held, trivial⟩
  have enabled : ((Allocator.start State.blank.mm).step .alloc).Enabled (.free NUM_PAG_KERNEL) :=
    held
  exact (tracked.lawful_step_iff lawful enabled).mp last rfl

end Zeos
