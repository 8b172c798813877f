import Zeos.Library.Lineage
import Zeos.Space.Frames

/-!
# Memory as processes see it

One code for all and data for each, by pages. A store is an event; storing the bytes
of a structure one after the other is a list of them.
-/

namespace Zeos

open Library

/-- The code and the data of processes; a place is a page of either and an offset. -/
abbrev View := Images Task (Nat × Nat) (Nat × Nat) Byte

abbrev ViewEvent := MemoryEvent Task (Nat × Nat) (Nat × Nat) Byte

def View.find (view : View) : Owner → Nat → Byte
  | .code pag, place => view.shared (pag, place)
  | .data t pag, place => view.own t (pag, place)

def storeEvent : Owner → Nat → Byte → ViewEvent
  | .code pag, place, byte => .storeShared (pag, place) byte
  | .data t pag, place, byte => .storeOwn t (pag, place) byte

/-- What was last stored there; the latest event comes first. -/
def lastStored (start : View) (history : List ViewEvent) : Owner → Nat → Byte
  | .code pag, place => start.lastShared history (pag, place)
  | .data t pag, place => start.lastOwn history t (pag, place)

theorem View.find_run (start : View) (events : List ViewEvent) (owner : Owner) (place : Nat) :
    View.find ((Images.family start).run start events) owner place =
      lastStored start events.reverse owner place := by
  cases owner with
  | code pag => exact start.run_shared events (pag, place)
  | data t pag => exact start.run_own events t (pag, place)

theorem View.find_store (view : View) (owner other : Owner) (place target : Nat) (byte : Byte) :
    View.find (view.next (storeEvent owner place byte)) other target =
      if other = owner ∧ target = place then byte else view.find other target := by
  cases owner with
  | code pag =>
      cases other with
      | code q => simp [storeEvent, Images.next, View.find, Function.update_apply]
      | data u q => simp [storeEvent, Images.next, View.find]
  | data t pag =>
      cases other with
      | code q => simp [storeEvent, Images.next, View.find]
      | data u q =>
          by_cases self : u = t
          · subst self
            simp [storeEvent, Images.next, View.find, Function.update_apply]
          · simp [storeEvent, Images.next, View.find, self]

theorem View.alive_store (view : View) (owner : Owner) (place : Nat) (byte : Byte) :
    (view.next (storeEvent owner place byte)).alive = view.alive := by
  cases owner <;> rfl

section

variable {view : View} {owner : Nat → Owner} {place : Nat → Nat} {byte : Nat → Byte}

def storeEvents (owner : Nat → Owner) (place : Nat → Nat) (byte : Nat → Byte) (count : Nat) :
    List ViewEvent :=
  (List.range count).map fun index => storeEvent (owner index) (place index) (byte index)

theorem storeEvents_succ (count : Nat) : storeEvents owner place byte (count + 1) =
    storeEvents owner place byte count ++ [storeEvent (owner count) (place count) (byte count)] := by
  simp [storeEvents, List.range_succ]

theorem View.alive_stores (start : View) (count : Nat) :
    ((Images.family start).run view (storeEvents owner place byte count)).alive = view.alive := by
  induction count with
  | zero => rfl
  | succ count inductionHypothesis =>
      rw [storeEvents_succ, Images.run_concat, View.alive_store, inductionHypothesis]

theorem View.stores_run (start : View) (count : Nat)
    (alive : ∀ index < count, ∀ t pag, owner index = .data t pag → view.alive t) :
    (Images.family start).Runs view (storeEvents owner place byte count) := by
  induction count with
  | zero => trivial
  | succ count inductionHypothesis =>
      rw [storeEvents_succ]
      refine (inductionHypothesis fun index bound => alive index (by omega)).append ⟨?_, trivial⟩
      have last := alive count (Nat.lt_succ_self count)
      cases known : owner count with
      | code pag => trivial
      | data t pag =>
          show Images.alive _ t
          rw [View.alive_stores]
          exact last t pag known

theorem View.find_stores_other (start : View) {count target : Nat} {other : Owner}
    (apart : ∀ index < count, ¬ (other = owner index ∧ target = place index)) :
    View.find ((Images.family start).run view (storeEvents owner place byte count)) other target =
      view.find other target := by
  induction count with
  | zero => rfl
  | succ count inductionHypothesis =>
      rw [storeEvents_succ, Images.run_concat, View.find_store,
        if_neg (apart count (Nat.lt_succ_self count))]
      exact inductionHypothesis fun index bound => apart index (by omega)

theorem View.find_stores (start : View) {count : Nat}
    (distinct : ∀ i < count, ∀ j < count, owner i = owner j → place i = place j → i = j)
    {index : Nat} (bound : index < count) :
    View.find ((Images.family start).run view (storeEvents owner place byte count)) (owner index)
      (place index) = byte index := by
  induction count with
  | zero => exact absurd bound (Nat.not_lt_zero index)
  | succ count inductionHypothesis =>
      rw [storeEvents_succ, Images.run_concat, View.find_store]
      by_cases last : index = count
      · subst last
        rw [if_pos ⟨rfl, rfl⟩]
      · rw [if_neg fun same => last (distinct index bound count (Nat.lt_succ_self count)
          same.1 same.2)]
        exact inductionHypothesis (fun i iBound j jBound => distinct i (by omega) j (by omega))
          (by omega)

end

end Zeos
