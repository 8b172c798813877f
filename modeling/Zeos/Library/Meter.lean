import Mathlib.Algebra.BigOperators.Group.Finset.Piecewise

/-!
# Meters

A meter splits the time since it was started over several counters. It keeps the
time up to which everything is accounted for, its mark; `charge` books the time
since then on one counter. What the counters add up to and the mark differ by the
time of the start, so a meter that is only ever charged loses and invents nothing.
-/

namespace Library

universe u v

structure Meter (Kind : Type u) (Time : Type v) where
  count : Kind → Time
  mark : Time

namespace Meter

variable {Kind : Type u} {Time : Type v} [AddCommGroup Time]

def start (now : Time) : Meter Kind Time := ⟨fun _ => 0, now⟩

def skip (meter : Meter Kind Time) (now : Time) : Meter Kind Time := { meter with mark := now }

section

variable [DecidableEq Kind]

def charge (meter : Meter Kind Time) (kind : Kind) (now : Time) : Meter Kind Time where
  count := Function.update meter.count kind (meter.count kind + (now - meter.mark))
  mark := now

theorem charge_mark (meter : Meter Kind Time) (kind : Kind) :
    meter.charge kind meter.mark = meter := by
  rw [charge, sub_self, add_zero, Function.update_eq_self]

end

variable [Fintype Kind]

def balance (meter : Meter Kind Time) : Time := ∑ kind, meter.count kind - meter.mark

theorem balance_start (now : Time) : (start now : Meter Kind Time).balance = -now := by
  simp [balance, start]

theorem balance_skip (meter : Meter Kind Time) (now : Time) :
    (meter.skip now).balance = meter.balance + (meter.mark - now) :=
  (sub_add_sub_cancel _ _ _).symm

theorem balance_charge [DecidableEq Kind] (meter : Meter Kind Time) (kind : Kind) (now : Time) :
    (meter.charge kind now).balance = meter.balance := by
  have total : ∑ other, (meter.charge kind now).count other =
      ∑ other, meter.count other + (now - meter.mark) := by
    rw [charge, Finset.sum_update_of_mem (Finset.mem_univ kind),
      Finset.sum_eq_sum_sdiff_singleton_add (Finset.mem_univ kind) meter.count, add_comm, add_assoc]
  calc (meter.charge kind now).balance
      = ∑ other, meter.count other + (now - meter.mark) - now := congrArg (· - now) total
    _ = meter.balance := by rw [add_sub_assoc, sub_sub_cancel_left, ← sub_eq_add_neg, balance]

theorem sum_eq_iff (meter : Meter Kind Time) (begun : Time) :
    ∑ kind, meter.count kind = meter.mark - begun ↔ meter.balance = -begun := by
  rw [balance, sub_eq_iff_eq_add, neg_add_eq_sub]

end Meter

end Library
