import Mathlib.Algebra.Order.Floor.Div
import Mathlib.Data.Nat.Notation
import Mathlib.Order.Bounds.Basic
import Mathlib.Tactic.Ring

/-! The points `base + k * step` of a grid: the first one after a number, and the first one not before it. -/

namespace Foundation
variable {base step t k : ℕ}

def stepsPast (base step t : ℕ) : ℕ := (t - base) / step + 1

theorem one_le_stepsPast : 1 ≤ stepsPast base step t := Nat.le_add_left _ _

theorem stepsPast_le_iff (hstep : 0 < step) (hk : 1 ≤ k) : stepsPast base step t ≤ k ↔ t < base + k * step := by
  rw [stepsPast, Nat.succ_le_iff, Nat.div_lt_iff_lt_mul hstep]
  have hpos : 0 < k * step := Nat.mul_pos hk hstep
  omega

theorem lt_add_stepsPast_mul (hstep : 0 < step) : t < base + stepsPast base step t * step :=
  (stepsPast_le_iff hstep one_le_stepsPast).mp le_rfl

theorem ceilDiv_le_iff_le_add_mul (hstep : 0 < step) : (t - base) ⌈/⌉ step ≤ k ↔ t ≤ base + k * step := by
  rw [ceilDiv_le_iff_le_smul hstep, smul_eq_mul, Nat.mul_comm step k]
  omega

end Foundation
