import Typhon.Foundation.Float64

/-! Exact arithmetic with infinities and a NaN: what double precision computes when no result is rounded. A quotient by
zero is an infinity, or a NaN for zero by zero. -/

namespace Foundation

inductive Extended where
  | nan
  | infinite (positive : Bool)
  | finite (q : ℚ)
  deriving DecidableEq

namespace Extended

def lt : Extended → Extended → Bool
  | finite a, finite b => decide (a < b)
  | finite _, infinite positive => positive
  | infinite positive, finite _ => !positive
  | infinite positive, infinite positive' => !positive && positive'
  | _, _ => false

def le : Extended → Extended → Bool
  | finite a, finite b => decide (a ≤ b)
  | infinite positive, infinite positive' => !positive || positive'
  | a, b => lt a b

def neg : Extended → Extended
  | finite a => finite (-a)
  | infinite positive => infinite !positive
  | nan => nan

def add : Extended → Extended → Extended
  | finite a, finite b => finite (a + b)
  | finite _, infinite positive => infinite positive
  | infinite positive, finite _ => infinite positive
  | infinite positive, infinite positive' => if positive = positive' then infinite positive else nan
  | _, _ => nan

def scaleInfinite (q : ℚ) (positive : Bool) : Extended :=
  if q = 0 then nan else infinite (decide (0 < q) == positive)

def mul : Extended → Extended → Extended
  | finite a, finite b => finite (a * b)
  | finite a, infinite positive => scaleInfinite a positive
  | infinite positive, finite b => scaleInfinite b positive
  | infinite positive, infinite positive' => infinite (positive == positive')
  | _, _ => nan

def div : Extended → Extended → Extended
  | finite a, finite b => if b = 0 then (if a = 0 then nan else infinite (decide (0 < a))) else finite (a / b)
  | finite _, infinite _ => finite 0
  | infinite positive, finite b => infinite (decide (0 ≤ b) == positive)
  | _, _ => nan

def onFinite (f : ℚ → ℚ) : Extended → Extended
  | finite a => finite (f a)
  | other => other

instance : Float64 Extended where
  ofRat := finite
  isFinite
    | finite _ => true
    | _ => false
  le := le
  lt := lt
  sameBits a b := decide (a = b)
  sub a b := add a (neg b)
  mul := mul
  div := div
  abs
    | infinite _ => infinite true
    | other => onFinite (|·|) other
  floor := onFinite fun a => ⌊a⌋
  ceil := onFinite fun a => ⌈a⌉
  round := onFinite fun a => roundHalfAway a
  toInt
    | finite a => if 0 ≤ a then ⌊a⌋ else ⌈a⌉
    | infinite positive => if positive then 2 ^ 1024 else -2 ^ 1024
    | nan => 0
  half_between := by
    refine ⟨rfl, decide_eq_true ?_, decide_eq_true ?_⟩ <;> norm_num

@[simp] theorem ofRat_eq (q : ℚ) : (Float64.ofRat q : Extended) = finite q := rfl
@[simp] theorem ofNat_eq (n : ℕ) : (Float64.ofNat n : Extended) = finite n := rfl
@[simp] theorem le_finite (a b : ℚ) : Float64.le (finite a) (finite b) = true ↔ a ≤ b := decide_eq_true_iff
@[simp] theorem lt_finite (a b : ℚ) : Float64.lt (finite a) (finite b) = true ↔ a < b := decide_eq_true_iff
@[simp] theorem mul_finite (a b : ℚ) : Float64.mul (finite a) (finite b) = finite (a * b) := rfl

theorem div_finite {a b : ℚ} (h : b ≠ 0) : Float64.div (finite a) (finite b) = finite (a / b) := if_neg h

theorem div_zero_pos {a : ℚ} (h : 0 < a) : Float64.div (finite a) (finite 0) = infinite true := by
  change (if (0 : ℚ) = 0 then (if a = 0 then nan else infinite (decide (0 < a))) else finite (a / 0)) = _
  rw [if_pos rfl, if_neg h.ne', decide_eq_true h]

theorem zero_div_zero : Float64.div (finite 0) (finite 0) = nan := by
  change (if (0 : ℚ) = 0 then (if (0 : ℚ) = 0 then nan else infinite (decide ((0 : ℚ) < 0))) else finite (0 / 0)) = _
  rw [if_pos rfl, if_pos rfl]

theorem clamp_finite {ε : Type} {a lo hi : ℚ} (h : lo ≤ hi) :
    (Float64.clamp (finite a) (finite lo) (finite hi) : Run ε Extended) = .ok (finite (max lo (min a hi))) := by
  rw [Float64.clamp, if_pos ((le_finite lo hi).mpr h)]
  simp only [lt_finite]
  split_ifs with h₁ h₂
  · rw [min_eq_left (h₁.le.trans h), max_eq_left h₁.le]
  · rw [min_eq_right h₂.le, max_eq_right h]
  · rw [min_eq_left (not_lt.mp h₂), max_eq_right (not_lt.mp h₁)]

end Extended
end Foundation
