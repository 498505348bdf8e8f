import Typhon.Foundation.Word

/-! Double precision arithmetic as a parameter. A development over `[Float64 F]` makes no
assumption on rounding; the instance on `ℚ` is the exact arithmetic without rounding, which
agrees with the format except that it has no infinities and no NaN. -/

namespace Foundation

class Float64 (F : Type) where
  /-- Literals and integer conversions, rounded to the format. -/
  ofRat : ℚ → F
  isFinite : F → Bool
  le : F → F → Bool
  lt : F → F → Bool
  sameBits : F → F → Bool
  sub : F → F → F
  mul : F → F → F
  div : F → F → F
  abs : F → F
  floor : F → F
  ceil : F → F
  round : F → F
  /-- Truncation towards zero; 0 for a NaN, beyond every integer type for an infinity. -/
  toInt : F → ℤ
  half_between : isFinite (ofRat (1 / 2)) = true ∧ le (ofRat (1 / 20)) (ofRat (1 / 2)) = true ∧
    le (ofRat (1 / 2)) (ofRat (19 / 20)) = true

namespace Float64
variable {F : Type} [Float64 F]

def ofNat (n : ℕ) : F := ofRat n

def ofInt (z : ℤ) : F := ofRat z

def max (a b : F) : F := if le a a then (if lt a b then b else a) else b

def min (a b : F) : F := if le a a then (if lt b a then b else a) else b

def clamp {ε : Type} (a lo hi : F) : Run ε F :=
  if le lo hi then .ok (if lt a lo then lo else if lt hi a then hi else a)
  else Run.panic "min > max, or either was NaN"

def asI64 (a : F) : ℤ := Max.max (-9223372036854775808) (Min.min (toInt a) 9223372036854775807)

def asU32 (a : F) : U32 := ⟨Min.min (toInt a).toNat 4294967295, by omega⟩

def asU128 (a : F) : ℕ := Min.min (toInt a).toNat 340282366920938463463374607431768211455

end Float64

def roundHalfAway (q : ℚ) : ℤ := if 0 ≤ q then ⌊q + 1 / 2⌋ else -⌊-q + 1 / 2⌋

instance : Float64 ℚ where
  ofRat q := q
  isFinite _ := true
  le a b := decide (a ≤ b)
  lt a b := decide (a < b)
  sameBits a b := decide (a = b)
  sub a b := a - b
  mul a b := a * b
  div a b := a / b
  abs a := |a|
  floor a := ⌊a⌋
  ceil a := ⌈a⌉
  round a := roundHalfAway a
  toInt a := if 0 ≤ a then ⌊a⌋ else ⌈a⌉
  half_between := by norm_num

/-- What the format guarantees of comparisons: they hold between numbers only, order all of them, and quotients of
machine integers keep the order of the integers. -/
class LawfulFloat64 (F : Type) [Float64 F] : Prop where
  le_trans : ∀ {a b c : F}, Float64.le a b = true → Float64.le b c = true → Float64.le a c = true
  le_left : ∀ {a b : F}, Float64.le a b = true → Float64.le a a = true
  le_right : ∀ {a b : F}, Float64.le a b = true → Float64.le b b = true
  le_of_lt : ∀ {a b : F}, Float64.lt a b = true → Float64.le a b = true
  le_of_not_lt : ∀ {a b : F}, Float64.le a a = true → Float64.le b b = true → Float64.lt a b = false →
    Float64.le b a = true
  finite_between : ∀ {a b c : F}, Float64.isFinite a = true → Float64.isFinite c = true →
    Float64.le a b = true → Float64.le b c = true → Float64.isFinite b = true
  finite_twentieths : Float64.isFinite (Float64.ofRat (1 / 20) : F) = true ∧
    Float64.isFinite (Float64.ofRat (19 / 20) : F) = true
  quotient_number : ∀ (x : I32) (n : U32), 0 < n.val →
    Float64.le (Float64.div (Float64.ofInt x.val) (Float64.ofNat n.val) : F)
      (Float64.div (Float64.ofInt x.val) (Float64.ofNat n.val)) = true
  le_of_quotient_le : ∀ (x y : I32) (n : U32), 0 < n.val →
    Float64.le (Float64.div (Float64.ofInt x.val) (Float64.ofNat n.val) : F)
      (Float64.div (Float64.ofInt y.val) (Float64.ofNat n.val)) = true → x.val ≤ y.val

namespace Float64
variable {F : Type} [Float64 F] [LawfulFloat64 F] {a b : F}

theorem le_max (ha : le a a = true) (hb : le b b = true) : le a (max a b) = true ∧ le b (max a b) = true := by
  rw [max, if_pos ha]
  cases hlt : lt a b with
  | true => exact ⟨LawfulFloat64.le_of_lt hlt, hb⟩
  | false => exact ⟨ha, LawfulFloat64.le_of_not_lt ha hb hlt⟩

theorem min_le (ha : le a a = true) (hb : le b b = true) : le (min a b) a = true ∧ le (min a b) b = true := by
  rw [min, if_pos ha]
  cases hlt : lt b a with
  | true => exact ⟨LawfulFloat64.le_of_lt hlt, hb⟩
  | false => exact ⟨ha, LawfulFloat64.le_of_not_lt hb ha hlt⟩

end Float64

namespace Exact
open Float64

@[simp] theorem ofRat_eq (q : ℚ) : (ofRat q : ℚ) = q := rfl
@[simp] theorem ofNat_eq (n : ℕ) : (Float64.ofNat n : ℚ) = n := rfl
@[simp] theorem ofInt_eq (z : ℤ) : (Float64.ofInt z : ℚ) = z := rfl
@[simp] theorem isFinite_eq (q : ℚ) : isFinite q = true := rfl
@[simp] theorem le_iff (a b : ℚ) : le a b = true ↔ a ≤ b := decide_eq_true_iff
@[simp] theorem lt_iff (a b : ℚ) : lt a b = true ↔ a < b := decide_eq_true_iff
@[simp] theorem sameBits_iff (a b : ℚ) : sameBits a b = true ↔ a = b := decide_eq_true_iff
@[simp] theorem sub_eq (a b : ℚ) : Float64.sub a b = a - b := rfl
@[simp] theorem mul_eq (a b : ℚ) : Float64.mul a b = a * b := rfl
@[simp] theorem div_eq (a b : ℚ) : Float64.div a b = a / b := rfl
@[simp] theorem abs_eq (a : ℚ) : Float64.abs a = |a| := rfl
@[simp] theorem floor_eq (a : ℚ) : Float64.floor a = (⌊a⌋ : ℚ) := rfl
@[simp] theorem round_eq (a : ℚ) : Float64.round a = (roundHalfAway a : ℚ) := rfl

@[simp] theorem toInt_intCast (z : ℤ) : toInt (z : ℚ) = z := by
  change (if 0 ≤ (z : ℚ) then ⌊(z : ℚ)⌋ else ⌈(z : ℚ)⌉) = z
  split_ifs <;> simp

@[simp] theorem max_eq (a b : ℚ) : Float64.max a b = Max.max a b := by
  simp only [Float64.max, le_iff, le_refl, if_true, lt_iff]
  split_ifs with h
  · exact (max_eq_right h.le).symm
  · exact (max_eq_left (not_lt.mp h)).symm

@[simp] theorem min_eq (a b : ℚ) : Float64.min a b = Min.min a b := by
  simp only [Float64.min, le_iff, le_refl, if_true, lt_iff]
  split_ifs with h
  · exact (min_eq_right h.le).symm
  · exact (min_eq_left (not_lt.mp h)).symm

theorem clamp_eq_ok {ε : Type} {a lo hi : ℚ} (h : lo ≤ hi) :
    (Float64.clamp a lo hi : Run ε ℚ) = .ok (Max.max lo (Min.min a hi)) := by
  simp only [Float64.clamp, le_iff, h, if_true, lt_iff]
  split_ifs with h₁ h₂
  · rw [min_eq_left (h₁.le.trans h), max_eq_left h₁.le]
  · rw [min_eq_right h₂.le, max_eq_right h]
  · rw [min_eq_left (not_lt.mp h₂), max_eq_right (not_lt.mp h₁)]

instance : LawfulFloat64 ℚ where
  le_trans h₁ h₂ := (le_iff _ _).mpr (((le_iff _ _).mp h₁).trans ((le_iff _ _).mp h₂))
  le_left := by simp
  le_right := by simp
  le_of_lt h := (le_iff _ _).mpr ((lt_iff _ _).mp h).le
  le_of_not_lt _ _ h := by simpa [← Bool.not_eq_true] using h
  finite_between := by simp
  finite_twentieths := by simp
  quotient_number := by simp
  le_of_quotient_le x y n hn h := by
    have hpos : (0 : ℚ) < n.val := by exact_mod_cast hn
    simpa [div_le_div_iff_of_pos_right hpos] using h

end Exact
end Foundation
