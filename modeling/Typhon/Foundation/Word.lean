import Typhon.Foundation.Fault

/-! Fixed-width integers as bounded values of `ℤ` and `ℕ`, with the saturating and
checked operations of the `i32` and `u32` machine types. -/

namespace Foundation

abbrev I32 := {z : ℤ // -2147483648 ≤ z ∧ z ≤ 2147483647}

abbrev U32 := {n : ℕ // n ≤ 4294967295}

namespace I32

theorem zero_mem : -2147483648 ≤ (0 : ℤ) ∧ (0 : ℤ) ≤ 2147483647 := by decide

def sat (z : ℤ) : I32 := ⟨Max.max (-2147483648) (Min.min z 2147483647), by omega⟩

def saturatingAdd (a b : I32) : I32 := sat (a.val + b.val)

def saturatingSub (a b : I32) : I32 := sat (a.val - b.val)

def checkedSub (a b : I32) : Option I32 :=
  if h : -2147483648 ≤ a.val - b.val ∧ a.val - b.val ≤ 2147483647 then some ⟨a.val - b.val, h⟩
  else none

def toU32 (a : I32) : Option U32 :=
  if 0 ≤ a.val then some ⟨a.val.toNat, by have := a.property; omega⟩ else none

def max (a b : I32) : I32 := if a.val < b.val then b else a

def min (a b : I32) : I32 := if b.val < a.val then b else a

def clamp {ε : Type} (a lo hi : I32) : Run ε I32 :=
  if lo.val ≤ hi.val then
    .ok (if a.val < lo.val then lo else if hi.val < a.val then hi else a)
  else Run.panic "assertion failed: min <= max"

@[simp] theorem sat_val (z : ℤ) : (sat z).val = Max.max (-2147483648) (Min.min z 2147483647) := rfl

@[simp] theorem max_val (a b : I32) : (I32.max a b).val = Max.max a.val b.val := by
  unfold I32.max
  split_ifs <;> omega

@[simp] theorem min_val (a b : I32) : (I32.min a b).val = Min.min a.val b.val := by
  unfold I32.min
  split_ifs <;> omega

theorem checkedSub_eq_some {a b c : I32} : checkedSub a b = some c ↔ c.val = a.val - b.val := by
  unfold checkedSub
  split_ifs with h
  · rw [Option.some.injEq, Subtype.ext_iff]
    exact eq_comm
  · have := c.property
    simp only [false_iff]
    omega

theorem toU32_eq_some {a : I32} {n : U32} : toU32 a = some n ↔ (n.val : ℤ) = a.val := by
  unfold toU32
  split_ifs with h
  · rw [Option.some.injEq, Subtype.ext_iff]
    simp only
    omega
  · simp only [false_iff]
    omega

theorem checkedSub_bind_toU32 {a b : I32} {n : U32} :
    (checkedSub a b).bind toU32 = some n ↔ n.val ≤ 2147483647 ∧ (n.val : ℤ) = a.val - b.val := by
  rw [Option.bind_eq_some_iff]
  constructor
  · rintro ⟨d, hd, hn⟩
    have := d.property
    rw [checkedSub_eq_some] at hd
    rw [toU32_eq_some] at hn
    omega
  · rintro ⟨hle, hn⟩
    exact ⟨⟨n.val, by omega⟩, checkedSub_eq_some.mpr hn, toU32_eq_some.mpr rfl⟩

theorem clamp_eq_ok {ε : Type} {a lo hi c : I32} : (clamp a lo hi : Run ε I32) = .ok c ↔
      lo.val ≤ hi.val ∧ c.val = Max.max lo.val (Min.min a.val hi.val) := by
  unfold clamp
  split_ifs with h h₁ h₂ <;> simp only [Run.panic, Except.ok.injEq, reduceCtorEq, h, true_and,
    false_and, Subtype.ext_iff]
  all_goals omega

end I32

namespace U32

theorem zero_mem : 0 ≤ 4294967295 := by decide

theorem one_mem : 1 ≤ 4294967295 := by decide

theorem max_mem : 4294967295 ≤ 4294967295 := by decide

def toI32 (n : U32) : I32 := ⟨min (n.val : ℤ) 2147483647, by omega⟩

def minI32 (n : U32) : I32 := ⟨(min n.val 2147483647 : ℕ), by omega⟩

def saturatingAdd (a b : U32) : U32 := ⟨min (a.val + b.val) 4294967295, by omega⟩

def max (a b : U32) : U32 := if a.val < b.val then b else a

@[simp] theorem toI32_val (n : U32) : n.toI32.val = min (n.val : ℤ) 2147483647 := rfl

@[simp] theorem minI32_val (n : U32) : n.minI32.val = min (n.val : ℤ) 2147483647 := by
  simp [minI32]

@[simp] theorem saturatingAdd_val (a b : U32) : (a.saturatingAdd b).val = min (a.val + b.val) 4294967295 := rfl

@[simp] theorem max_val (a b : U32) : (U32.max a b).val = Max.max a.val b.val := by
  unfold U32.max
  split_ifs <;> omega

end U32
end Foundation
