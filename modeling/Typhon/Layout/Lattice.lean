import Typhon.Foundation.Word

/-! The finite lattice of legal window dimensions: a range and an arithmetic progression. -/

namespace Typhon.Layout
open Foundation

structure LegalDimensionLattice where
  lower : ℕ
  upper : ℕ
  anchor : ℕ
  step : ℕ
  lower_le : lower ≤ upper
  anchor_le : anchor ≤ lower
  upper_le : upper ≤ 4294967295
  step_pos : 0 < step
  step_le : step ≤ 4294967295
  deriving DecidableEq

namespace LegalDimensionLattice

theorem filter_getD_pos (increment : Option U32) :
    0 < ((increment.filter fun step => 0 < step.val).getD (⟨1, by decide⟩ : U32)).val := by
  cases h : increment.filter fun step => 0 < step.val with
  | none => exact one_pos
  | some step => simpa using (Option.filter_eq_some_iff.mp h).2

def new (min max base increment : Option U32) : Option LegalDimensionLattice :=
  let lower := Max.max ((min.map Subtype.val).getD 1) ((base.map Subtype.val).getD 0)
  let upper : U32 := max.getD ⟨4294967295, le_rfl⟩
  let anchor := (base.map Subtype.val).getD lower
  let step : U32 := (increment.filter fun step => 0 < step.val).getD ⟨1, U32.one_mem⟩
  if h : lower ≤ upper.val ∧ anchor ≤ upper.val then
    some ⟨lower, upper.val, anchor, step.val, h.1, by cases base <;> simp [lower, anchor],
      upper.property, filter_getD_pos increment, step.property⟩
  else none

variable (l : LegalDimensionLattice)

/-- Intermediate values stay below `2 ^ 34`, so the `u64` arithmetic does not saturate. -/
def alignUp (value : ℕ) : Option ℕ :=
  let value := Max.max (Max.max value l.lower) l.anchor
  let steps := (value - l.anchor + l.step - 1) / l.step
  let aligned := l.anchor + steps * l.step
  if aligned ≤ l.upper then some aligned else none

def alignDown (value : ℕ) : Option ℕ :=
  let value := Min.min value l.upper
  if value < l.anchor then none
  else
    let steps := (value - l.anchor) / l.step
    let aligned := l.anchor + steps * l.step
    if l.lower ≤ aligned then some aligned else none

def contains (value : ℕ) : Bool :=
  decide (l.lower ≤ value) && decide (value ≤ l.upper) && decide (l.anchor ≤ value) &&
    decide ((value - l.anchor) % l.step = 0)

def first : Option ℕ := l.alignUp l.lower

def cardinality : ℕ :=
  match l.first with
  | none => 0
  | some first => (l.upper - first) / l.step + 1

def valueAt (index : ℕ) : Option ℕ := do
  let first ← l.first
  -- `checked_mul` and `checked_add` on `u64`
  if index * l.step ≤ 18446744073709551615 ∧ first + index * l.step ≤ 18446744073709551615 then
    if first + index * l.step ≤ l.upper then some (first + index * l.step) else none
  else none

/-! ### Members -/

variable {l : LegalDimensionLattice}

theorem contains_iff {v : ℕ} :
    l.contains v = true ↔ l.lower ≤ v ∧ v ≤ l.upper ∧ ∃ k, v = l.anchor + k * l.step := by
  simp only [contains, Bool.and_eq_true, decide_eq_true_eq]
  constructor
  · rintro ⟨⟨⟨h₁, h₂⟩, h₃⟩, h₄⟩
    refine ⟨h₁, h₂, (v - l.anchor) / l.step, ?_⟩
    rw [Nat.div_mul_cancel (Nat.dvd_of_mod_eq_zero h₄)]
    omega
  · rintro ⟨h₁, h₂, k, rfl⟩
    exact ⟨⟨⟨h₁, h₂⟩, Nat.le_add_right _ _⟩, by simp⟩

theorem alignUp_eq_some {value a : ℕ} (h : l.alignUp value = some a) :
    l.contains a = true ∧ value ≤ a ∧ ∀ b, l.contains b = true → value ≤ b → a ≤ b := by
  simp only [alignUp, Option.ite_none_right_eq_some, Option.some.injEq] at h
  obtain ⟨hle, rfl⟩ := h
  set v := Max.max (Max.max value l.lower) l.anchor with hv
  have hceil : v ≤ l.anchor + (v - l.anchor + l.step - 1) / l.step * l.step := by
    have := Nat.lt_div_mul_add l.step_pos (a := v - l.anchor + l.step - 1)
    omega
  refine ⟨contains_iff.mpr ⟨by omega, hle, _, rfl⟩, by omega, fun b hb hvb => ?_⟩
  obtain ⟨hlb, -, k, rfl⟩ := contains_iff.mp hb
  refine Nat.add_le_add_left (Nat.mul_le_mul_right _ ?_) _
  rw [Nat.div_le_iff_le_mul_add_pred l.step_pos, mul_comm l.step]
  omega

theorem alignUp_eq_none {value b : ℕ} (h : l.alignUp value = none) (hb : l.contains b = true) : b < value := by
  by_contra hvb
  obtain ⟨hlb, hub, k, rfl⟩ := contains_iff.mp hb
  simp only [alignUp, ite_eq_right_iff, reduceCtorEq, imp_false, not_le] at h
  set v := Max.max (Max.max value l.lower) l.anchor with hv
  have hk : (v - l.anchor + l.step - 1) / l.step ≤ k := by
    rw [Nat.div_le_iff_le_mul_add_pred l.step_pos, mul_comm l.step]
    omega
  have := Nat.mul_le_mul_right l.step hk
  omega

theorem alignDown_eq_some {value a : ℕ} (h : l.alignDown value = some a) :
    l.contains a = true ∧ a ≤ value ∧ ∀ b, l.contains b = true → b ≤ value → b ≤ a := by
  simp only [alignDown] at h
  split_ifs at h with h₁ h₂
  rw [Option.some.injEq] at h
  subst h
  set v := Min.min value l.upper with hv
  have hfloor := Nat.div_mul_le_self (v - l.anchor) l.step
  refine ⟨contains_iff.mpr ⟨h₂, by omega, _, rfl⟩, by omega, fun b hb hbv => ?_⟩
  obtain ⟨-, hub, k, rfl⟩ := contains_iff.mp hb
  refine Nat.add_le_add_left (Nat.mul_le_mul_right _ ?_) _
  rw [Nat.le_div_iff_mul_le l.step_pos]
  omega

theorem alignDown_eq_none {value b : ℕ} (h : l.alignDown value = none) (hb : l.contains b = true) : value < b := by
  by_contra hbv
  obtain ⟨hlb, hub, k, rfl⟩ := contains_iff.mp hb
  simp only [alignDown] at h
  set v := Min.min value l.upper with hv
  have hk : k ≤ (v - l.anchor) / l.step := by
    rw [Nat.le_div_iff_mul_le l.step_pos]
    omega
  have := Nat.mul_le_mul_right l.step hk
  split_ifs at h with h₁ h₂
  · omega
  · omega

end LegalDimensionLattice
end Typhon.Layout
