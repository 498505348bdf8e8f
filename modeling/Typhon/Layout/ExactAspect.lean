import Typhon.Foundation.Word64
import Typhon.Foundation.Congruence
import Typhon.Foundation.Float64
import Typhon.Layout.Lattice

/-! Window sizes whose aspect is one exact fraction: sizes are `k * p` by `k * q`, and the two
lattices become congruences in `k`. -/

namespace Typhon.Layout
open Foundation Congruence

structure ExactAspectRatio where
  numerator : ℕ
  denominator : ℕ
  deriving DecidableEq

section FromFloat
variable {F : Type} [Float64 F]

def checkedU128 (n : ℕ) : Option ℕ :=
  if n ≤ 340282366920938463463374607431768211455 then some n else none

def fromF64Loop (value : F) : ℕ → F → ℕ → ℕ → ℕ → ℕ → Option ExactAspectRatio
  | 0, _, _, _, _, _ => none
  | rounds + 1, remainder, previousNumerator, numerator, previousDenominator, denominator =>
    let integer := Float64.floor remainder
    if Float64.lt (Float64.ofNat 4294967295) integer then none
    else do
      let integer := Float64.asU128 integer
      let scaled ← checkedU128 (integer * numerator)
      let nextNumerator ← checkedU128 (scaled + previousNumerator)
      let scaled ← checkedU128 (integer * denominator)
      let nextDenominator ← checkedU128 (scaled + previousDenominator)
      if 4294967295 < nextNumerator ∨ 4294967295 < nextDenominator then none
      else if Float64.le
          (Float64.abs (Float64.sub value
            (Float64.div (Float64.ofNat nextNumerator) (Float64.ofNat nextDenominator))))
          (Float64.mul (Float64.ofRat (1 / 100000000000000))
            (Float64.max (Float64.abs value) (Float64.ofRat 1))) then
        some ⟨nextNumerator, nextDenominator⟩
      else
        let fractional := Float64.sub remainder (Float64.ofNat integer)
        -- `f64::EPSILON` is `2 ^ -52`
        if Float64.le (Float64.abs fractional) (Float64.ofRat (1 / 4503599627370496)) then none
        else
          fromF64Loop value rounds (Float64.div (Float64.ofRat 1) fractional) numerator nextNumerator
            denominator nextDenominator

def ExactAspectRatio.fromF64 (value : F) : Option ExactAspectRatio :=
  if !Float64.isFinite value || Float64.le value (Float64.ofRat 0) then none
  else fromF64Loop value 64 value 0 1 1 0

end FromFloat

def ceilDiv (value divisor : ℕ) : ℕ :=
  value / divisor + if value % divisor = 0 then 0 else 1

def checkedU32 (n : ℕ) : Option ℕ := if n ≤ 4294967295 then some n else none

def largestExactAspectPair {ε : Type} (widths heights : LegalDimensionLattice)
    (ratio : ExactAspectRatio) : Run ε (Option (ℕ × ℕ)) :=
  let p := ratio.numerator
  let q := ratio.denominator
  if p = 0 ∨ q = 0 then Run.panic "attempt to divide by zero"
  else .ok do
    let lower := max (max (ceilDiv widths.lower p) (ceilDiv heights.lower q)) 1
    let upper := min (widths.upper / p) (heights.upper / q)
    if upper < lower then none
    else do
      let widthCongruence ←
        linearCongruence p (widths.anchor % widths.step) widths.step
      let heightCongruence ←
        linearCongruence q (heights.anchor % heights.step) heights.step
      let (residue, modulus) ← combineCongruences U64.top widthCongruence heightCongruence
      let k ← largestCongruentAtOrBelow lower upper residue modulus
      let width ← checkedU32 (k * p)
      let height ← checkedU32 (k * q)
      some (width, height)

/-! ### Soundness and completeness -/

theorem ceilDiv_le_iff {v d k : ℕ} (hd : 0 < d) : ceilDiv v d ≤ k ↔ v ≤ k * d := by
  unfold ceilDiv
  have hmod := Nat.div_add_mod v d
  rw [mul_comm] at hmod
  split_ifs with h
  · rw [add_zero, ← Nat.mul_le_mul_right_iff hd]
    omega
  · constructor
    · intro hk
      have hmul := Nat.mul_le_mul_right d hk
      rw [add_mul, one_mul] at hmul
      have := Nat.mod_lt v hd
      omega
    · intro hk
      by_contra hcon
      have := Nat.mul_le_mul_right d (show k ≤ v / d by omega)
      omega

theorem checkedU32_eq_some {n m : ℕ} : checkedU32 n = some m ↔ n ≤ 4294967295 ∧ n = m := by
  simp [checkedU32]

theorem contains_mul_iff {l : LegalDimensionLattice} {p k : ℕ} : l.contains (k * p) = true ↔
      l.lower ≤ k * p ∧ k * p ≤ l.upper ∧ p * k ≡ l.anchor % l.step [MOD l.step] := by
  have hcong : l.lower ≤ k * p →
      (p * k ≡ l.anchor % l.step [MOD l.step] ↔ (k * p - l.anchor) % l.step = 0) := by
    intro hl
    rw [mul_comm p, ← Nat.modEq_iff_dvd' (l.anchor_le.trans hl) |>.trans Nat.dvd_iff_mod_eq_zero]
    exact ⟨fun h => (h.trans (Nat.mod_modEq _ _)).symm, fun h => h.symm.trans (Nat.mod_modEq _ _).symm⟩
  simp only [LegalDimensionLattice.contains, Bool.and_eq_true, decide_eq_true_eq]
  constructor
  · rintro ⟨⟨⟨h₁, h₂⟩, -⟩, h₃⟩
    exact ⟨h₁, h₂, (hcong h₁).mpr h₃⟩
  · rintro ⟨h₁, h₂, h₃⟩
    exact ⟨⟨⟨h₁, h₂⟩, l.anchor_le.trans h₁⟩, (hcong h₁).mp h₃⟩

variable {w h : LegalDimensionLattice}

theorem multiplier_mem_iff {p q k : ℕ} (hp : 0 < p) (hq : 0 < q) :
    max (max (ceilDiv w.lower p) (ceilDiv h.lower q)) 1 ≤ k ∧ k ≤ min (w.upper / p) (h.upper / q) ↔
      1 ≤ k ∧ (w.lower ≤ k * p ∧ k * p ≤ w.upper) ∧ h.lower ≤ k * q ∧ k * q ≤ h.upper := by
  rw [max_le_iff, max_le_iff, le_min_iff, ceilDiv_le_iff hp, ceilDiv_le_iff hq,
    Nat.le_div_iff_mul_le hp, Nat.le_div_iff_mul_le hq]
  tauto

variable {ratio : ExactAspectRatio}

theorem largestExactAspectPair_cases {ε : Type} {width height : ℕ}
    (hpair : (largestExactAspectPair w h ratio : Run ε _) = .ok (some (width, height))) :
    (0 < ratio.numerator ∧ 0 < ratio.denominator) ∧ ∃ x M k, 0 < M ∧
      (∀ n, n ≡ x [MOD M] ↔ ratio.numerator * n ≡ w.anchor % w.step [MOD w.step] ∧
        ratio.denominator * n ≡ h.anchor % h.step [MOD h.step]) ∧
      largestCongruentAtOrBelow (max (max (ceilDiv w.lower ratio.numerator) (ceilDiv h.lower ratio.denominator)) 1)
        (min (w.upper / ratio.numerator) (h.upper / ratio.denominator)) x M = some k ∧
      width = k * ratio.numerator ∧ height = k * ratio.denominator := by
  unfold largestExactAspectPair at hpair
  simp only at hpair
  split_ifs at hpair with hz hlt
  · simp [Run.panic] at hpair
  · simp at hpair
  rw [not_or] at hz
  rw [Except.ok.injEq] at hpair
  obtain ⟨⟨a, m⟩, hw, hpair⟩ := Option.bind_eq_some_iff.mp hpair
  obtain ⟨⟨b, n⟩, hh, hpair⟩ := Option.bind_eq_some_iff.mp hpair
  obtain ⟨⟨x, M⟩, hc, hpair⟩ := Option.bind_eq_some_iff.mp hpair
  obtain ⟨k, hk, hpair⟩ := Option.bind_eq_some_iff.mp hpair
  obtain ⟨_, hcw, hpair⟩ := Option.bind_eq_some_iff.mp hpair
  obtain ⟨_, hch, hpair⟩ := Option.bind_eq_some_iff.mp hpair
  obtain ⟨-, rfl⟩ := checkedU32_eq_some.mp hcw
  obtain ⟨-, rfl⟩ := checkedU32_eq_some.mp hch
  rw [Option.some.injEq, Prod.mk.injEq] at hpair
  obtain ⟨hm, -, hwk⟩ := linearCongruence_some w.step_pos hw
  obtain ⟨hn, -, hhk⟩ := linearCongruence_some h.step_pos hh
  obtain ⟨hM, hboth⟩ := combineCongruences_some hm hn hc
  refine ⟨⟨Nat.pos_of_ne_zero hz.1, Nat.pos_of_ne_zero hz.2⟩, x, M, k, hM, fun i => ?_, hk, hpair.1.symm, hpair.2.symm⟩
  rw [hboth i, hwk i, hhk i]

theorem largestExactAspectPair_sound {ε : Type} {width height : ℕ}
    (hpair : (largestExactAspectPair w h ratio : Run ε _) = .ok (some (width, height))) :
    ∃ k, 1 ≤ k ∧ width = k * ratio.numerator ∧ height = k * ratio.denominator ∧
      w.contains width = true ∧ h.contains height = true := by
  obtain ⟨⟨hp, hq⟩, x, M, k, -, hboth, hk, rfl, rfl⟩ := largestExactAspectPair_cases hpair
  obtain ⟨hlo, hup, hcong⟩ := largestCongruent_some hk
  obtain ⟨hone, hwr, hhr⟩ := (multiplier_mem_iff hp hq).mp ⟨hlo, hup⟩
  obtain ⟨ha, hb⟩ := (hboth k).mp hcong
  exact ⟨k, hone, rfl, rfl, contains_mul_iff.mpr ⟨hwr.1, hwr.2, ha⟩, contains_mul_iff.mpr ⟨hhr.1, hhr.2, hb⟩⟩

theorem largestExactAspectPair_greatest {ε : Type}
    {width height k : ℕ} (hpair : (largestExactAspectPair w h ratio : Run ε _) = .ok (some (width, height)))
    (hk : 1 ≤ k) (hw : w.contains (k * ratio.numerator) = true) (hh : h.contains (k * ratio.denominator) = true) :
    k * ratio.numerator ≤ width ∧ k * ratio.denominator ≤ height := by
  obtain ⟨⟨hp, hq⟩, x, M, k', hM, hboth, hk', rfl, rfl⟩ := largestExactAspectPair_cases hpair
  obtain ⟨hw₁, hw₂, hw₃⟩ := contains_mul_iff.mp hw
  obtain ⟨hh₁, hh₂, hh₃⟩ := contains_mul_iff.mp hh
  obtain ⟨-, hup⟩ := (multiplier_mem_iff hp hq).mpr ⟨hk, ⟨hw₁, hw₂⟩, hh₁, hh₂⟩
  have hle := largestCongruent_greatest hM hk' hup ((hboth k).mpr ⟨hw₃, hh₃⟩)
  exact ⟨Nat.mul_le_mul_right _ hle, Nat.mul_le_mul_right _ hle⟩

theorem largestExactAspectPair_complete {ε : Type}
    (hpair : (largestExactAspectPair w h ratio : Run ε _) = .ok none) {k : ℕ} (hk : 1 ≤ k)
    (hw : w.contains (k * ratio.numerator) = true) : ¬ h.contains (k * ratio.denominator) = true := by
  intro hh
  obtain ⟨hw₁, hw₂, hw₃⟩ := contains_mul_iff.mp hw
  obtain ⟨hh₁, hh₂, hh₃⟩ := contains_mul_iff.mp hh
  unfold largestExactAspectPair at hpair
  simp only at hpair
  split_ifs at hpair with hz hlt
  · simp [Run.panic] at hpair
  all_goals
    rw [not_or] at hz
    obtain ⟨hlo, hup⟩ := (multiplier_mem_iff (Nat.pos_of_ne_zero hz.1) (Nat.pos_of_ne_zero hz.2)).mpr
      ⟨hk, ⟨hw₁, hw₂⟩, hh₁, hh₂⟩
  · omega
  rw [Except.ok.injEq] at hpair
  cases hcw : linearCongruence ratio.numerator (w.anchor % w.step) w.step with
  | none => exact linearCongruence_none w.step_pos hcw k hw₃
  | some am =>
    cases hch : linearCongruence ratio.denominator (h.anchor % h.step) h.step with
    | none => exact linearCongruence_none h.step_pos hch k hh₃
    | some bn =>
      obtain ⟨hm, hmle, hwk⟩ := linearCongruence_some w.step_pos hcw
      obtain ⟨hn, hnle, hhk⟩ := linearCongruence_some h.step_pos hch
      have hlimit : Nat.lcm am.2 bn.2 ≤ U64.top := by
        calc Nat.lcm am.2 bn.2 ≤ am.2 * bn.2 := Nat.le_of_dvd (Nat.mul_pos hm hn) (Nat.lcm_dvd_mul _ _)
          _ ≤ 4294967295 * 4294967295 :=
            Nat.mul_le_mul (hmle.trans w.step_le) (hnle.trans h.step_le)
          _ ≤ U64.top := by decide
      cases hcc : combineCongruences U64.top am bn with
      | none => exact combineCongruences_none hm hn hlimit hcc ((hwk k).mp hw₃) ((hhk k).mp hh₃)
      | some xM =>
        obtain ⟨hM, hboth⟩ := combineCongruences_some hm hn hcc
        have hx := (hboth k).mpr ⟨(hwk k).mp hw₃, (hhk k).mp hh₃⟩
        rw [hcw, hch] at hpair
        simp only [Option.bind_eq_bind, Option.bind_some, hcc] at hpair
        cases hck : largestCongruentAtOrBelow
            (max (max (ceilDiv w.lower ratio.numerator) (ceilDiv h.lower ratio.denominator)) 1)
            (min (w.upper / ratio.numerator) (h.upper / ratio.denominator)) xM.1 xM.2 with
        | none => exact largestCongruent_none hM hck hlo hup hx
        | some k' =>
          obtain ⟨hlo', hup', -⟩ := largestCongruent_some hck
          obtain ⟨-, hwr, hhr⟩ := (multiplier_mem_iff (Nat.pos_of_ne_zero hz.1)
            (Nat.pos_of_ne_zero hz.2)).mp ⟨hlo', hup'⟩
          rw [hck, Option.bind_some, checkedU32_eq_some.mpr ⟨hwr.2.trans w.upper_le, rfl⟩,
            Option.bind_some, checkedU32_eq_some.mpr ⟨hhr.2.trans h.upper_le, rfl⟩] at hpair
          simp at hpair

/-! ### The exact fraction of an aspect -/

theorem asU128_floor {q : ℚ} (h₀ : 0 ≤ q) (h : ⌊q⌋ ≤ 4294967295) : (Float64.asU128 (⌊q⌋ : ℚ) : ℤ) = ⌊q⌋ := by
  have := Int.floor_nonneg.mpr h₀
  rw [Float64.asU128, Exact.toInt_intCast]
  omega

theorem fromF64Loop_succ {value remainder : ℚ} {rounds pn n pd d : ℕ} (hrem : 0 ≤ remainder)
    (h : fromF64Loop value (rounds + 1) remainder pn n pd d = some ratio) : ∃ k : ℕ, (k : ℤ) = ⌊remainder⌋ ∧
      (ratio = ⟨k * n + pn, k * d + pd⟩ ∧
          |value - ((k * n + pn : ℕ) : ℚ) / ((k * d + pd : ℕ) : ℚ)| ≤ 1 / 100000000000000 * max |value| 1 ∧
          k * n + pn ≤ 4294967295 ∧ k * d + pd ≤ 4294967295 ∨
        ∃ next, 1 ≤ next ∧ fromF64Loop value rounds next n (k * n + pn) d (k * d + pd) = some ratio) := by
  rw [fromF64Loop] at h
  simp only [Exact.floor_eq, Exact.ofNat_eq, Nat.cast_ofNat, Exact.sub_eq, Exact.abs_eq, Exact.mul_eq, Exact.max_eq,
    Exact.div_eq, Exact.ofRat_eq, Exact.le_iff, Exact.lt_iff] at h
  by_cases hbig : (4294967295 : ℚ) < ⌊remainder⌋
  · rw [if_pos hbig] at h
    simp at h
  rw [if_neg hbig] at h
  have hfloor : ⌊remainder⌋ ≤ 4294967295 := by exact_mod_cast not_lt.mp hbig
  have hk := asU128_floor hrem hfloor
  set k := Float64.asU128 (⌊remainder⌋ : ℚ) with hkdef
  refine ⟨k, hk, ?_⟩
  simp only [Option.bind_eq_bind, Option.bind_eq_some_iff, checkedU128, Option.ite_none_right_eq_some,
    Option.some.injEq] at h
  obtain ⟨_, ⟨-, rfl⟩, _, ⟨-, rfl⟩, _, ⟨-, rfl⟩, _, ⟨-, rfl⟩, h⟩ := h
  by_cases hover : 4294967295 < k * n + pn ∨ 4294967295 < k * d + pd
  · rw [if_pos hover] at h
    simp at h
  rw [if_neg hover] at h
  split_ifs at h with hclose heps
  · exact .inl ⟨(Option.some.inj h).symm, hclose, by omega, by omega⟩
  · refine .inr ⟨_, ?_, h⟩
    have hcast : (k : ℚ) = ⌊remainder⌋ := by exact_mod_cast hk
    have h₁ := Int.floor_le remainder
    have h₂ := Int.lt_floor_add_one remainder
    rw [hcast, abs_of_nonneg (by linarith), not_le] at heps
    rw [hcast, le_div_iff₀ (by linarith)]
    linarith

theorem fromF64Loop_pos {value remainder : ℚ} {rounds pn n pd d : ℕ}
    (hrem : 1 ≤ remainder) (hd : 1 ≤ d) (hn : 1 ≤ pn ∨ 1 ≤ n)
    (h : fromF64Loop value rounds remainder pn n pd d = some ratio) :
    ratio.numerator ≠ 0 ∧ ratio.denominator ≠ 0 := by
  induction rounds generalizing remainder pn n pd d with
  | zero => simp [fromF64Loop] at h
  | succ rounds ih =>
    obtain ⟨k, hk, hend | ⟨next, hnext, hrest⟩⟩ := fromF64Loop_succ (by linarith) h
    all_goals
      have hk1 : 1 ≤ k := by
        have : (1 : ℤ) ≤ ⌊remainder⌋ := Int.le_floor.mpr (by simpa using hrem)
        omega
      have hnum : 1 ≤ k * n + pn := by
        obtain hn | hn := hn
        · omega
        · have := Nat.mul_le_mul hk1 hn
          omega
      have hden : 1 ≤ k * d + pd := by
        have := Nat.mul_le_mul hk1 hd
        omega
    · obtain ⟨rfl, -⟩ := hend
      exact ⟨by simp only; omega, by simp only; omega⟩
    · exact ih hnext hden (.inr hnum) hrest

theorem fromF64_pos {value : ℚ} (h : ExactAspectRatio.fromF64 value = some ratio) :
    ratio.denominator ≠ 0 ∧ (1 / 100000000000000 < value → ratio.numerator ≠ 0) := by
  unfold ExactAspectRatio.fromF64 at h
  split_ifs at h with hneg
  have hpos : 0 < value := by simpa using hneg
  obtain ⟨k, hk, ⟨rfl, hclose, -⟩ | ⟨next, hnext, hrest⟩⟩ := fromF64Loop_succ hpos.le h
  · refine ⟨by simp, fun hlt hzero => ?_⟩
    have hk0 : k = 0 := by simpa using hzero
    subst hk0
    have hone : value < 1 := by
      have := Int.floor_eq_zero_iff.mp hk.symm
      exact this.2
    simp only [mul_one, add_zero, mul_zero, zero_add, Nat.cast_zero, zero_div, sub_zero, abs_of_pos hpos,
      max_eq_right hone.le] at hclose
    linarith
  · obtain ⟨h₁, h₂⟩ := fromF64Loop_pos hnext (by simp) (.inl le_rfl) hrest
    exact ⟨h₂, fun _ => h₁⟩

theorem fromF64Loop_tiny {value : ℚ} (hpos : 0 < value) (hle : value ≤ 1 / 100000000000000) (rounds : ℕ) :
    fromF64Loop value (rounds + 1) value 0 1 1 0 = some ⟨0, 1⟩ := by
  have hone : value < 1 := hle.trans_lt (by norm_num)
  have hfloor : ⌊value⌋ = 0 := Int.floor_eq_zero_iff.mpr ⟨hpos.le, hone⟩
  have hzero : Float64.asU128 ((0 : ℤ) : ℚ) = 0 := by
    rw [Float64.asU128, Exact.toInt_intCast]
    omega
  have hclose : |value - ((0 : ℕ) : ℚ) / ((1 : ℕ) : ℚ)| ≤ 1 / 100000000000000 * max |value| 1 := by
    rw [Nat.cast_zero, zero_div, sub_zero, abs_of_pos hpos, max_eq_right hone.le, mul_one]
    exact hle
  have hsmall : ¬ (4294967295 : ℚ) < ((0 : ℤ) : ℚ) := by norm_num
  have h₀ : checkedU128 0 = some 0 := rfl
  have h₁ : checkedU128 1 = some 1 := rfl
  rw [fromF64Loop]
  simp only [Exact.floor_eq, hfloor, hzero, Exact.ofNat_eq, Exact.lt_iff, Exact.sub_eq, Exact.abs_eq, Exact.mul_eq,
    Exact.max_eq, Exact.div_eq, Exact.ofRat_eq, Exact.le_iff, Nat.cast_ofNat, if_neg hsmall, mul_one, mul_zero,
      add_zero,
    zero_add, h₀, h₁, Option.bind_eq_bind, Option.bind_some, hclose, if_true]
  norm_num

theorem fromF64_tiny {value : ℚ} (hpos : 0 < value) (hle : value ≤ 1 / 100000000000000) :
    ExactAspectRatio.fromF64 value = some ⟨0, 1⟩ := by
  rw [ExactAspectRatio.fromF64, if_neg (by simpa using hpos)]
  exact fromF64Loop_tiny hpos hle 63

end Typhon.Layout
