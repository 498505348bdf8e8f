import Typhon.Layout.ExactAspect

/-! The congruences of an exact aspect in machine words: every `u64`, `u128` and `i128` result is checked, and the
checks never fail. The pair that is found is the largest one. -/

namespace Typhon.Layout
open Foundation Congruence

namespace Words
variable {ε : Type}

def unsigned (limit n : ℕ) : Run ε ℕ := if n ≤ limit then .ok n else Run.panic "arithmetic overflow"

def u128Max : ℕ := 340282366920938463463374607431768211455

def FitsI128 (z : ℤ) : Prop :=
  -170141183460469231731687303715884105728 ≤ z ∧ z ≤ 170141183460469231731687303715884105727

instance (z : ℤ) : Decidable (FitsI128 z) := inferInstanceAs (Decidable (_ ∧ _))

def asU64 (n : ℕ) : ℕ := n % 18446744073709551616

def inverseLoop (oldR r oldS s : ℤ) : Run ε (ℤ × ℤ) :=
  if _hr : r = 0 then .ok (oldR, oldS)
  else
    let quotient := oldR.tdiv r
    if (FitsI128 (quotient * r) ∧ FitsI128 (oldR - quotient * r)) ∧
        FitsI128 (quotient * s) ∧ FitsI128 (oldS - quotient * s) then
      inverseLoop r (oldR - quotient * r) s (oldS - quotient * s)
    else Run.panic "arithmetic overflow"
termination_by r.natAbs
decreasing_by
  rw [mul_comm, ← Int.tmod_def]
  rw [Int.natAbs_tmod]
  exact Nat.mod_lt _ (Int.natAbs_pos.mpr _hr)

def modInverse (value modulus : ℕ) : Run ε (Option ℕ) :=
  if modulus = 1 then .ok (some 0)
  else do
    let (r, s) ← inverseLoop value modulus 1 0
    return if r = 1 then some (asU64 (s % (modulus : ℤ)).toNat) else none

def linearCongruence (coefficient residue modulus : ℕ) : Run ε (Option (ℕ × ℕ)) :=
  if modulus = 1 then .ok (some (0, 1))
  else
    let divisor := Nat.gcd coefficient modulus
    if residue % divisor ≠ 0 then .ok none
    else do
      let coefficient := coefficient / divisor
      let residue := residue / divisor
      let modulus := modulus / divisor
      match ← modInverse (coefficient % modulus) modulus with
      | none => return none
      | some inverse => return some (asU64 ((← unsigned u128Max (residue * inverse)) % modulus), modulus)

def combineStep (difference : ℤ) (leftModulus divisor reducedModulus : ℕ) : Run ε (Option ℕ) :=
  if reducedModulus = 1 then .ok (some 0)
  else do
    match ← modInverse (leftModulus / divisor % reducedModulus) reducedModulus with
    | none => return none
    | some inverse =>
      let difference := asU64 (difference.tdiv divisor % (reducedModulus : ℤ)).toNat
      return some (asU64 ((← unsigned u128Max (difference * inverse)) % reducedModulus))

def checkedU64 (n : ℕ) : Option ℕ := if n ≤ U64.top then some n else none

def combineCongruences (left right : ℕ × ℕ) : Run ε (Option (ℕ × ℕ)) :=
  if left.2 = 1 then .ok (some (right.1 % right.2, right.2))
  else if right.2 = 1 then .ok (some (left.1 % left.2, left.2))
  else
    let divisor := Nat.gcd left.2 right.2
    let difference : ℤ := (right.1 : ℤ) - left.1
    if ¬FitsI128 difference then Run.panic "arithmetic overflow"
    else if difference.tmod divisor ≠ 0 then .ok none
    else do
      match ← combineStep difference left.2 divisor (right.2 / divisor) with
      | none => return none
      | some step =>
        let modulus ← unsigned u128Max (left.2 / divisor * right.2)
        let residue := (← unsigned u128Max (left.1 + (← unsigned u128Max (left.2 * step)))) % modulus
        return do
          let residue ← checkedU64 residue
          let modulus ← checkedU64 modulus
          some (residue, modulus)

def largestCongruentAtOrBelow (lower upper residue modulus : ℕ) : Run ε (Option ℕ) :=
  if upper < lower then .ok none
  else
    let residue := residue % modulus
    if upper < residue then .ok none
    else do
      let candidate ← unsigned u128Max (residue + (← unsigned u128Max ((upper - residue) / modulus * modulus)))
      return if lower ≤ candidate then some (asU64 candidate) else none

def ceilDiv (value divisor : ℕ) : Run ε ℕ :=
  unsigned U64.top (value / divisor + if value % divisor = 0 then 0 else 1)

def largestExactAspectPair (widths heights : LegalDimensionLattice) (ratio : ExactAspectRatio) :
    Run ε (Option (ℕ × ℕ)) :=
  let p := ratio.numerator
  let q := ratio.denominator
  if p = 0 ∨ q = 0 then Run.panic "attempt to divide by zero"
  else do
    let lower := max (max (← ceilDiv widths.lower p) (← ceilDiv heights.lower q)) 1
    let upper := min (widths.upper / p) (heights.upper / q)
    if upper < lower then return none
    else
      match ← linearCongruence p (widths.anchor % widths.step) widths.step with
      | none => return none
      | some widthCongruence =>
        match ← linearCongruence q (heights.anchor % heights.step) heights.step with
        | none => return none
        | some heightCongruence =>
          match ← combineCongruences widthCongruence heightCongruence with
          | none => return none
          | some (residue, modulus) =>
            match ← largestCongruentAtOrBelow lower upper residue modulus with
            | none => return none
            | some k =>
              let width ← unsigned u128Max (k * p)
              let height ← unsigned u128Max (k * q)
              return do
                let width ← checkedU32 width
                let height ← checkedU32 height
                some (width, height)

/-! ### No check fails -/

theorem unsigned_of_le {limit n : ℕ} (h : n ≤ limit) : (unsigned limit n : Run ε ℕ) = .ok n := if_pos h

theorem asU64_of_le {n : ℕ} (h : n ≤ U64.top) : asU64 n = n := Nat.mod_eq_of_lt (Nat.lt_succ_of_le h)

theorem mul_le_u128Max {a b : ℕ} (ha : a ≤ U64.top) (hb : b ≤ U64.top) : a * b ≤ u128Max :=
  (Nat.mul_le_mul ha hb).trans (by decide)

theorem fitsI128_of_natAbs {z : ℤ} (h : z.natAbs ≤ U64.top) : FitsI128 z := by
  unfold FitsI128
  unfold U64.top at h
  omega

theorem natAbs_sub_mul {a b : ℤ} (q : ℕ) (h : a * b ≤ 0) : (a - q * b).natAbs = a.natAbs + q * b.natAbs := by
  have hmul : (q * b).natAbs = q * b.natAbs := by rw [Int.natAbs_mul, Int.natAbs_natCast]
  rw [← hmul]
  rcases mul_nonpos_iff.mp h with ⟨ha, hb⟩ | ⟨ha, hb⟩
  · have : (q : ℤ) * b ≤ 0 := mul_nonpos_of_nonneg_of_nonpos (Int.natCast_nonneg q) hb
    omega
  · have : 0 ≤ (q : ℤ) * b := mul_nonneg (Int.natCast_nonneg q) hb
    omega

/-- The remainders and the coefficients of the other one make up the modulus in every round, so no coefficient exceeds
it. -/
theorem inverseLoop_eq {modulus oldR r : ℕ} {oldS s : ℤ} (hmodulus : modulus ≤ U64.top) (hold : oldR ≤ U64.top)
    (hr : r ≤ U64.top) (hsign : oldS * s ≤ 0) (hs : s.natAbs ≤ modulus)
    (hsum : oldR * s.natAbs + r * oldS.natAbs = modulus) : (inverseLoop oldR r oldS s : Run ε (ℤ × ℤ)) =
      .ok ((euclidLoop oldR r oldS s).1, (euclidLoop oldR r oldS s).2) := by
  induction r using Nat.strong_induction_on generalizing oldR oldS s with
  | _ r ih =>
    rw [inverseLoop, euclidLoop]
    by_cases hzero : r = 0
    · rw [dif_pos (Int.natCast_eq_zero.mpr hzero), dif_pos hzero]
    rw [dif_neg (Int.natCast_eq_zero.not.mpr hzero), dif_neg hzero]
    have hquotient : (oldR : ℤ).tdiv r = (oldR / r : ℕ) := rfl
    have hmod : (oldR : ℤ) - (oldR / r : ℕ) * r = (oldR % r : ℕ) := by
      push_cast
      rw [Int.emod_def]
      ring
    have hnext := natAbs_sub_mul (oldR / r) hsign
    have hsum' : r * (oldS - (oldR / r : ℕ) * s).natAbs + oldR % r * s.natAbs = modulus := by
      rw [hnext, ← hsum]
      nth_rewrite 3 [← Nat.div_add_mod oldR r]
      ring
    have hle : (oldS - (oldR / r : ℕ) * s).natAbs ≤ modulus := by
      have := Nat.le_mul_of_pos_left (oldS - (oldR / r : ℕ) * s).natAbs (Nat.pos_of_ne_zero hzero)
      omega
    have hproduct : ((oldR / r : ℕ) * s : ℤ).natAbs ≤ modulus := by
      rw [Int.natAbs_mul, Int.natAbs_natCast]
      omega
    have hfits : (FitsI128 ((oldR : ℤ).tdiv r * r) ∧ FitsI128 (oldR - (oldR : ℤ).tdiv r * r)) ∧
        FitsI128 ((oldR : ℤ).tdiv r * s) ∧ FitsI128 (oldS - (oldR : ℤ).tdiv r * s) := by
      rw [hquotient, hmod]
      refine ⟨⟨fitsI128_of_natAbs ?_, fitsI128_of_natAbs ?_⟩, fitsI128_of_natAbs (hproduct.trans hmodulus),
        fitsI128_of_natAbs (hle.trans hmodulus)⟩
      · rw [← Nat.cast_mul, Int.natAbs_natCast]
        exact (Nat.div_mul_le_self oldR r).trans hold
      · rw [Int.natAbs_natCast]
        exact (Nat.mod_le oldR r).trans hold
    dsimp only
    rw [if_pos hfits, hquotient, hmod]
    refine ih _ (Nat.mod_lt _ (Nat.pos_of_ne_zero hzero)) hr ((Nat.mod_le oldR r).trans hold) ?_ hle hsum'
    have hsquare : (0 : ℤ) ≤ (oldR / r : ℕ) * (s * s) := mul_nonneg (Int.natCast_nonneg _) (mul_self_nonneg s)
    have hexpand : s * (oldS - (oldR / r : ℕ) * s) = oldS * s - (oldR / r : ℕ) * (s * s) := by ring
    omega

theorem modInverse_lt {value modulus inverse : ℕ} (hpos : 0 < modulus)
    (h : Congruence.modInverse value modulus = some inverse) : inverse < modulus := by
  unfold Congruence.modInverse at h
  split_ifs at h with hone
  · cases h
    exact hpos
  · simp only [Option.ite_none_right_eq_some, Option.some.injEq] at h
    obtain ⟨-, rfl⟩ := h
    have hlt := Int.emod_lt_of_pos (euclidLoop value modulus 1 0).2 (Int.natCast_pos.mpr hpos)
    omega

theorem modInverse_eq {value modulus : ℕ} (hpos : 0 < modulus) (hvalue : value ≤ U64.top)
    (hmodulus : modulus ≤ U64.top) :
    (modInverse value modulus : Run ε (Option ℕ)) = .ok (Congruence.modInverse value modulus) := by
  unfold modInverse Congruence.modInverse
  split_ifs with hone
  · rfl
  · have hloop : (inverseLoop value modulus 1 0 : Run ε (ℤ × ℤ)) = _ :=
      inverseLoop_eq hmodulus hvalue hmodulus (by simp) (Nat.zero_le _) (by simp)
    have hlt := Int.emod_lt_of_pos (euclidLoop value modulus 1 0).2 (Int.natCast_pos.mpr hpos)
    rw [hloop, Run.ok_bind]
    dsimp only
    rw [asU64_of_le (by omega)]
    simp only [Nat.cast_eq_one]
    rfl

theorem linearCongruence_eq {coefficient residue modulus : ℕ} (hpos : 0 < modulus) (hresidue : residue ≤ U64.top)
    (hmodulus : modulus ≤ U64.top) : (linearCongruence coefficient residue modulus : Run ε (Option (ℕ × ℕ))) =
      .ok (Congruence.linearCongruence coefficient residue modulus) := by
  unfold linearCongruence Congruence.linearCongruence
  split_ifs with hone
  · rfl
  · dsimp only
    split_ifs with hdvd
    · rfl
    have hreduced : 0 < modulus / Nat.gcd coefficient modulus :=
      Nat.div_pos (Nat.gcd_le_right _ hpos) (Nat.gcd_pos_of_pos_right _ hpos)
    have hle : modulus / Nat.gcd coefficient modulus ≤ U64.top := (Nat.div_le_self _ _).trans hmodulus
    rw [modInverse_eq hreduced ((Nat.mod_lt _ hreduced).le.trans hle) hle, Run.ok_bind]
    cases hinverse : Congruence.modInverse
        (coefficient / Nat.gcd coefficient modulus % (modulus / Nat.gcd coefficient modulus))
        (modulus / Nat.gcd coefficient modulus) with
    | none => rfl
    | some inverse =>
      have hlt := modInverse_lt hreduced hinverse
      dsimp only
      rw [unsigned_of_le (mul_le_u128Max ((Nat.div_le_self _ _).trans hresidue) (hlt.le.trans hle)), Run.ok_bind,
        asU64_of_le ((Nat.mod_lt _ hreduced).le.trans hle)]
      rfl

theorem combineStep_eq {difference : ℤ} {leftModulus divisor reducedModulus : ℕ} (hpos : 0 < reducedModulus)
    (hreduced : reducedModulus ≤ U64.top) (hdvd : (divisor : ℤ) ∣ difference) :
    (combineStep difference leftModulus divisor reducedModulus : Run ε (Option ℕ)) =
      .ok (if reducedModulus = 1 then some 0 else do
        let inverse ← Congruence.modInverse (leftModulus / divisor % reducedModulus) reducedModulus
        some ((difference / divisor % (reducedModulus : ℤ)).toNat * inverse % reducedModulus)) := by
  unfold combineStep
  split_ifs with hone
  · rfl
  · rw [modInverse_eq hpos ((Nat.mod_lt _ hpos).le.trans hreduced) hreduced, Run.ok_bind]
    cases hinverse : Congruence.modInverse (leftModulus / divisor % reducedModulus) reducedModulus with
    | none => rfl
    | some inverse =>
      have hlt := modInverse_lt hpos hinverse
      have hsmall : (difference / divisor % (reducedModulus : ℤ)).toNat ≤ U64.top := by
        have := Int.emod_lt_of_pos (difference / divisor) (Int.natCast_pos.mpr hpos)
        omega
      dsimp only
      rw [Int.tdiv_eq_ediv_of_dvd hdvd, asU64_of_le hsmall,
        unsigned_of_le (mul_le_u128Max hsmall (hlt.le.trans hreduced)), Run.ok_bind,
        asU64_of_le ((Nat.mod_lt _ hpos).le.trans hreduced)]
      rfl

theorem combineCongruences_eq {left right : ℕ × ℕ} (hleft : 0 < left.2 ∧ left.2 ≤ U64.top)
    (hright : 0 < right.2 ∧ right.2 ≤ U64.top) (hresidues : left.1 ≤ U64.top ∧ right.1 ≤ U64.top) :
    (combineCongruences left right : Run ε (Option (ℕ × ℕ))) =
      .ok (Congruence.combineCongruences U64.top left right) := by
  have hgcd : 0 < Nat.gcd left.2 right.2 := Nat.gcd_pos_of_pos_left _ hleft.1
  have hreduced : 0 < right.2 / Nat.gcd left.2 right.2 := Nat.div_pos (Nat.gcd_le_right _ hright.1) hgcd
  have hfits : FitsI128 ((right.1 : ℤ) - left.1) := fitsI128_of_natAbs (by omega)
  unfold combineCongruences Congruence.combineCongruences
  dsimp only
  rw [if_neg (not_not.mpr hfits)]
  by_cases hone : left.2 = 1
  · rw [if_pos hone, if_pos hone]
  rw [if_neg hone, if_neg hone]
  by_cases hone' : right.2 = 1
  · rw [if_pos hone', if_pos hone']
  rw [if_neg hone', if_neg hone']
  -- the code's remainder has the sign of the dividend; both are zero together
  by_cases hdvd : ((Nat.gcd left.2 right.2 : ℕ) : ℤ) ∣ (right.1 : ℤ) - left.1
  · rw [if_neg (not_not.mpr (Int.tmod_eq_zero_of_dvd hdvd)), if_neg (not_not.mpr (Int.emod_eq_zero_of_dvd hdvd)),
      combineStep_eq hreduced ((Nat.div_le_self _ _).trans hright.2) hdvd, Run.ok_bind]
    set step := (if right.2 / Nat.gcd left.2 right.2 = 1 then some 0 else do
      let inverse ← Congruence.modInverse (left.2 / Nat.gcd left.2 right.2 % (right.2 / Nat.gcd left.2 right.2))
        (right.2 / Nat.gcd left.2 right.2)
      some ((((right.1 : ℤ) - left.1) / Nat.gcd left.2 right.2 % ((right.2 / Nat.gcd left.2 right.2 : ℕ) : ℤ)).toNat *
        inverse % (right.2 / Nat.gcd left.2 right.2))) with hstep
    have hlt : ∀ n ∈ step, n < right.2 / Nat.gcd left.2 right.2 := by
      intro n hn
      rw [Option.mem_def, hstep] at hn
      split_ifs at hn
      · cases hn
        exact hreduced
      · obtain ⟨inverse, -, hn⟩ := Option.bind_eq_some_iff.mp hn
        cases hn
        exact Nat.mod_lt _ hreduced
    have hfinish : ∀ f : ℕ → Option (ℕ × ℕ), (if right.2 / Nat.gcd left.2 right.2 = 1 then (some 0).bind f else
        (Congruence.modInverse (left.2 / Nat.gcd left.2 right.2 % (right.2 / Nat.gcd left.2 right.2))
          (right.2 / Nat.gcd left.2 right.2)).bind fun inverse =>
        (some ((((right.1 : ℤ) - left.1) / Nat.gcd left.2 right.2 %
          ((right.2 / Nat.gcd left.2 right.2 : ℕ) : ℤ)).toNat * inverse % (right.2 / Nat.gcd left.2 right.2))).bind f) =
        step.bind f := by
      intro f
      rw [hstep]
      split_ifs
      · rfl
      · exact (Option.bind_assoc _ _ _).symm
    simp only [Option.bind_eq_bind]
    rw [hfinish]
    cases hvalue : step with
    | none => rfl
    | some n =>
      have hn : n + 1 ≤ U64.top := (hlt n hvalue).trans_le ((Nat.div_le_self _ _).trans hright.2)
      have hsum : left.1 + left.2 * n ≤ u128Max := by
        calc left.1 + left.2 * n ≤ U64.top + U64.top * n := Nat.add_le_add hresidues.1 (Nat.mul_le_mul_right n hleft.2)
          _ = U64.top * (n + 1) := by ring
          _ ≤ u128Max := mul_le_u128Max le_rfl hn
      dsimp only
      rw [unsigned_of_le (mul_le_u128Max ((Nat.div_le_self _ _).trans hleft.2) hright.2), Run.ok_bind,
        unsigned_of_le ((Nat.le_add_left _ _).trans hsum), Run.ok_bind, unsigned_of_le hsum, Run.ok_bind]
      refine congrArg Except.ok ?_
      simp only [checkedU64, Option.bind_some]
      split_ifs <;> simp_all
  · rw [if_pos fun hzero => hdvd (Int.dvd_of_tmod_eq_zero hzero), if_pos fun hzero => hdvd
      (Int.dvd_of_emod_eq_zero hzero)]

theorem largestCongruentAtOrBelow_eq {lower upper residue modulus : ℕ} (hupper : upper ≤ U64.top) :
    (largestCongruentAtOrBelow lower upper residue modulus : Run ε (Option ℕ)) =
      .ok (Congruence.largestCongruentAtOrBelow lower upper residue modulus) := by
  unfold largestCongruentAtOrBelow Congruence.largestCongruentAtOrBelow
  by_cases hlt : upper < lower
  · rw [if_pos hlt, if_pos hlt]
  rw [if_neg hlt, if_neg hlt]
  dsimp only
  by_cases hlt' : upper < residue % modulus
  · rw [if_pos hlt', if_pos hlt']
  rw [if_neg hlt', if_neg hlt']
  have hfloor := Nat.div_mul_le_self (upper - residue % modulus) modulus
  have hle : residue % modulus + (upper - residue % modulus) / modulus * modulus ≤ U64.top := by omega
  have hwide : U64.top ≤ u128Max := by decide
  rw [unsigned_of_le (by omega), Run.ok_bind, unsigned_of_le (hle.trans hwide), Run.ok_bind, asU64_of_le hle]
  rfl

theorem linearCongruence_residue_le {c r m : ℕ} {am : ℕ × ℕ} (hm : 0 < m)
    (h : Congruence.linearCongruence c r m = some am) : am.1 ≤ am.2 := by
  obtain ⟨hpos, -, -⟩ := Congruence.linearCongruence_some (a := am.1) (n := am.2) hm h
  unfold Congruence.linearCongruence at h
  dsimp only at h
  split_ifs at h
  · cases h
    exact Nat.zero_le 1
  · obtain ⟨inverse, -, h⟩ := Option.bind_eq_some_iff.mp h
    cases h
    exact (Nat.mod_lt _ hpos).le

theorem largestExactAspectPair_eq (widths heights : LegalDimensionLattice) (ratio : ExactAspectRatio) :
    (largestExactAspectPair widths heights ratio : Run ε (Option (ℕ × ℕ))) =
      Layout.largestExactAspectPair widths heights ratio := by
  have hword : 4294967295 + 1 ≤ U64.top := by decide
  -- the operands are `u32` values of the lattices
  have hceil : ∀ (l : LegalDimensionLattice) (d : ℕ),
      (ceilDiv l.lower d : Run ε ℕ) = .ok (Layout.ceilDiv l.lower d) := by
    intro l d
    refine unsigned_of_le ?_
    have := Nat.div_le_self l.lower d
    have := l.lower_le
    have := l.upper_le
    split_ifs <;> omega
  have hlinear : ∀ (l : LegalDimensionLattice) (c : ℕ),
      (linearCongruence c (l.anchor % l.step) l.step : Run ε (Option (ℕ × ℕ))) =
        .ok (Congruence.linearCongruence c (l.anchor % l.step) l.step) := by
    intro l c
    have hstep := l.step_le
    have := Nat.mod_lt l.anchor l.step_pos
    exact linearCongruence_eq l.step_pos (by omega) (by omega)
  have hupper : min (widths.upper / ratio.numerator) (heights.upper / ratio.denominator) ≤ U64.top := by
    have := Nat.div_le_self widths.upper ratio.numerator
    have := widths.upper_le
    omega
  unfold largestExactAspectPair Layout.largestExactAspectPair
  dsimp only
  by_cases hzero : ratio.numerator = 0 ∨ ratio.denominator = 0
  · rw [if_pos hzero, if_pos hzero]
  rw [if_neg hzero, if_neg hzero, hceil, Run.ok_bind, hceil, Run.ok_bind]
  generalize hlower : max (max (Layout.ceilDiv widths.lower ratio.numerator)
    (Layout.ceilDiv heights.lower ratio.denominator)) 1 = lower
  by_cases hlt : min (widths.upper / ratio.numerator) (heights.upper / ratio.denominator) < lower
  · rw [if_pos hlt, if_pos hlt]
    rfl
  rw [if_neg hlt, if_neg hlt, hlinear, Run.ok_bind]
  cases hw : Congruence.linearCongruence ratio.numerator (widths.anchor % widths.step) widths.step with
  | none => rfl
  | some width =>
    dsimp only
    rw [hlinear, Run.ok_bind]
    cases hh : Congruence.linearCongruence ratio.denominator (heights.anchor % heights.step) heights.step with
    | none => rfl
    | some height =>
      obtain ⟨hwpos, hwle, -⟩ := Congruence.linearCongruence_some (a := width.1) (n := width.2) widths.step_pos hw
      obtain ⟨hhpos, hhle, -⟩ := Congruence.linearCongruence_some (a := height.1) (n := height.2) heights.step_pos hh
      have hwres := linearCongruence_residue_le widths.step_pos hw
      have hhres := linearCongruence_residue_le heights.step_pos hh
      have hwstep := widths.step_le
      have hhstep := heights.step_le
      dsimp only
      rw [combineCongruences_eq ⟨hwpos, by omega⟩ ⟨hhpos, by omega⟩ ⟨by omega, by omega⟩, Run.ok_bind]
      simp only [Option.bind_eq_bind, Option.bind_some]
      cases hc : Congruence.combineCongruences U64.top width height with
      | none => rfl
      | some both =>
        dsimp only
        rw [largestCongruentAtOrBelow_eq hupper, Run.ok_bind, Option.bind_some]
        cases hk : Congruence.largestCongruentAtOrBelow lower
            (min (widths.upper / ratio.numerator) (heights.upper / ratio.denominator)) both.1 both.2 with
        | none => rfl
        | some k =>
          obtain ⟨-, hkle, -⟩ := Congruence.largestCongruent_some hk
          have hwk := Nat.mul_le_of_le_div _ _ _ (hkle.trans (min_le_left _ _))
          have hhk := Nat.mul_le_of_le_div _ _ _ (hkle.trans (min_le_right _ _))
          have hwide : U64.top ≤ u128Max := by decide
          have hwupper := widths.upper_le
          have hhupper := heights.upper_le
          dsimp only
          rw [unsigned_of_le (by omega), Run.ok_bind, unsigned_of_le (by omega), Run.ok_bind]
          rfl

end Words

theorem exists_multiplier {w h p q : ℕ} (hp : 0 < p) (hco : Nat.gcd p q = 1) (hratio : w * q = h * p) :
    ∃ k, w = k * p ∧ h = k * q := by
  have hdvd : p ∣ w := by
    refine (Nat.Coprime.dvd_mul_right (n := q) hco).mp ?_
    rw [hratio]
    exact dvd_mul_left p h
  obtain ⟨k, rfl⟩ := hdvd
  refine ⟨k, mul_comm p k, Nat.eq_of_mul_eq_mul_right hp ?_⟩
  rw [← hratio]
  ring

theorem exact_aspect_pair_optimal {ε : Type} (widths heights : LegalDimensionLattice) {p q : ℕ}
    (hwidths : 0 < widths.lower) (hp : 1 ≤ p ∧ p ≤ 4294967295)
    (hq : 1 ≤ q ∧ q ≤ 4294967295) (hco : Nat.gcd p q = 1) :
    ∃ pair, (Words.largestExactAspectPair widths heights ⟨p, q⟩ : Run ε (Option (ℕ × ℕ))) = .ok pair ∧
      (pair.isSome = true ↔ ∃ w h, widths.contains w = true ∧ heights.contains h = true ∧ w * q = h * p) ∧
      ∀ w h, pair = some (w, h) → (widths.contains w = true ∧ heights.contains h = true ∧ w * q = h * p) ∧
        ∀ w' h', widths.contains w' = true → heights.contains h' = true → w' * q = h' * p → w' ≤ w ∧ h' ≤ h := by
  have hmultiple : ∀ w h, widths.contains w = true → w * q = h * p → ∃ k, 1 ≤ k ∧ w = k * p ∧ h = k * q := by
    intro w h hw hratio
    obtain ⟨k, rfl, rfl⟩ := exists_multiplier hp.1 hco hratio
    refine ⟨k, Nat.pos_of_ne_zero ?_, rfl, rfl⟩
    rintro rfl
    obtain ⟨hlower, -⟩ := LegalDimensionLattice.contains_iff.mp hw
    omega
  rw [Words.largestExactAspectPair_eq]
  have hzero : ¬(p = 0 ∨ q = 0) := by omega
  obtain ⟨pair, hpair⟩ : ∃ pair, (largestExactAspectPair widths heights ⟨p, q⟩ : Run ε (Option (ℕ × ℕ))) =
    .ok pair := by
    unfold largestExactAspectPair
    dsimp only
    rw [if_neg hzero]
    exact ⟨_, rfl⟩
  refine ⟨pair, hpair, ⟨fun hsome => ?_, fun ⟨w, h, hw, hh, hratio⟩ => ?_⟩, fun w h hsome => ?_⟩
  · obtain ⟨⟨w, h⟩, rfl⟩ := Option.isSome_iff_exists.mp hsome
    obtain ⟨k, -, rfl, rfl, hw, hh⟩ := largestExactAspectPair_sound hpair
    exact ⟨_, _, hw, hh, by dsimp only; ring⟩
  · obtain ⟨k, hk, rfl, rfl⟩ := hmultiple w h hw hratio
    by_contra hnone
    rw [Option.not_isSome_iff_eq_none.mp hnone] at hpair
    exact largestExactAspectPair_complete hpair hk hw hh
  · rw [hsome] at hpair
    refine ⟨?_, fun w' h' hw' hh' hratio' => ?_⟩
    · obtain ⟨k, -, rfl, rfl, hw, hh⟩ := largestExactAspectPair_sound hpair
      exact ⟨hw, hh, by dsimp only; ring⟩
    · obtain ⟨k, hk, rfl, rfl⟩ := hmultiple w' h' hw' hratio'
      exact largestExactAspectPair_greatest hpair hk hw' hh'

def sixthWidths : LegalDimensionLattice := ⟨5, 100, 5, 6, by decide, by decide, by decide, by decide, by decide⟩

def fourthHeights : LegalDimensionLattice := ⟨3, 100, 3, 4, by decide, by decide, by decide, by decide, by decide⟩

theorem exact_aspect_pair_optimal_square :
    ∃ w h, (Words.largestExactAspectPair sixthWidths fourthHeights ⟨1, 1⟩ : Run Empty (Option (ℕ × ℕ))) =
      .ok (some (w, h)) ∧ 95 ≤ w ∧ 95 ≤ h := by
  obtain ⟨pair, hpair, hsome, hbest⟩ := exact_aspect_pair_optimal (ε := Empty) sixthWidths fourthHeights (p := 1)
    (q := 1) (by decide) (by decide) (by decide) (by decide)
  obtain ⟨⟨w, h⟩, rfl⟩ := Option.isSome_iff_exists.mp (hsome.mpr ⟨95, 95, by decide, by decide, by decide⟩)
  exact ⟨w, h, hpair, (hbest w h rfl).2 95 95 (by decide) (by decide) (by decide)⟩

end Typhon.Layout
