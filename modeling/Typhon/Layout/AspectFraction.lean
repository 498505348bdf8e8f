import Typhon.Layout.AspectWords
import Typhon.Layout.SizeSearch

/-! The fraction of an aspect. Two convergents in a row have determinant one or minus one, so a fraction that is
returned is reduced; an aspect up to `1e-14` is within the tolerance of zero, and its fraction is `0/1`. -/

namespace Typhon.Layout
open Foundation

/-! ### What the exact search divides by -/

def linearDivisors (coefficient residue modulus : ℕ) : List ℕ :=
  if modulus = 1 then []
  else
    let divisor := Nat.gcd coefficient modulus
    if residue % divisor ≠ 0 then [] else [divisor, modulus / divisor]

def combineDivisors (left right : ℕ × ℕ) : List ℕ :=
  if left.2 = 1 then [right.2]
  else if right.2 = 1 then [left.2]
  else
    let divisor := Nat.gcd left.2 right.2
    [divisor, right.2 / divisor, left.2 / divisor * right.2]

def searchDivisors (widths heights : LegalDimensionLattice) (ratio : ExactAspectRatio) : List ℕ :=
  let width := (ratio.numerator, widths.anchor % widths.step, widths.step)
  let height := (ratio.denominator, heights.anchor % heights.step, heights.step)
  [ratio.numerator, ratio.denominator, widths.step, heights.step] ++
    linearDivisors width.1 width.2.1 width.2.2 ++ linearDivisors height.1 height.2.1 height.2.2 ++
    match Congruence.linearCongruence width.1 width.2.1 width.2.2,
        Congruence.linearCongruence height.1 height.2.1 height.2.2 with
    | some left, some right =>
      combineDivisors left right ++ ((Congruence.combineCongruences U64.top left right).map (·.2)).toList
    | _, _ => []

theorem linearDivisors_pos {coefficient residue modulus d : ℕ} (hpos : 0 < modulus)
    (hd : d ∈ linearDivisors coefficient residue modulus) : 0 < d := by
  have hgcd : 0 < Nat.gcd coefficient modulus := Nat.gcd_pos_of_pos_right _ hpos
  unfold linearDivisors at hd
  dsimp only at hd
  split_ifs at hd
  · simp at hd
  · simp at hd
  · rw [List.mem_cons, List.mem_singleton] at hd
    rcases hd with rfl | rfl
    · exact hgcd
    · exact Nat.div_pos (Nat.gcd_le_right _ hpos) hgcd

theorem combineDivisors_pos {left right : ℕ × ℕ} {d : ℕ} (hleft : 0 < left.2) (hright : 0 < right.2)
    (hd : d ∈ combineDivisors left right) : 0 < d := by
  have hgcd : 0 < Nat.gcd left.2 right.2 := Nat.gcd_pos_of_pos_left _ hleft
  unfold combineDivisors at hd
  dsimp only at hd
  split_ifs at hd
  · rw [List.mem_singleton.mp hd]
    exact hright
  · rw [List.mem_singleton.mp hd]
    exact hleft
  · simp only [List.mem_cons, List.not_mem_nil, or_false] at hd
    rcases hd with rfl | rfl | rfl
    · exact hgcd
    · exact Nat.div_pos (Nat.gcd_le_right _ hright) hgcd
    · exact Nat.mul_pos (Nat.div_pos (Nat.gcd_le_left _ hleft) hgcd) hright

variable {ratio : ExactAspectRatio}

theorem searchDivisors_pos {widths heights : LegalDimensionLattice}
    (hp : 0 < ratio.numerator) (hq : 0 < ratio.denominator) {d : ℕ} (hd : d ∈ searchDivisors widths heights ratio) :
    0 < d := by
  unfold searchDivisors at hd
  dsimp only at hd
  simp only [List.mem_append] at hd
  rcases hd with ((hd | hd) | hd) | hd
  · simp only [List.mem_cons, List.not_mem_nil, or_false] at hd
    rcases hd with rfl | rfl | rfl | rfl
    exacts [hp, hq, widths.step_pos, heights.step_pos]
  · exact linearDivisors_pos widths.step_pos hd
  · exact linearDivisors_pos heights.step_pos hd
  · split at hd
    · rename_i left right hleft hright
      have hl := (Congruence.linearCongruence_some widths.step_pos hleft).1
      have hr := (Congruence.linearCongruence_some heights.step_pos hright).1
      rcases List.mem_append.mp hd with hd | hd
      · exact combineDivisors_pos hl hr hd
      · rw [Option.mem_toList, Option.map_eq_some_iff] at hd
        obtain ⟨⟨x, M⟩, hcombine, rfl⟩ := hd
        exact (Congruence.combineCongruences_some hl hr hcombine).1
    · simp at hd

theorem exactAspectPair_returns {ε : Type} (widths heights : LegalDimensionLattice)
    (hp : 0 < ratio.numerator) (hq : 0 < ratio.denominator) :
    ∃ pair, (Words.largestExactAspectPair widths heights ratio : Run ε (Option (ℕ × ℕ))) = .ok pair := by
  have hzero : ¬(ratio.numerator = 0 ∨ ratio.denominator = 0) := by omega
  rw [Words.largestExactAspectPair_eq]
  unfold largestExactAspectPair
  dsimp only
  rw [if_neg hzero]
  exact ⟨_, rfl⟩

/-! ### The determinant of two convergents -/

def Convergents (pn n pd d : ℕ) : Prop := IsUnit ((n : ℤ) * pd - pn * d)

theorem Convergents.next {pn n pd d : ℕ} (h : Convergents pn n pd d) (k : ℕ) :
    Convergents n (k * n + pn) d (k * d + pd) := by
  have hneg : ((k * n + pn : ℕ) : ℤ) * d - n * (k * d + pd : ℕ) = -((n : ℤ) * pd - pn * d) := by
    push_cast
    ring
  unfold Convergents
  rw [hneg]
  exact h.neg

theorem Convergents.gcd_eq_one {pn n pd d : ℕ} (h : Convergents pn n pd d) : Nat.gcd n d = 1 := by
  have hn : ((Nat.gcd n d : ℕ) : ℤ) ∣ n := Int.natCast_dvd_natCast.mpr (Nat.gcd_dvd_left n d)
  have hd : ((Nat.gcd n d : ℕ) : ℤ) ∣ d := Int.natCast_dvd_natCast.mpr (Nat.gcd_dvd_right n d)
  have hdvd : ((Nat.gcd n d : ℕ) : ℤ) ∣ (n : ℤ) * pd - pn * d := dvd_sub (hn.mul_right _) (hd.mul_left _)
  exact Nat.isUnit_iff.mp (Int.ofNat_isUnit.mp (isUnit_of_dvd_unit hdvd h))

theorem fromF64Loop_reduced {value remainder : ℚ} {rounds pn n pd d : ℕ}
    (hrem : 0 ≤ remainder) (hdet : Convergents pn n pd d)
    (h : fromF64Loop value rounds remainder pn n pd d = some ratio) :
    Nat.gcd ratio.numerator ratio.denominator = 1 ∧ ratio.numerator ≤ 4294967295 ∧ ratio.denominator ≤ 4294967295 := by
  induction rounds generalizing remainder pn n pd d with
  | zero => simp [fromF64Loop] at h
  | succ rounds ih =>
    obtain ⟨k, -, ⟨rfl, -, hnum, hden⟩ | ⟨next, hnext, hrest⟩⟩ := fromF64Loop_succ hrem h
    · exact ⟨(hdet.next k).gcd_eq_one, hnum, hden⟩
    · exact ih (by linarith) (hdet.next k) hrest

theorem fromF64_reduced {value : ℚ} (h : ExactAspectRatio.fromF64 value = some ratio) :
    Nat.gcd ratio.numerator ratio.denominator = 1 ∧ ratio.numerator ≤ 4294967295 ∧ ratio.denominator ≤ 4294967295 := by
  unfold ExactAspectRatio.fromF64 at h
  split_ifs at h with hneg
  have hpos : 0 < value := by simpa using hneg
  refine fromF64Loop_reduced hpos.le ?_ h
  simp [Convergents]

/-! ### Reduced fractions -/

structure ExactAspectRatio.Reduced (ratio : ExactAspectRatio) : Prop where
  numerator_range : 1 ≤ ratio.numerator ∧ ratio.numerator ≤ 4294967295
  denominator_range : 1 ≤ ratio.denominator ∧ ratio.denominator ≤ 4294967295
  coprime : Nat.gcd ratio.numerator ratio.denominator = 1

def ExactAspectRatio.Divides (ratio : ExactAspectRatio) : Prop :=
  ∀ widths heights : LegalDimensionLattice, (∀ d ∈ searchDivisors widths heights ratio, 0 < d) ∧
    ∃ pair, (Words.largestExactAspectPair widths heights ratio : Run Empty (Option (ℕ × ℕ))) = .ok pair

/-- The aspects of accepted constraints that have a reduced fraction, when they have a fraction at all, are those above
the tolerance of the expansion. -/
theorem aspect_fraction_reduced_iff {c : LayoutConstraints ℚ} (hvalid : c.validate = .ok ()) {value : ℚ}
    (haspect : c.minAspect = some value ∨ c.maxAspect = some value) :
    (∀ ratio, ExactAspectRatio.fromF64 value = some ratio → ratio.Reduced ∧ ratio.Divides) ↔
      1 / 100000000000000 < value := by
  have hpositive := LayoutConstraints.aspectsPositive_of_validate hvalid
  have hpos : 0 < value := haspect.elim (hpositive.min value) (hpositive.max value)
  constructor
  · intro h
    by_contra hle
    obtain ⟨hreduced, -⟩ := h _ (fromF64_tiny hpos (not_lt.mp hle))
    exact absurd hreduced.numerator_range.1 (by decide)
  · intro hlt ratio hratio
    obtain ⟨hden, hnum⟩ := fromF64_pos hratio
    obtain ⟨hgcd, hnumle, hdenle⟩ := fromF64_reduced hratio
    have hp : 0 < ratio.numerator := Nat.pos_of_ne_zero (hnum hlt)
    have hq : 0 < ratio.denominator := Nat.pos_of_ne_zero hden
    exact ⟨⟨⟨hp, hnumle⟩, ⟨hq, hdenle⟩, hgcd⟩,
      fun widths heights => ⟨fun d hd => searchDivisors_pos hp hq hd, exactAspectPair_returns widths heights hp hq⟩⟩

def doubleWide : LayoutConstraints ℚ :=
  { (LayoutConstraints.unconstrained : LayoutConstraints ℚ) with minAspect := some 2, maxAspect := some 2 }

theorem aspect_fraction_reduced_iff_doubleWide : doubleWide.validate = .ok () ∧
    (∀ ratio, ExactAspectRatio.fromF64 (2 : ℚ) = some ratio → ratio.Reduced ∧ ratio.Divides) := by
  have hvalid : doubleWide.validate = .ok () := by decide +kernel
  exact ⟨hvalid, (aspect_fraction_reduced_iff hvalid (.inl rfl)).mpr (by norm_num)⟩

def needleThin : LayoutConstraints ℚ :=
  { (LayoutConstraints.unconstrained : LayoutConstraints ℚ) with
    minAspect := some (1 / 10 ^ 15), maxAspect := some (1 / 10 ^ 15) }

theorem needle_fraction_zero : needleThin.validate = .ok () ∧ needleThin.exactAspect = some ⟨0, 1⟩ ∧
    ¬ (⟨0, 1⟩ : ExactAspectRatio).Reduced ∧
    (Words.largestExactAspectPair sixthWidths fourthHeights ⟨0, 1⟩ : Run Empty (Option (ℕ × ℕ))) =
      Run.panic "attempt to divide by zero" := by
  have htiny : ExactAspectRatio.fromF64 (1 / 10 ^ 15 : ℚ) = some ⟨0, 1⟩ :=
    fromF64_tiny (by norm_num) (by norm_num)
  refine ⟨by decide +kernel, ?_, fun h => absurd h.numerator_range.1 (by decide), rfl⟩
  rw [LayoutConstraints.exactAspect]
  simpa [needleThin] using htiny

end Typhon.Layout
