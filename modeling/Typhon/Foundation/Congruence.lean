import Mathlib

/-! Linear congruences over the naturals: the extended Euclidean loop, the solution set of one
congruence, the intersection of two, and the largest solution in an interval. -/

namespace Foundation.Congruence

def euclidLoop (oldR r : ℕ) (oldS s : ℤ) : ℕ × ℤ :=
  if _h : r = 0 then (oldR, oldS)
  else euclidLoop r (oldR % r) s (oldS - (oldR / r : ℕ) * s)
termination_by r
decreasing_by exact Nat.mod_lt _ (Nat.pos_of_ne_zero _h)

def modInverse (value modulus : ℕ) : Option ℕ :=
  if modulus = 1 then some 0
  else
    let (r, s) := euclidLoop value modulus 1 0
    if r = 1 then some (s % (modulus : ℤ)).toNat else none

def linearCongruence (coefficient residue modulus : ℕ) : Option (ℕ × ℕ) :=
  if modulus = 1 then some (0, 1)
  else
    let divisor := Nat.gcd coefficient modulus
    if residue % divisor ≠ 0 then none
    else do
      let coefficient := coefficient / divisor
      let residue := residue / divisor
      let modulus := modulus / divisor
      let inverse ← modInverse (coefficient % modulus) modulus
      some (residue * inverse % modulus, modulus)

/-- The intersection of two residue classes; `limit` bounds the numbers that can be returned. -/
def combineCongruences (limit : ℕ) (left right : ℕ × ℕ) : Option (ℕ × ℕ) :=
  if left.2 = 1 then some (right.1 % right.2, right.2)
  else if right.2 = 1 then some (left.1 % left.2, left.2)
  else
    let divisor := Nat.gcd left.2 right.2
    let difference : ℤ := (right.1 : ℤ) - left.1
    if difference % divisor ≠ 0 then none
    else do
      let reduced := right.2 / divisor
      let step ← if reduced = 1 then some 0 else do
        let inverse ← modInverse (left.2 / divisor % reduced) reduced
        some ((difference / divisor % (reduced : ℤ)).toNat * inverse % reduced)
      let modulus := left.2 / divisor * right.2
      let residue := (left.1 + left.2 * step) % modulus
      if residue ≤ limit ∧ modulus ≤ limit then some (residue, modulus) else none

def largestCongruentAtOrBelow (lower upper residue modulus : ℕ) : Option ℕ :=
  if upper < lower then none
  else
    let residue := residue % modulus
    if upper < residue then none
    else
      let candidate := residue + (upper - residue) / modulus * modulus
      if lower ≤ candidate then some candidate else none

/-! ### The inverse -/

theorem euclidLoop_fst (oldR r : ℕ) (oldS s : ℤ) : (euclidLoop oldR r oldS s).1 = Nat.gcd oldR r := by
  induction r using Nat.strong_induction_on generalizing oldR oldS s with
  | _ r ih =>
    rw [euclidLoop]
    split_ifs with h
    · simp [h]
    · rw [ih _ (Nat.mod_lt _ (Nat.pos_of_ne_zero h)), Nat.gcd_comm r, ← Nat.gcd_rec, Nat.gcd_comm]

theorem euclidLoop_snd {value modulus : ℤ} {oldR r : ℕ} {oldS s : ℤ}
    (hold : (oldR : ℤ) ≡ oldS * value [ZMOD modulus]) (hr : (r : ℤ) ≡ s * value [ZMOD modulus]) :
    ((euclidLoop oldR r oldS s).1 : ℤ) ≡ (euclidLoop oldR r oldS s).2 * value [ZMOD modulus] := by
  induction r using Nat.strong_induction_on generalizing oldR oldS s with
  | _ r ih =>
    rw [euclidLoop]
    split_ifs with h
    · exact hold
    · refine ih _ (Nat.mod_lt _ (Nat.pos_of_ne_zero h)) hr ?_
      have hmod : ((oldR % r : ℕ) : ℤ) = oldR - (oldR / r : ℕ) * r := by
        have := Nat.div_add_mod oldR r
        push_cast
        rw [Int.emod_def]
        ring
      rw [hmod, sub_mul, mul_assoc]
      exact hold.sub (hr.mul_left _)

theorem modInverse_sound {value modulus inverse : ℕ} (hpos : 0 < modulus)
    (h : modInverse value modulus = some inverse) : value * inverse ≡ 1 [MOD modulus] := by
  unfold modInverse at h
  split_ifs at h with hone
  · rw [hone]
    exact Nat.modEq_one
  · simp only [Option.ite_none_right_eq_some, Option.some.injEq] at h
    obtain ⟨hr, rfl⟩ := h
    have hloop : ((euclidLoop value modulus 1 0).1 : ℤ) ≡
        (euclidLoop value modulus 1 0).2 * value [ZMOD modulus] :=
      euclidLoop_snd (by simp) (by simp [Int.modEq_iff_dvd])
    rw [hr] at hloop
    have hnonneg := Int.emod_nonneg (euclidLoop value modulus 1 0).2 (by omega : (modulus : ℤ) ≠ 0)
    rw [← Int.natCast_modEq_iff]
    push_cast
    rw [Int.toNat_of_nonneg hnonneg, mul_comm]
    exact (((Int.mod_modEq _ _).mul_right _).trans hloop.symm).trans (by simp)

theorem modInverse_complete {value modulus : ℕ} (h : Nat.Coprime value modulus) :
    ∃ inverse, modInverse value modulus = some inverse := by
  unfold modInverse
  split_ifs
  · exact ⟨0, rfl⟩
  · simp only [euclidLoop_fst, h.gcd_eq_one, if_true]
    exact ⟨_, rfl⟩

theorem mul_modEq_iff_of_inverse {c i r n k : ℕ} (h : c * i ≡ 1 [MOD n]) :
    c * k ≡ r [MOD n] ↔ k ≡ r * i [MOD n] := by
  constructor
  · intro hk
    calc k = 1 * k := (one_mul k).symm
      _ ≡ c * i * k [MOD n] := h.symm.mul_right k
      _ = c * k * i := by ring
      _ ≡ r * i [MOD n] := hk.mul_right i
  · intro hk
    calc c * k ≡ c * (r * i) [MOD n] := hk.mul_left c
      _ = r * (c * i) := by ring
      _ ≡ r * 1 [MOD n] := h.mul_left r
      _ = r := mul_one r

/-! ### Solution sets -/

theorem linearCongruence_some {c r m a n : ℕ} (hm : 0 < m) (h : linearCongruence c r m = some (a, n)) :
    0 < n ∧ n ≤ m ∧ ∀ k, c * k ≡ r [MOD m] ↔ k ≡ a [MOD n] := by
  unfold linearCongruence at h
  simp only at h
  split_ifs at h with hone hdvd
  · simp only [Option.some.injEq, Prod.mk.injEq] at h
    obtain ⟨rfl, rfl⟩ := h
    refine ⟨one_pos, hm, fun k => iff_of_true ?_ Nat.modEq_one⟩
    rw [hone]
    exact Nat.modEq_one
  · obtain ⟨i, hi, h⟩ := Option.bind_eq_some_iff.mp h
    simp only [Option.some.injEq, Prod.mk.injEq] at h
    obtain ⟨rfl, rfl⟩ := h
    have hd : 0 < Nat.gcd c m := Nat.gcd_pos_of_pos_right c hm
    have hn : 0 < m / Nat.gcd c m := Nat.div_pos (Nat.gcd_le_right c hm) hd
    have hinv : c / Nat.gcd c m * i ≡ 1 [MOD m / Nat.gcd c m] :=
      ((Nat.mod_modEq _ _).mul_right i).symm.trans (modInverse_sound hn hi)
    refine ⟨hn, Nat.div_le_self _ _, fun k => ?_⟩
    have hc : c * k = Nat.gcd c m * (c / Nat.gcd c m * k) := by
      rw [← mul_assoc, Nat.mul_div_cancel' (Nat.gcd_dvd_left c m)]
    have hr : Nat.gcd c m * (r / Nat.gcd c m) = r :=
      Nat.mul_div_cancel' (Nat.dvd_of_mod_eq_zero (not_not.mp hdvd))
    have hmod : Nat.gcd c m * (m / Nat.gcd c m) = m := Nat.mul_div_cancel' (Nat.gcd_dvd_right c m)
    have hscale : c * k ≡ r [MOD m] ↔
        c / Nat.gcd c m * k ≡ r / Nat.gcd c m [MOD m / Nat.gcd c m] := by
      have key := Nat.ModEq.mul_left_cancel_iff' (a := c / Nat.gcd c m * k) (b := r / Nat.gcd c m)
        (m := m / Nat.gcd c m) hd.ne'
      rwa [← hc, hr, hmod] at key
    rw [hscale, mul_modEq_iff_of_inverse hinv]
    exact ⟨fun hk => hk.trans (Nat.mod_modEq _ _).symm, fun hk => hk.trans (Nat.mod_modEq _ _)⟩

theorem linearCongruence_none {c r m : ℕ} (hm : 0 < m) (h : linearCongruence c r m = none) (k : ℕ) :
    ¬ c * k ≡ r [MOD m] := by
  unfold linearCongruence at h
  have hd : 0 < Nat.gcd c m := Nat.gcd_pos_of_pos_right c hm
  simp only at h
  split_ifs at h with hone hdvd
  · intro hk
    have hk' := hk.of_dvd (Nat.gcd_dvd_right c m)
    have hzero : c * k ≡ 0 [MOD Nat.gcd c m] :=
      (Nat.modEq_zero_iff_dvd.mpr ((Nat.gcd_dvd_left c m).mul_right k))
    exact hdvd (hk'.symm.trans hzero)
  · have hco : Nat.Coprime (c / Nat.gcd c m) (m / Nat.gcd c m) := Nat.coprime_div_gcd_div_gcd hd
    have hco' : Nat.Coprime (c / Nat.gcd c m % (m / Nat.gcd c m)) (m / Nat.gcd c m) := by
      rw [Nat.Coprime, ← Nat.gcd_rec, Nat.gcd_comm]
      exact hco
    obtain ⟨i, hi⟩ := modInverse_complete hco'
    simp [hi] at h

theorem modEq_lcm_iff {m n k x : ℕ} : k ≡ x [MOD Nat.lcm m n] ↔ k ≡ x [MOD m] ∧ k ≡ x [MOD n] := by
  constructor
  · intro h
    exact ⟨h.of_dvd (Nat.dvd_lcm_left m n), h.of_dvd (Nat.dvd_lcm_right m n)⟩
  · rintro ⟨h₁, h₂⟩
    rw [Nat.modEq_iff_dvd] at h₁ h₂ ⊢
    exact Int.natCast_dvd.mpr (Nat.lcm_dvd (Int.natCast_dvd.mp h₁) (Int.natCast_dvd.mp h₂))

theorem largestCongruent_some {lower upper residue modulus k : ℕ}
    (h : largestCongruentAtOrBelow lower upper residue modulus = some k) :
    lower ≤ k ∧ k ≤ upper ∧ k ≡ residue [MOD modulus] := by
  unfold largestCongruentAtOrBelow at h
  simp only at h
  split_ifs at h with h₁ h₂ h₃
  rw [Option.some.injEq] at h
  subst h
  refine ⟨h₃, ?_, ?_⟩
  · have := Nat.div_mul_le_self (upper - residue % modulus) modulus
    omega
  · have hz : (upper - residue % modulus) / modulus * modulus ≡ 0 [MOD modulus] :=
      Nat.modEq_zero_iff_dvd.mpr (dvd_mul_left _ _)
    exact ((Nat.mod_modEq residue modulus).add hz).trans (by rw [add_zero])

theorem le_candidate {upper residue modulus k : ℕ} (hm : 0 < modulus) (hu : k ≤ upper)
    (hk : k ≡ residue [MOD modulus]) :
    residue % modulus ≤ k ∧ k ≤ residue % modulus + (upper - residue % modulus) / modulus * modulus := by
  have hsame : k % modulus = residue % modulus := hk
  have hres : residue % modulus ≤ k := by
    rw [← hsame]
    exact Nat.mod_le _ _
  obtain ⟨q, hq⟩ : modulus ∣ k - residue % modulus := by
    rw [← hsame]
    exact Nat.dvd_sub_mod k
  have hqle : q ≤ (upper - residue % modulus) / modulus := by
    rw [Nat.le_div_iff_mul_le hm, mul_comm, ← hq]
    omega
  have := Nat.mul_le_mul_right modulus hqle
  rw [mul_comm] at hq
  exact ⟨hres, by omega⟩

theorem largestCongruent_greatest {lower upper residue modulus k k' : ℕ} (hm : 0 < modulus)
    (h : largestCongruentAtOrBelow lower upper residue modulus = some k) (hu : k' ≤ upper)
    (hk' : k' ≡ residue [MOD modulus]) : k' ≤ k := by
  unfold largestCongruentAtOrBelow at h
  simp only at h
  split_ifs at h
  rw [Option.some.injEq] at h
  exact h ▸ (le_candidate hm hu hk').2

theorem largestCongruent_none {lower upper residue modulus : ℕ} (hm : 0 < modulus)
    (h : largestCongruentAtOrBelow lower upper residue modulus = none) {k : ℕ} (hl : lower ≤ k)
    (hu : k ≤ upper) : ¬ k ≡ residue [MOD modulus] := by
  intro hk
  obtain ⟨hres, hle⟩ := le_candidate hm hu hk
  unfold largestCongruentAtOrBelow at h
  simp only at h
  split_ifs at h with h₁ h₂ h₃
  · omega
  · omega
  · omega

/-! ### Combination -/

theorem combine_step {a b m n s : ℕ} (hm : 0 < m)
    (hs : ((m / Nat.gcd m n : ℕ) : ℤ) * s ≡ ((b : ℤ) - a) / Nat.gcd m n [ZMOD (n / Nat.gcd m n : ℕ)])
    (hd : ((b : ℤ) - a) % Nat.gcd m n = 0) : a + m * s ≡ b [MOD n] := by
  have hg : 0 < Nat.gcd m n := Nat.gcd_pos_of_pos_left n hm
  have hmul := hs.mul_left' (c := (Nat.gcd m n : ℤ))
  have hn : ((Nat.gcd m n : ℕ) : ℤ) * (n / Nat.gcd m n : ℕ) = n := by
    exact_mod_cast Nat.mul_div_cancel' (Nat.gcd_dvd_right m n)
  have hmm : ((Nat.gcd m n : ℕ) : ℤ) * ((m / Nat.gcd m n : ℕ) * s) = m * s := by
    rw [← mul_assoc]
    congr 1
    exact_mod_cast Nat.mul_div_cancel' (Nat.gcd_dvd_left m n)
  rw [hn, hmm, Int.mul_ediv_cancel' (Int.dvd_of_emod_eq_zero hd)] at hmul
  rw [← Int.natCast_modEq_iff]
  push_cast
  exact (hmul.add_left (a : ℤ)).trans (by rw [add_sub_cancel])

theorem div_gcd_mul_eq_lcm (m n : ℕ) : m / Nat.gcd m n * n = Nat.lcm m n :=
  Nat.div_mul_right_comm (Nat.gcd_dvd_left m n) n

theorem modEq_combined_iff {a b m n s : ℕ} (hs : a + m * s ≡ b [MOD n]) (k : ℕ) :
    k ≡ (a + m * s) % (m / Nat.gcd m n * n) [MOD m / Nat.gcd m n * n] ↔ k ≡ a [MOD m] ∧ k ≡ b [MOD n] := by
  have ha : a + m * s ≡ a [MOD m] := by simp [Nat.ModEq]
  rw [div_gcd_mul_eq_lcm]
  constructor
  · intro hk
    obtain ⟨h₁, h₂⟩ := modEq_lcm_iff.mp (hk.trans (Nat.mod_modEq _ _))
    exact ⟨h₁.trans ha, h₂.trans hs⟩
  · rintro ⟨h₁, h₂⟩
    exact (modEq_lcm_iff.mpr ⟨h₁.trans ha.symm, h₂.trans hs.symm⟩).trans (Nat.mod_modEq _ _).symm

theorem combineCongruences_some {limit a b m n x M : ℕ} (hm : 0 < m) (hn : 0 < n)
    (h : combineCongruences limit (a, m) (b, n) = some (x, M)) :
    0 < M ∧ ∀ k, k ≡ x [MOD M] ↔ k ≡ a [MOD m] ∧ k ≡ b [MOD n] := by
  have hg : 0 < Nat.gcd m n := Nat.gcd_pos_of_pos_left n hm
  have hred : 0 < n / Nat.gcd m n := Nat.div_pos (Nat.gcd_le_right m hn) hg
  have hM : 0 < m / Nat.gcd m n * n := Nat.mul_pos (Nat.div_pos (Nat.gcd_le_left n hm) hg) hn
  have hfinish : ∀ s, a + m * s ≡ b [MOD n] →
      (if (a + m * s) % (m / Nat.gcd m n * n) ≤ limit ∧ m / Nat.gcd m n * n ≤ limit then
        some ((a + m * s) % (m / Nat.gcd m n * n), m / Nat.gcd m n * n) else none) = some (x, M) →
      0 < M ∧ ∀ k, k ≡ x [MOD M] ↔ k ≡ a [MOD m] ∧ k ≡ b [MOD n] := by
    intro s hs h
    simp only [Option.ite_none_right_eq_some, Option.some.injEq, Prod.mk.injEq] at h
    obtain ⟨-, rfl, rfl⟩ := h
    exact ⟨hM, modEq_combined_iff hs⟩
  unfold combineCongruences at h
  simp only at h
  split_ifs at h with hm₁ hn₁ hd hr
  · simp only [Option.some.injEq, Prod.mk.injEq] at h
    obtain ⟨rfl, rfl⟩ := h
    refine ⟨hn, fun k => ?_⟩
    rw [hm₁]
    exact ⟨fun hk => ⟨Nat.modEq_one, hk.trans (Nat.mod_modEq _ _)⟩,
      fun hk => hk.2.trans (Nat.mod_modEq _ _).symm⟩
  · simp only [Option.some.injEq, Prod.mk.injEq] at h
    obtain ⟨rfl, rfl⟩ := h
    refine ⟨hm, fun k => ?_⟩
    rw [hn₁]
    exact ⟨fun hk => ⟨hk.trans (Nat.mod_modEq _ _), Nat.modEq_one⟩,
      fun hk => hk.1.trans (Nat.mod_modEq _ _).symm⟩
  · -- the right modulus divides the left one
    refine hfinish 0 (combine_step hm ?_ (not_not.mp hd)) h
    rw [hr]
    exact Int.modEq_one
  · obtain ⟨i, hi, h⟩ := Option.bind_eq_some_iff.mp h
    refine hfinish _ (combine_step hm ?_ (not_not.mp hd)) h
    have hinv : m / Nat.gcd m n * i ≡ 1 [MOD n / Nat.gcd m n] :=
      ((Nat.mod_modEq _ _).mul_right i).symm.trans (modInverse_sound hred hi)
    have hnat := (mul_modEq_iff_of_inverse hinv).mpr (Nat.mod_modEq
      ((((b : ℤ) - a) / Nat.gcd m n % (n / Nat.gcd m n : ℕ)).toNat * i) (n / Nat.gcd m n))
    have hcast : ((((b : ℤ) - a) / Nat.gcd m n % (n / Nat.gcd m n : ℕ)).toNat : ℤ) =
        ((b : ℤ) - a) / Nat.gcd m n % (n / Nat.gcd m n : ℕ) :=
      Int.toNat_of_nonneg (Int.emod_nonneg _ (Int.natCast_ne_zero.mpr hred.ne'))
    have hint := Int.natCast_modEq_iff.mpr hnat
    rw [Nat.cast_mul, hcast] at hint
    exact hint.trans (Int.mod_modEq _ _)

theorem combineCongruences_none {limit a b m n : ℕ} (hm : 0 < m) (hn : 0 < n)
    (hlimit : Nat.lcm m n ≤ limit) (h : combineCongruences limit (a, m) (b, n) = none) {k : ℕ}
    (ha : k ≡ a [MOD m]) : ¬ k ≡ b [MOD n] := by
  intro hb
  have hg : 0 < Nat.gcd m n := Nat.gcd_pos_of_pos_left n hm
  have hM : 0 < m / Nat.gcd m n * n :=
    Nat.mul_pos (Nat.div_pos (Nat.gcd_le_left n hm) hg) hn
  have hdiff : ((b : ℤ) - a) % Nat.gcd m n = 0 := by
    have hab := (ha.symm.of_dvd (Nat.gcd_dvd_left m n)).trans (hb.of_dvd (Nat.gcd_dvd_right m n))
    exact Int.emod_eq_zero_of_dvd (Nat.modEq_iff_dvd.mp hab)
  have hfits : ∀ s, ¬ ((if (a + m * s) % (m / Nat.gcd m n * n) ≤ limit ∧ m / Nat.gcd m n * n ≤ limit then
      some ((a + m * s) % (m / Nat.gcd m n * n), m / Nat.gcd m n * n) else none) = none) := by
    intro s
    have hlt := Nat.mod_lt (a + m * s) hM
    rw [div_gcd_mul_eq_lcm] at hlt ⊢
    rw [if_pos ⟨by omega, hlimit⟩]
    simp
  unfold combineCongruences at h
  simp only at h
  split_ifs at h with hm₁ hn₁ hd hr
  · exact hd hdiff
  · exact hfits 0 h
  · have hco : Nat.Coprime (m / Nat.gcd m n % (n / Nat.gcd m n)) (n / Nat.gcd m n) := by
      rw [Nat.Coprime, ← Nat.gcd_rec, Nat.gcd_comm]
      exact Nat.coprime_div_gcd_div_gcd hg
    obtain ⟨i, hi⟩ := modInverse_complete hco
    rw [hi] at h
    exact hfits _ h

end Foundation.Congruence
