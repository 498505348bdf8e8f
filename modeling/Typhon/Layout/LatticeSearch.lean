import Typhon.Layout.Constraints

/-! The size search over one dimension: the candidates that complete a member of it, and the members of the lattice in
halves, the largest first. What a search returns is the largest member that can be completed. -/

namespace Typhon.Layout
open Foundation LegalDimensionLattice

variable {ε : Type} {l : LegalDimensionLattice}

/-! ### The candidates -/

theorem nextCandidate_contains {goUp : ℕ → Bool} {candidate next : ℕ}
    (h : nextCandidate l goUp candidate = some next) : l.contains next = true := by
  unfold nextCandidate at h
  split_ifs at h
  · exact (alignUp_eq_some h).1
  · exact (alignDown_eq_some h).1

theorem candidateLoop_sound {lower upper : ℕ} {legal goUp : ℕ → Bool} {fuel candidate v : ℕ}
    (hc : l.contains candidate = true)
    (h : (candidateLoop l lower upper legal goUp fuel candidate : Run ε _) = .ok (some v)) :
    l.contains v = true ∧ legal v = true := by
  induction fuel generalizing candidate with
  | zero => cases h
  | succ fuel ih =>
    rw [candidateLoop] at h
    split_ifs at h with h₁ h₂
    · cases h
    · cases h
      exact ⟨hc, h₂⟩
    · cases hnext : nextCandidate l goUp candidate with
      | none => simp [hnext] at h
      | some next =>
        simp only [hnext] at h
        split_ifs at h
        · cases h
        · exact ih (nextCandidate_contains hnext) h

theorem largestFrom_sound {lower upper v : ℕ} {legal goUp : ℕ → Bool}
    (h : (largestFrom l lower upper legal goUp : Run ε _) = .ok (some v)) :
    l.contains v = true ∧ legal v = true := by
  unfold largestFrom at h
  split at h
  · cases h
  · rename_i candidate hc
    exact candidateLoop_sound (alignDown_eq_some hc).1 h

/-! ### The members of a lattice by index -/

theorem valueAt_contains {index v : ℕ} (h : l.valueAt index = some v) : l.contains v = true := by
  obtain ⟨first, hfirst, h⟩ := Option.bind_eq_some_iff.mp h
  simp only [Option.ite_none_right_eq_some, Option.some.injEq] at h
  obtain ⟨-, hle, rfl⟩ := h
  obtain ⟨hmem, -⟩ := alignUp_eq_some hfirst
  obtain ⟨hlow, -, k, rfl⟩ := contains_iff.mp hmem
  exact contains_iff.mpr ⟨by omega, hle, k + index, by ring⟩

theorem valueAt_of_lt {index : ℕ} (h : index < l.cardinality) : ∃ v, l.valueAt index = some v := by
  unfold cardinality at h
  cases hf : l.first with
  | none => simp [hf] at h
  | some first =>
    simp only [hf] at h
    have hle : index * l.step ≤ l.upper - first :=
      (Nat.le_div_iff_mul_le l.step_pos).mp (Nat.lt_succ_iff.mp h)
    obtain ⟨hmem, -⟩ := alignUp_eq_some hf
    have hfirst := (contains_iff.mp hmem).2.1
    have := l.upper_le
    refine ⟨first + index * l.step, ?_⟩
    simp only [valueAt, hf, Option.bind_eq_bind, Option.bind_some]
    rw [if_pos ⟨by omega, by omega⟩, if_pos (by omega)]

theorem valueAt_mono {i j a b : ℕ} (hij : i ≤ j) (ha : l.valueAt i = some a) (hb : l.valueAt j = some b) :
    a ≤ b := by
  cases hf : l.first with
  | none => simp [valueAt, hf] at ha
  | some first =>
    simp only [valueAt, hf, Option.bind_eq_bind, Option.bind_some, Option.ite_none_right_eq_some,
      Option.some.injEq] at ha hb
    rw [← ha.2.2, ← hb.2.2]
    exact Nat.add_le_add_left (Nat.mul_le_mul_right _ hij) _

theorem exists_valueAt {v : ℕ} (h : l.contains v = true) :
    ∃ index, index < l.cardinality ∧ l.valueAt index = some v := by
  cases hf : l.first with
  | none =>
    have := alignUp_eq_none hf h
    have := (contains_iff.mp h).1
    omega
  | some first =>
    obtain ⟨hmem, -, hleast⟩ := alignUp_eq_some hf
    obtain ⟨hlow, hup, k, rfl⟩ := contains_iff.mp h
    obtain ⟨-, -, k₀, hk₀⟩ := contains_iff.mp hmem
    have hle := hleast _ h hlow
    have hk : k₀ ≤ k := by
      rw [hk₀] at hle
      exact Nat.le_of_mul_le_mul_right (by omega) l.step_pos
    have heq : first + (k - k₀) * l.step = l.anchor + k * l.step := by
      rw [hk₀, Nat.sub_mul]
      have := Nat.mul_le_mul_right l.step hk
      omega
    have := l.upper_le
    refine ⟨k - k₀, ?_, ?_⟩
    · rw [cardinality, hf]
      refine Nat.lt_succ_iff.mpr ((Nat.le_div_iff_mul_le l.step_pos).mpr ?_)
      omega
    · simp only [valueAt, hf, Option.bind_eq_bind, Option.bind_some]
      rw [if_pos ⟨by omega, by omega⟩, if_pos (by omega), heq]

theorem LegalDimensionLattice.cardinality_le (l : LegalDimensionLattice) : l.cardinality ≤ 4294967296 := by
  unfold cardinality
  have := l.upper_le
  split
  · omega
  · rename_i first _
    have := Nat.div_le_self (l.upper - first) l.step
    omega

theorem exists_ends {v : ℕ} (hv : l.contains v = true) :
    0 < l.cardinality ∧ ∃ low high, l.valueAt 0 = some low ∧ l.valueAt (l.cardinality - 1) = some high ∧
      l.contains low = true ∧ l.contains high = true ∧ ∀ v', l.contains v' = true → low ≤ v' ∧ v' ≤ high := by
  obtain ⟨i, hi, -⟩ := exists_valueAt hv
  have hcard : 0 < l.cardinality := Nat.zero_lt_of_lt hi
  obtain ⟨low, hlow⟩ := valueAt_of_lt hcard
  obtain ⟨high, hhigh⟩ := valueAt_of_lt (Nat.sub_lt hcard one_pos)
  refine ⟨hcard, low, high, hlow, hhigh, valueAt_contains hlow, valueAt_contains hhigh, fun v' hv' => ?_⟩
  obtain ⟨j, hj, hjv⟩ := exists_valueAt hv'
  exact ⟨valueAt_mono (Nat.zero_le j) hlow hjv,
    valueAt_mono (Nat.le_sub_one_of_lt hj) hjv hhigh⟩

theorem upper_of_last (h : l.contains 4294967295 = true) : l.upper = 4294967295 := by
  have := (contains_iff.mp h).2.1
  have := l.upper_le
  omega

/-! ### The search over a lattice -/

section Search
variable {canIntersect : ℕ → ℕ → Bool} {largest : ℕ → Run ε (Option ℕ)} {Q : ℕ → Prop}

def Answers (l : LegalDimensionLattice) (largest : ℕ → Run ε (Option ℕ)) (Q : ℕ → Prop) (first last : ℕ) :
    Option (ℕ × ℕ) → Prop
  | none => ∀ i v, first ≤ i → i ≤ last → l.valueAt i = some v → ¬Q v
  | some (v, other) => largest v = .ok (some other) ∧ (∃ j, first ≤ j ∧ l.valueAt j = some v) ∧
      ∀ i v', first ≤ i → i ≤ last → l.valueAt i = some v' → Q v' → v' ≤ v

section Answers
variable (hnone : ∀ v, l.contains v = true → largest v = .ok none → ¬Q v)
include hnone

theorem scanLattice_answers {first count : ℕ} {r : Option (ℕ × ℕ)} (hcount : first + count < l.cardinality)
    (h : scanLattice l largest first (count + 1) = .ok r) : Answers l largest Q first (first + count) r := by
  obtain ⟨v, hv⟩ := valueAt_of_lt hcount
  rw [scanLattice, hv] at h
  obtain ⟨found, hfound, h⟩ := Run.bind_eq_ok.mp h
  cases found with
  | some other =>
    cases h
    exact ⟨hfound, ⟨_, Nat.le_add_right _ _, hv⟩, fun i v' _ h₂ hv' _ => valueAt_mono h₂ hv' hv⟩
  | none =>
    -- the last index leads nowhere
    have hbefore : ∀ i v', i ≤ first + count → l.valueAt i = some v' → Q v' → i < first + count := by
      intro i v' hi hv' hq
      by_contra hlast
      obtain rfl : i = first + count := by omega
      cases hv.symm.trans hv'
      exact hnone v (valueAt_contains hv) hfound hq
    cases count with
    | zero =>
      cases h
      exact fun i v' h₁ h₂ hv' hq => absurd (hbefore i v' h₂ hv' hq) (by omega)
    | succ count =>
      have hrest := scanLattice_answers (by omega) h
      have hle := fun i v' h₂ hv' hq => Nat.lt_succ_iff.mp (hbefore i v' h₂ hv' hq)
      cases r with
      | none => exact fun i v' h₁ h₂ hv' hq => hrest i v' h₁ (hle i v' h₂ hv' hq) hv' hq
      | some pair =>
        exact ⟨hrest.1, hrest.2.1, fun i v' h₁ h₂ hv' hq => hrest.2.2 i v' h₁ (hle i v' h₂ hv' hq) hv' hq⟩

variable (hcan : ∀ low high, l.contains low = true → canIntersect low high = false →
  ∀ v, l.contains v = true → low ≤ v → v ≤ high → ¬ Q v)
include hcan

theorem searchLattice_answers {levels first last : ℕ} {r : Option (ℕ × ℕ)} (hlast : last < l.cardinality)
    (h : searchLattice l canIntersect largest levels first last = .ok r) : Answers l largest Q first last r := by
  induction levels generalizing first last r with
  | zero => simp [searchLattice, Run.diverge] at h
  | succ levels ih =>
    rw [searchLattice] at h
    by_cases hlt : last < first
    · rw [if_pos hlt] at h
      cases h
      exact fun i v h₁ h₂ => absurd (h₁.trans h₂) (Nat.not_le.mpr hlt)
    rw [if_neg hlt] at h
    obtain ⟨high, hhigh⟩ := valueAt_of_lt hlast
    obtain ⟨low, hlow⟩ := valueAt_of_lt (show first < l.cardinality by omega)
    simp only [hhigh, hlow] at h
    cases hint : canIntersect low high with
    | false =>
      rw [hint, Bool.not_false, if_pos rfl] at h
      cases h
      exact fun i v h₁ h₂ hv => hcan low high (valueAt_contains hlow) hint v (valueAt_contains hv)
        (valueAt_mono h₁ hlow hv) (valueAt_mono h₂ hv hhigh)
    | true =>
      rw [hint, Bool.not_true, if_neg Bool.false_ne_true] at h
      obtain ⟨found, hfound, h⟩ := Run.bind_eq_ok.mp h
      cases found with
      | some other =>
        cases h
        exact ⟨hfound, ⟨last, Nat.not_lt.mp hlt, hhigh⟩, fun i v _ h₂ hv _ => valueAt_mono h₂ hv hhigh⟩
      | none =>
        dsimp only at h
        by_cases heq : first = last
        · rw [if_pos heq] at h
          cases h
          intro i v h₁ h₂ hv hq
          obtain rfl : i = last := by omega
          cases hhigh.symm.trans hv
          exact hnone high (valueAt_contains hhigh) hfound hq
        rw [if_neg heq] at h
        by_cases hdirect : last - first + 1 ≤ directLatticeCandidates
        · rw [if_pos hdirect] at h
          have hscan := scanLattice_answers hnone (by omega) h
          rwa [Nat.add_sub_cancel' (by omega : first ≤ last)] at hscan
        · rw [if_neg hdirect] at h
          -- the upper half comes first: what it finds exceeds all of the lower one
          obtain ⟨upper, hupper, h⟩ := Run.bind_eq_ok.mp h
          have habove := ih hlast hupper
          cases upper with
          | some pair =>
            cases h
            obtain ⟨hcompleted, ⟨j, hj, hpair⟩, hgreatest⟩ := habove
            refine ⟨hcompleted, ⟨j, by omega, hpair⟩, fun i v h₁ h₂ hv hq => ?_⟩
            by_cases hi : first + (last - first) / 2 + 1 ≤ i
            · exact hgreatest i v hi h₂ hv hq
            · exact valueAt_mono (by omega) hv hpair
          | none =>
            have hbelow := ih (by omega) h
            have hhalf : ∀ i v, i ≤ last → l.valueAt i = some v → Q v → i ≤ first + (last - first) / 2 := by
              intro i v hi hv hq
              by_contra hover
              exact habove i v (by omega) hi hv hq
            cases r with
            | none => exact fun i v h₁ h₂ hv hq => hbelow i v h₁ (hhalf i v h₂ hv hq) hv hq
            | some pair =>
              exact ⟨hbelow.1, hbelow.2.1, fun i v h₁ h₂ hv hq => hbelow.2.2 i v h₁ (hhalf i v h₂ hv hq) hv hq⟩

theorem searchLattice_all_answers {r : Option (ℕ × ℕ)}
    (h : searchLattice l canIntersect largest 64 0 (l.cardinality - 1) = .ok r) :
    (r = none → ∀ v, l.contains v = true → ¬Q v) ∧
      ∀ v other, r = some (v, other) → largest v = .ok (some other) ∧ l.contains v = true ∧
        ∀ v', l.contains v' = true → Q v' → v' ≤ v := by
  by_cases hcard : l.cardinality = 0
  · -- without members the search ends at the first lookup
    have hempty : ∀ v, ¬l.contains v = true := fun v hv => by
      obtain ⟨i, hi, -⟩ := exists_valueAt hv
      omega
    have hvalue : l.valueAt 0 = none := Option.eq_none_iff_forall_ne_some.mpr fun v hv => hempty v (valueAt_contains hv)
    rw [searchLattice, hcard, if_neg (Nat.not_lt_zero _), hvalue] at h
    cases h
    refine ⟨fun _ v hv => absurd hv (hempty v), ?_⟩
    rintro v other ⟨⟩
  have hanswers := searchLattice_answers hnone hcan (Nat.sub_lt (Nat.pos_of_ne_zero hcard) one_pos) h
  cases r with
  | none =>
    refine ⟨fun _ v hv hq => ?_, ?_⟩
    · obtain ⟨i, hi, hiv⟩ := exists_valueAt hv
      exact hanswers i v (Nat.zero_le i) (Nat.le_sub_one_of_lt hi) hiv hq
    · rintro v other ⟨⟩
  | some pair =>
    obtain ⟨hcompleted, ⟨j, -, hj⟩, hgreatest⟩ := hanswers
    refine ⟨fun hsome => absurd hsome (Option.some_ne_none _), ?_⟩
    rintro v other ⟨⟩
    refine ⟨hcompleted, valueAt_contains hj, fun v' hv' hq => ?_⟩
    obtain ⟨i, hi, hiv⟩ := exists_valueAt hv'
    exact hgreatest i v' (Nat.zero_le i) (Nat.le_sub_one_of_lt hi) hiv hq

end Answers

theorem searchLattice_completes {pair : ℕ × ℕ}
    (h : searchLattice l canIntersect largest 64 0 (l.cardinality - 1) = .ok (some pair)) :
    largest pair.1 = .ok (some pair.2) ∧ l.contains pair.1 = true := by
  obtain ⟨-, hsome⟩ := searchLattice_all_answers (Q := fun _ => False) (fun _ _ _ => id) (fun _ _ _ _ _ _ _ _ => id) h
  obtain ⟨hcompleted, hmem, -⟩ := hsome _ _ rfl
  exact ⟨hcompleted, hmem⟩

section Returns
variable (h : ∀ v, l.contains v = true → ∃ r, largest v = .ok r)
include h

theorem scanLattice_returns (first count : ℕ) : ∃ r, scanLattice l largest first count = .ok r := by
  induction count with
  | zero => exact ⟨none, rfl⟩
  | succ count ih =>
    rw [scanLattice]
    cases hvalue : l.valueAt (first + count) with
    | none => exact ⟨none, rfl⟩
    | some value =>
      obtain ⟨found, hfound⟩ := h value (valueAt_contains hvalue)
      dsimp only
      rw [hfound, Run.ok_bind]
      cases found with
      | some other => exact ⟨_, rfl⟩
      | none => exact ih

theorem searchLattice_round {levels first last : ℕ} (hhalves : directLatticeCandidates < last - first + 1 →
      (∃ r, searchLattice l canIntersect largest levels (first + (last - first) / 2 + 1) last = .ok r) ∧
      ∃ r, searchLattice l canIntersect largest levels first (first + (last - first) / 2) = .ok r) :
    ∃ r, searchLattice l canIntersect largest (levels + 1) first last = .ok r := by
  rw [searchLattice]
  by_cases hempty : last < first
  · rw [if_pos hempty]
    exact ⟨none, rfl⟩
  rw [if_neg hempty]
  split
  · rename_i high low hhigh hlow
    split
    · exact ⟨none, rfl⟩
    obtain ⟨found, hfound⟩ := h high (valueAt_contains hhigh)
    rw [hfound, Run.ok_bind]
    cases found with
    | some other => exact ⟨_, rfl⟩
    | none =>
      dsimp only
      split
      · exact ⟨none, rfl⟩
      split
      · exact scanLattice_returns h _ _
      · rename_i hdirect
        obtain ⟨⟨above, habove⟩, hbelow⟩ := hhalves (Nat.lt_of_not_le hdirect)
        rw [habove, Run.ok_bind]
        cases above with
        | some pair => exact ⟨_, rfl⟩
        | none => exact hbelow
  · exact ⟨none, rfl⟩

theorem searchLattice_returns {levels first last : ℕ}
    (hlevels : last - first + 1 ≤ directLatticeCandidates * 2 ^ levels) :
    ∃ r, searchLattice l canIntersect largest (levels + 1) first last = .ok r := by
  induction levels generalizing first last with
  | zero => exact searchLattice_round h fun hlong => absurd hlevels (by omega)
  | succ levels ih =>
    rw [pow_succ, ← mul_assoc] at hlevels
    refine searchLattice_round h fun hlong => ?_
    have hsize : 100000 < last - first + 1 := hlong
    exact ⟨ih (by omega), ih (by omega)⟩

theorem searchLattice_all_returns : ∃ r, searchLattice l canIntersect largest 64 0 (l.cardinality - 1) = .ok r := by
  have hcard := l.cardinality_le
  have hlevels : l.cardinality - 1 - 0 + 1 ≤ directLatticeCandidates * 2 ^ 63 :=
    (show _ ≤ 4294967296 by omega).trans (by decide)
  exact searchLattice_returns h hlevels

end Returns

theorem searchLattice_settles (hlargest : ∀ v, l.contains v = true → Run.Finds (largest v) (Q v))
    (hcan : ∀ low high, l.contains low = true → canIntersect low high = false →
      ∀ v, l.contains v = true → low ≤ v → v ≤ high → ¬ Q v) :
    ∃ r, searchLattice l canIntersect largest 64 0 (l.cardinality - 1) = .ok r ∧
      (r = none → ∀ v, l.contains v = true → ¬Q v) ∧
      ∀ v other, r = some (v, other) → largest v = .ok (some other) ∧ l.contains v = true ∧
        ∀ v', l.contains v' = true → Q v' → v' ≤ v := by
  obtain ⟨r, hr⟩ := searchLattice_all_returns fun v hv => (hlargest v hv).imp fun r hfound => hfound.1
  refine ⟨r, hr, searchLattice_all_answers (fun v hv hnone hq => ?_) hcan hr⟩
  obtain ⟨found, hfound, hQ⟩ := hlargest v hv
  cases hnone.symm.trans hfound
  exact absurd (hQ.mpr hq) Bool.false_ne_true

theorem searchLattice_all_eq {low high : ℕ} (hlow : l.valueAt 0 = some low)
    (hhigh : l.valueAt (l.cardinality - 1) = some high) : (canIntersect low high = false →
      searchLattice l canIntersect largest 64 0 (l.cardinality - 1) = .ok none) ∧
    (canIntersect low high = true → largest high = Run.diverge →
      searchLattice l canIntersect largest 64 0 (l.cardinality - 1) = Run.diverge) ∧
    (∀ other, canIntersect low high = true → largest high = .ok (some other) →
      searchLattice l canIntersect largest 64 0 (l.cardinality - 1) = .ok (some (high, other))) := by
  rw [searchLattice, if_neg (Nat.not_lt_zero _), hhigh, hlow]
  dsimp only
  refine ⟨fun hcan => ?_, fun hcan hlargest => ?_, fun other hcan hlargest => ?_⟩
  · rw [hcan]
    rfl
  · rw [hcan, hlargest]
    rfl
  · rw [hcan, hlargest]
    rfl

end Search

/-! ### Two dimensions -/

/-- A member `v` of the one dimension can be too large (`above`) or too small (`below`) for a member `o` of the other;
`largest` searches its largest legal completion, and `canIntersect` compares an interval with the ends of the other
dimension. -/
structure Balanced (outer inner : LegalDimensionLattice) (canIntersect : ℕ → ℕ → Bool)
    (largest : ℕ → Run ε (Option ℕ)) (legal above below : ℕ → ℕ → Prop) : Prop where
  legal_iff : ∀ v o, legal v o ↔ ¬above v o ∧ ¬below v o
  above_mono : ∀ {v v' o o'}, v ≤ v' → o' ≤ o → outer.lower ≤ v → inner.lower ≤ o' → above v o → above v' o'
  below_mono : ∀ {v v' o o'}, v' ≤ v → o ≤ o' → outer.lower ≤ v' → inner.lower ≤ o → below v o → below v' o'
  can_iff : ∀ low high, canIntersect low high = true ↔ ¬above low inner.upper ∧ ¬below high inner.lower
  finds : ∀ v, outer.contains v = true → ¬(inner.contains 4294967295 = true ∧ above v 4294967295) →
    Run.Finds (largest v) (∃ o, inner.contains o = true ∧ legal v o)
  greatest : ∀ v o, outer.contains v = true → largest v = .ok (some o) → (inner.contains o = true ∧ legal v o) ∧
    ∀ o', inner.contains o' = true → legal v o' → o' ≤ o

namespace Balanced
variable {outer inner : LegalDimensionLattice} {canIntersect : ℕ → ℕ → Bool} {largest : ℕ → Run ε (Option ℕ)}
  {legal above below : ℕ → ℕ → Prop} (h : Balanced outer inner canIntersect largest legal above below)
include h

theorem settles (hends : ¬(inner.contains 4294967295 = true ∧ (∃ v, outer.contains v = true ∧ ¬above v 4294967295) ∧
      ∃ v, outer.contains v = true ∧ above v 4294967295)) :
    ∃ r, searchLattice outer canIntersect largest 64 0 (outer.cardinality - 1) = .ok r ∧
      (r = none → ∀ v o, outer.contains v = true → inner.contains o = true → ¬legal v o) ∧
      ∀ v o, r = some (v, o) → (outer.contains v = true ∧ inner.contains o = true ∧ legal v o) ∧
        ∀ v' o', outer.contains v' = true → inner.contains o' = true → legal v' o' → v' ≤ v ∧ o' ≤ o := by
  by_cases hbad : inner.contains 4294967295 = true ∧ ∃ v, outer.contains v = true ∧ above v 4294967295
  · -- every member is too large for the largest completion
    obtain ⟨hlast, v, hv, habove⟩ := hbad
    have hall : ∀ v, outer.contains v = true → above v 4294967295 := by
      intro v' hv'
      by_contra hnot
      exact hends ⟨hlast, ⟨v', hv', hnot⟩, v, hv, habove⟩
    obtain ⟨-, low, high, hlow, hhigh, hlowMem, -⟩ := exists_ends hv
    refine ⟨none, (searchLattice_all_eq hlow hhigh).1 ?_, fun _ v' o hv' ho hlegal => ?_, ?_⟩
    · rw [← Bool.not_eq_true, h.can_iff, upper_of_last hlast]
      exact fun hcan => hcan.1 (hall low hlowMem)
    · obtain ⟨holow, hohigh, -⟩ := contains_iff.mp ho
      exact ((h.legal_iff v' o).mp hlegal).1
        (h.above_mono le_rfl (hohigh.trans inner.upper_le) (contains_iff.mp hv').1 holow (hall v' hv'))
    · rintro v o ⟨⟩
  have hcan : ∀ low high, outer.contains low = true → canIntersect low high = false →
      ∀ v, outer.contains v = true → low ≤ v → v ≤ high → ¬∃ o, inner.contains o = true ∧ legal v o := by
    rintro low high hlowMem hcan v hv hlow hhigh ⟨o, ho, hlegal⟩
    obtain ⟨holow, hohigh, -⟩ := contains_iff.mp ho
    obtain ⟨habove, hbelow⟩ := (h.legal_iff v o).mp hlegal
    refine absurd ((h.can_iff low high).mpr ⟨fun hout => habove ?_, fun hout => hbelow ?_⟩) (Bool.not_eq_true _ ▸ hcan)
    · exact h.above_mono hlow hohigh (contains_iff.mp hlowMem).1 holow hout
    · exact h.below_mono hhigh holow (contains_iff.mp hv).1 le_rfl hout
  obtain ⟨r, hr, hnone, hsome⟩ :=
    searchLattice_settles (fun v hv => h.finds v hv fun habove => hbad ⟨habove.1, v, hv, habove.2⟩) hcan
  refine ⟨r, hr, fun hr v o hv ho hlegal => hnone hr v hv ⟨o, ho, hlegal⟩, fun v o hr => ?_⟩
  obtain ⟨hcompleted, hmem, hgreatest⟩ := hsome v o hr
  obtain ⟨⟨ho, hlegal⟩, hlargest⟩ := h.greatest v o hmem hcompleted
  refine ⟨⟨hmem, ho, hlegal⟩, fun v' o' hv' ho' hlegal' => ?_⟩
  have hle := hgreatest v' hv' ⟨o', ho', hlegal'⟩
  have hv'low := (contains_iff.mp hv').1
  have holow := (contains_iff.mp ho).1
  refine ⟨hle, Nat.le_of_not_lt fun hlt => ?_⟩
  -- the larger member is legal with the larger completion
  refine absurd (hlargest o' ho' ((h.legal_iff v o').mpr ⟨fun habove => ?_, fun hbelow => ?_⟩)) (Nat.not_le.mpr hlt)
  · exact ((h.legal_iff v o).mp hlegal).1 (h.above_mono le_rfl hlt.le (hv'low.trans hle) holow habove)
  · exact ((h.legal_iff v' o').mp hlegal').2 (h.below_mono hle le_rfl hv'low (holow.trans hlt.le) hbelow)

theorem endless (hlast : inner.contains 4294967295 = true) {v v' : ℕ} (hv : outer.contains v = true)
    (hfits : ¬above v 4294967295) (hv' : outer.contains v' = true) (habove : above v' 4294967295)
    (hlargest : ∀ v, outer.contains v = true → above v 4294967295 → largest v = Run.diverge)
    (hexclusive : ∀ v o, above v o → ¬below v o) :
    searchLattice outer canIntersect largest 64 0 (outer.cardinality - 1) = Run.diverge := by
  obtain ⟨-, low, high, hlow, hhigh, hlowMem, hhighMem, hends⟩ := exists_ends hv
  have hword := (contains_iff.mp hlast).1
  have hhighAbove : above high 4294967295 :=
    h.above_mono (hends v' hv').2 le_rfl (contains_iff.mp hv').1 hword habove
  refine (searchLattice_all_eq hlow hhigh).2.1 ((h.can_iff low high).mpr ⟨fun hout => ?_, ?_⟩)
    (hlargest high hhighMem hhighAbove)
  · rw [upper_of_last hlast] at hout
    exact hfits (h.above_mono (hends v hv).1 le_rfl (contains_iff.mp hlowMem).1 hword hout)
  · exact hexclusive _ _ (h.above_mono le_rfl hword (contains_iff.mp hhighMem).1 le_rfl hhighAbove)

end Balanced

end Typhon.Layout
