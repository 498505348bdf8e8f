import Typhon.Foundation.Extended
import Typhon.Layout.GreatestSize

/-! The size search on all constraints that pass validation, sizes of zero included. It does not return from `u32::MAX`
when that is still too small, and not from the size zero by zero, whose aspect is not a number. -/

namespace Typhon.Layout
open Foundation LayoutConstraints LegalDimensionLattice

variable {ε : Type}

/-! ### The loop over the candidates of one dimension

When it returns, it met no candidate twice. -/

section Loop
variable {l : LegalDimensionLattice} {legal goUp : ℕ → Bool} {lower upper : ℕ}

def visited (l : LegalDimensionLattice) (lower upper : ℕ) (legal goUp : ℕ → Bool) : ℕ → ℕ → List ℕ
  | 0, _ => []
  | fuel + 1, candidate =>
    if candidate < lower ∨ legal candidate = true then [candidate]
    else
      match nextCandidate l goUp candidate with
      | none => [candidate]
      | some next =>
        if next < lower ∨ upper < next then [candidate] else candidate :: visited l lower upper legal goUp fuel next

theorem candidateLoop_cases (ε : Type) (fuel candidate : ℕ) :
    (visited l lower upper legal goUp (fuel + 1) candidate = [candidate] ∧
      ∀ fuel', visited l lower upper legal goUp (fuel' + 1) candidate = [candidate]) ∨
    ∃ next, (∀ fuel', (candidateLoop l lower upper legal goUp (fuel' + 1) candidate : Run ε _) =
        candidateLoop l lower upper legal goUp fuel' next) ∧
      ∀ fuel', visited l lower upper legal goUp (fuel' + 1) candidate =
        candidate :: visited l lower upper legal goUp fuel' next := by
  by_cases hend : candidate < lower ∨ legal candidate = true
  · exact .inl ⟨by rw [visited, if_pos hend], fun fuel' => by rw [visited, if_pos hend]⟩
  cases hnext : nextCandidate l goUp candidate with
  | none =>
    exact .inl ⟨by rw [visited, if_neg hend, hnext], fun fuel' => by rw [visited, if_neg hend, hnext]⟩
  | some next =>
    by_cases hout : next < lower ∨ upper < next
    · refine .inl ⟨?_, fun fuel' => ?_⟩ <;>
      · rw [visited, if_neg hend, hnext]
        exact if_pos hout
    · rw [not_or] at hend
      refine .inr ⟨next, fun fuel' => ?_, fun fuel' => ?_⟩
      · rw [candidateLoop, if_neg hend.1, if_neg hend.2, hnext]
        exact if_neg hout
      · rw [visited, if_neg (not_or.mpr hend), hnext]
        exact if_neg hout

variable {r : Option ℕ}

theorem visited_of_le {fuel fuel' candidate : ℕ} (hle : fuel ≤ fuel')
    (h : (candidateLoop l lower upper legal goUp fuel candidate : Run ε _) = .ok r) :
    visited l lower upper legal goUp fuel' candidate = visited l lower upper legal goUp fuel candidate := by
  induction fuel generalizing fuel' candidate with
  | zero => cases h
  | succ fuel ih =>
    obtain ⟨fuel', rfl⟩ : ∃ n, fuel' = n + 1 := ⟨fuel' - 1, by omega⟩
    rcases candidateLoop_cases ε fuel candidate with ⟨-, hend⟩ | ⟨next, hloop, hvisited⟩
    · rw [hend, hend]
    · rw [hvisited, hvisited, ih (Nat.le_of_succ_le_succ hle) ((hloop fuel).symm.trans h)]

theorem returns_of_mem_visited {fuel candidate c : ℕ}
    (h : (candidateLoop l lower upper legal goUp fuel candidate : Run ε _) = .ok r)
    (hc : c ∈ visited l lower upper legal goUp fuel candidate) :
    ∃ fuel' ≤ fuel, (candidateLoop l lower upper legal goUp fuel' c : Run ε _) = .ok r := by
  induction fuel generalizing candidate with
  | zero => cases h
  | succ fuel ih =>
    rcases candidateLoop_cases ε fuel candidate with ⟨hend, -⟩ | ⟨next, hloop, hvisited⟩
    · rw [hend, List.mem_singleton] at hc
      exact ⟨fuel + 1, le_refl _, hc ▸ h⟩
    · rw [hvisited] at hc
      rcases List.mem_cons.mp hc with rfl | hc
      · exact ⟨fuel + 1, le_refl _, h⟩
      · obtain ⟨fuel', hle, hreturns⟩ := ih ((hloop fuel).symm.trans h) hc
        exact ⟨fuel', hle.trans (Nat.le_succ _), hreturns⟩

theorem visited_nodup {fuel candidate : ℕ}
    (h : (candidateLoop l lower upper legal goUp fuel candidate : Run ε _) = .ok r) :
    (visited l lower upper legal goUp fuel candidate).Nodup := by
  induction fuel using Nat.strong_induction_on generalizing candidate with
  | h fuel ih =>
    cases fuel with
    | zero => cases h
    | succ fuel =>
      rcases candidateLoop_cases ε fuel candidate with ⟨hend, -⟩ | ⟨next, hloop, hvisited⟩
      · rw [hend]
        exact List.nodup_singleton _
      · have hnext := (hloop fuel).symm.trans h
        have htail := ih fuel (Nat.lt_succ_self _) hnext
        rw [hvisited]
        refine List.nodup_cons.mpr ⟨fun hmem => ?_, htail⟩
        obtain ⟨fuel', hle, hreturns⟩ := returns_of_mem_visited hnext hmem
        have hfewer := ih fuel' (Nat.lt_succ_of_le hle) hreturns
        rw [← visited_of_le (hle.trans (Nat.le_succ _)) hreturns, hvisited] at hfewer
        exact (List.nodup_cons.mp hfewer).1 hmem

/-- The loop ends after at most two candidates: the first one is never too small, unless it is `u32::MAX`, and a
step down leaves the range or is legal. -/
theorem largestFrom_returns
    (hup : ∀ c, l.contains c = true → lower ≤ c → c ≤ upper → ¬legal c = true → goUp c = true → c < 4294967295)
    (hdown : ∀ c n, l.contains c = true → lower ≤ c → c ≤ upper → ¬legal c = true → ¬goUp c = true →
      l.contains n = true → n ≤ c - 1 → n < lower ∨ legal n = true) :
    ∃ r, (largestFrom l lower upper legal goUp : Run ε (Option ℕ)) = .ok r ∧
      (lower = 0 → l.contains 0 = true → (∀ c, ¬goUp c = true) → r.isSome = true) := by
  unfold largestFrom
  cases hc : l.alignDown upper with
  | none =>
    refine ⟨none, rfl, fun _ hzero _ => ?_⟩
    exact absurd (alignDown_eq_none hc hzero) (Nat.not_lt_zero _)
  | some c =>
    obtain ⟨hmem, hle, hgreatest⟩ := alignDown_eq_some hc
    obtain ⟨fuel, hfuel⟩ : ∃ fuel, candidateFuel = fuel + 2 := ⟨4294967295, rfl⟩
    dsimp only
    rw [hfuel, candidateLoop]
    by_cases hout : c < lower
    · rw [if_pos hout]
      exact ⟨none, rfl, fun hlower _ _ => absurd hout (by omega)⟩
    rw [if_neg hout]
    by_cases hlegal : legal c = true
    · rw [if_pos hlegal]
      exact ⟨some c, rfl, fun _ _ _ => rfl⟩
    rw [if_neg hlegal, nextCandidate]
    have hlow : lower ≤ c := Nat.le_of_not_lt hout
    by_cases hgo : goUp c = true
    · have hlt := hup c hmem hlow hle hlegal hgo
      rw [if_pos hgo, min_eq_left (by omega)]
      refine ⟨none, ?_, fun _ _ hnot => absurd hgo (hnot c)⟩
      cases hn : l.alignUp (c + 1) with
      | none => rfl
      | some n =>
        obtain ⟨hnmem, hnle, -⟩ := alignUp_eq_some hn
        have hover : upper < n := by
          by_contra hcon
          have := hgreatest n hnmem (not_lt.mp hcon)
          omega
        dsimp only
        rw [if_pos (.inr hover)]
    · rw [if_neg hgo]
      cases hn : l.alignDown (c - 1) with
      | none =>
        refine ⟨none, rfl, fun _ hzero _ => ?_⟩
        exact absurd (alignDown_eq_none hn hzero) (Nat.not_lt_zero _)
      | some n =>
        obtain ⟨hnmem, hnle, -⟩ := alignDown_eq_some hn
        dsimp only
        rcases hdown c n hmem hlow hle hlegal hgo hnmem hnle with hbelow | hnlegal
        · rw [if_pos (.inl hbelow)]
          exact ⟨none, rfl, fun hlower _ _ => absurd hbelow (by omega)⟩
        · by_cases hbelow : n < lower
          · rw [if_pos (.inl hbelow)]
            exact ⟨none, rfl, fun hlower _ _ => absurd hbelow (by omega)⟩
          · rw [if_neg (by omega), candidateLoop, if_neg hbelow, if_pos hnlegal]
            exact ⟨some n, rfl, fun _ _ _ => rfl⟩

theorem candidateLoop_zero (hzero : l.contains 0 = true) (hlower : lower = 0) (hlegal : ¬legal 0 = true)
    (hgoUp : ¬goUp 0 = true) (fuel : ℕ) :
    (candidateLoop l lower upper legal goUp fuel 0 : Run ε _) = Run.diverge := by
  induction fuel with
  | zero => rfl
  | succ fuel ih =>
    have hnext : nextCandidate l goUp 0 = some 0 := by
      rw [nextCandidate, if_neg hgoUp]
      cases hn : l.alignDown (0 - 1) with
      | none => exact absurd (alignDown_eq_none hn hzero) (Nat.not_lt_zero _)
      | some n => exact congrArg some (Nat.le_zero.mp (alignDown_eq_some hn).2.1)
    rw [candidateLoop, if_neg (by omega), if_neg hlegal, hnext]
    dsimp only
    rw [if_neg (by omega)]
    exact ih

theorem largestFrom_zero (hzero : l.contains 0 = true) (hlower : lower = 0) (hupper : upper ≤ 1)
    (hlegal : ∀ c ≤ 1, ¬legal c = true) (hgoUp : ∀ c, ¬goUp c = true) :
    (largestFrom l lower upper legal goUp : Run ε _) = Run.diverge := by
  unfold largestFrom
  cases hc : l.alignDown upper with
  | none => exact absurd (alignDown_eq_none hc hzero) (Nat.not_lt_zero _)
  | some c =>
    obtain ⟨-, hle, -⟩ := alignDown_eq_some hc
    have hstuck : ∀ fuel, (candidateLoop l lower upper legal goUp fuel 0 : Run ε _) = Run.diverge :=
      candidateLoop_zero hzero hlower (hlegal 0 (by omega)) (hgoUp 0)
    obtain ⟨fuel, hfuel⟩ : ∃ fuel, candidateFuel = fuel + 1 := ⟨4294967296, rfl⟩
    dsimp only
    rcases Nat.eq_zero_or_pos c with rfl | hpos
    · exact hstuck _
    · have hnext : nextCandidate l goUp c = some 0 := by
        rw [nextCandidate, if_neg (hgoUp c)]
        cases hn : l.alignDown (c - 1) with
        | none => exact absurd (alignDown_eq_none hn hzero) (Nat.not_lt_zero _)
        | some n =>
          have := (alignDown_eq_some hn).2.1
          exact congrArg some (by omega)
      rw [hfuel, candidateLoop, if_neg (by omega), if_neg (hlegal c (by omega)), hnext]
      dsimp only
      rw [if_neg (by omega)]
      exact hstuck _

end Loop

/-! ### Aspects with a zero -/

def LayoutConstraints.extended (c : LayoutConstraints ℚ) : LayoutConstraints Extended :=
  { minWidth := c.minWidth
    minHeight := c.minHeight
    maxWidth := c.maxWidth
    maxHeight := c.maxHeight
    baseWidth := c.baseWidth
    baseHeight := c.baseHeight
    widthIncrement := c.widthIncrement
    heightIncrement := c.heightIncrement
    minAspect := c.minAspect.map .finite
    maxAspect := c.maxAspect.map .finite }

structure LayoutConstraints.Ordered (c : LayoutConstraints ℚ) : Prop extends c.AspectsPositive where
  ordered : ∀ a b, c.minAspect = some a → c.maxAspect = some b → a ≤ b

variable {c : LayoutConstraints ℚ}

theorem ordered_of_validate_extended (h : c.extended.validate = .ok ()) : c.Ordered := by
  have hpositive : ∀ aspect : Option ℚ, aspectInvalid (aspect.map Extended.finite) = false → ∀ a, aspect = some a →
    0 < a := by
    rintro _ hvalid a rfl
    simp only [aspectInvalid, Option.map_some, Option.any_some, Bool.or_eq_false_iff] at hvalid
    by_contra hle
    exact absurd ((Extended.le_finite a 0).mpr (not_lt.mp hle))
      (by rw [← Extended.ofRat_eq 0, hvalid.2]; exact Bool.false_ne_true)
  unfold validate at h
  split_ifs at h with h₁ h₂ h₃ h₄ h₅ h₆ h₇
  refine ⟨⟨hpositive _ (Bool.eq_false_iff.mpr h₅), hpositive _ (Bool.eq_false_iff.mpr h₆)⟩, fun a b ha hb => ?_⟩
  by_contra hlt
  refine h₇ ?_
  rw [extended, ha, hb]
  exact (Extended.lt_finite b a).mpr (not_le.mp hlt)

theorem aspectOf_pos (w : ℕ) {h : ℕ} (hh : 1 ≤ h) : (aspectOf w h : Extended) = .finite ((w : ℚ) / h) :=
  Extended.div_finite (Nat.cast_ne_zero.mpr (by omega))

theorem aspectOf_zero {w : ℕ} (hw : 1 ≤ w) : (aspectOf w 0 : Extended) = .infinite true := by
  unfold aspectOf
  rw [Extended.ofNat_eq, Extended.ofNat_eq, Nat.cast_zero]
  exact Extended.div_zero_pos (Nat.cast_pos.mpr hw)

theorem aspectOf_zero_zero : (aspectOf 0 0 : Extended) = .nan := by
  unfold aspectOf
  rw [Extended.ofNat_eq, Nat.cast_zero]
  exact Extended.zero_div_zero

section Extended
variable {c : LayoutConstraints ℚ} {w h v : ℕ}

theorem extended_legal_pos (hh : 1 ≤ h) : aspectIsLegal c.extended w h = aspectIsLegal c w h := by
  unfold aspectIsLegal extended
  rw [aspectOf_pos w hh]
  cases c.minAspect <;> cases c.maxAspect <;> rfl

theorem extended_legal_flat (hw : 1 ≤ w) : aspectIsLegal c.extended w 0 = c.maxAspect.isNone := by
  unfold aspectIsLegal extended
  rw [aspectOf_zero hw]
  cases c.minAspect <;> cases c.maxAspect <;> rfl

theorem extended_legal_nothing : aspectIsLegal c.extended 0 0 = (c.minAspect.isNone && c.maxAspect.isNone) := by
  unfold aspectIsLegal extended
  rw [aspectOf_zero_zero]
  cases c.minAspect <;> cases c.maxAspect <;> rfl

theorem extended_above_pos (hh : 1 ≤ h) : (c.extended.maxAspect.any fun max => Float64.lt max (aspectOf w h)) =
    c.maxAspect.any fun max => Float64.lt max (aspectOf w h) := by
  unfold extended
  rw [aspectOf_pos w hh]
  cases c.maxAspect <;> rfl

theorem extended_below_pos (hh : 1 ≤ h) : (c.extended.minAspect.any fun min => Float64.lt (aspectOf w h) min) =
    c.minAspect.any fun min => Float64.lt (aspectOf w h) min := by
  unfold extended
  rw [aspectOf_pos w hh]
  cases c.minAspect <;> rfl

theorem extended_below_flat : (c.extended.minAspect.any fun min => Float64.lt (aspectOf w 0) min) = false := by
  unfold extended
  rcases Nat.eq_zero_or_pos w with rfl | hw
  · rw [aspectOf_zero_zero]
    cases c.minAspect <;> rfl
  · rw [aspectOf_zero hw]
    cases c.minAspect <;> rfl

theorem clampDimension_finite (z : ℤ) : (clampDimension (Extended.finite z) : Run ε ℕ) = .ok (clampInt z) := by
  have hle : (1 : ℚ) ≤ 4294967295 := by norm_num
  have hcast : max (1 : ℚ) (min (z : ℚ) 4294967295) = ((max 1 (min z 4294967295) : ℤ) : ℚ) := by push_cast; rfl
  rw [clampDimension, Extended.ofRat_eq, Extended.ofNat_eq, Nat.cast_ofNat, Extended.clamp_finite hle, Run.ok_bind,
    hcast]
  have hint : Float64.toInt (Extended.finite ((max 1 (min z 4294967295) : ℤ) : ℚ)) = max 1 (min z 4294967295) := by
    change (if 0 ≤ (((max 1 (min z 4294967295) : ℤ)) : ℚ) then _ else _) = _
    split_ifs
    · exact Int.floor_intCast _
    · exact Int.ceil_intCast _
  simp only [Float64.asU32, hint, clampInt, Except.ok.injEq]
  omega

/-! ### Heights for a width -/

def lowestHeight (c : LayoutConstraints ℚ) (heights : LegalDimensionLattice) (w : ℕ) : ℕ :=
  match c.maxAspect with
  | none => heights.lower
  | some a => max heights.lower (clampInt ⌈(w : ℚ) / a⌉)

def highestHeight (c : LayoutConstraints ℚ) (heights : LegalDimensionLattice) (w : ℕ) : ℕ :=
  match c.minAspect with
  | none => heights.upper
  | some a => min heights.upper (clampInt ⌊(w : ℚ) / a⌋)

theorem extended_largestHeight (hc : c.AspectsPositive) (heights : LegalDimensionLattice) (w : ℕ) :
    (largestHeightForWidth c.extended heights w : Run ε (Option ℕ)) =
      largestFrom heights (lowestHeight c heights w) (highestHeight c heights w) (aspectIsLegal c.extended w)
        fun height => c.extended.maxAspect.any fun max => Float64.lt max (aspectOf w height) := by
  have hdiv : ∀ a : ℚ, 0 < a → Float64.div (Extended.finite w) (.finite a) = .finite ((w : ℚ) / a) :=
    fun a ha => Extended.div_finite ha.ne'
  have hceil : ∀ a : ℚ, 0 < a → (ceilAspectRatio w (Extended.finite a) : Run ε ℕ) = .ok (clampInt ⌈(w : ℚ) / a⌉) := by
    intro a ha
    rw [ceilAspectRatio, Extended.ofNat_eq, hdiv a ha]
    exact clampDimension_finite _
  have hfloor : ∀ a : ℚ, 0 < a → (floorAspectRatio w (Extended.finite a) : Run ε ℕ) = .ok (clampInt ⌊(w : ℚ) / a⌋) := by
    intro a ha
    rw [floorAspectRatio, Extended.ofNat_eq, hdiv a ha]
    exact clampDimension_finite _
  have hlower : tighten max heights.lower c.extended.maxAspect (ceilAspectRatio w) =
      (.ok (lowestHeight c heights w) : Run ε ℕ) := by
    unfold extended lowestHeight
    cases hmax : c.maxAspect with
    | none => rfl
    | some a => simp only [Option.map_some, tighten, hceil a (hc.max a hmax), Run.ok_bind]
  have hupper : tighten min heights.upper c.extended.minAspect (floorAspectRatio w) =
      (.ok (highestHeight c heights w) : Run ε ℕ) := by
    unfold extended highestHeight
    cases hmin : c.minAspect with
    | none => rfl
    | some a => simp only [Option.map_some, tighten, hfloor a (hc.min a hmin), Run.ok_bind]
  rw [largestHeightForWidth, hlower, Run.ok_bind, hupper, Run.ok_bind]

/-- The width is too large even for `u32::MAX`, or the only thing left is nothing by nothing. -/
def StuckHeight (c : LayoutConstraints ℚ) (heights : LegalDimensionLattice) (w : ℕ) : Prop :=
  (heights.contains 4294967295 = true ∧ ∃ a ∈ c.maxAspect, a * 4294967295 < (w : ℚ)) ∨
    (w = 0 ∧ heights.contains 0 = true ∧ c.maxAspect = none ∧ c.minAspect ≠ none)

theorem lt_ceil_iff {a : ℚ} (ha : 0 < a) : 4294967295 < ⌈(w : ℚ) / a⌉ ↔ a * 4294967295 < (w : ℚ) := by
  rw [Int.lt_ceil, lt_div_iff₀ ha, mul_comm]
  norm_cast

theorem one_le_clampInt (z : ℤ) : 1 ≤ clampInt z := by
  unfold clampInt
  omega

section height
variable {heights : LegalDimensionLattice} (hc : c.Ordered) (hstuck : ¬StuckHeight c heights w)
include hc hstuck

theorem height_up (hv : heights.contains v = true) (hlow : lowestHeight c heights w ≤ v)
    (hgo : (c.extended.maxAspect.any fun max => Float64.lt max (aspectOf w v)) = true) : v < 4294967295 := by
  have hword := (contains_iff.mp hv).2.1.trans heights.upper_le
  unfold lowestHeight at hlow
  cases hmax : c.maxAspect with
  | none =>
    rw [extended, hmax] at hgo
    cases hgo
  | some a =>
    rw [hmax] at hlow
    dsimp only at hlow
    have hone := one_le_clampInt ⌈(w : ℚ) / a⌉
    have hpos : 1 ≤ v := by omega
    rw [extended_above_pos hpos, goUp_height_iff hc.toAspectsPositive hpos, hmax] at hgo
    simp only [Option.map_some, Option.getD_some] at hgo
    have hlarge : 4294967295 < ⌈(w : ℚ) / a⌉ := by
      unfold clampInt at hlow
      omega
    by_contra hlast
    obtain rfl : v = 4294967295 := by omega
    exact hstuck (.inl ⟨hv, a, hmax, (lt_ceil_iff (hc.max a hmax)).mp hlarge⟩)

/-- A height in the range that is too large is one pixel; below it is nothing, or a height of zero that is legal. -/
theorem height_down {n : ℕ} (hv : heights.contains v = true) (hlow : lowestHeight c heights w ≤ v)
    (hhigh : v ≤ highestHeight c heights w) (hillegal : ¬aspectIsLegal c.extended w v = true)
    (hgo : ¬(c.extended.maxAspect.any fun max => Float64.lt max (aspectOf w v)) = true)
    (hn : heights.contains n = true) (hnv : n ≤ v - 1) :
    n < lowestHeight c heights w ∨ aspectIsLegal c.extended w n = true := by
  have hword := (contains_iff.mp hv).2.1.trans heights.upper_le
  -- the width zero with the height zero is excluded
  have hflat : ∀ u, heights.contains u = true → u = 0 → c.maxAspect = none → (c.minAspect ≠ none ∨ 1 ≤ w) →
      aspectIsLegal c.extended w u = true := by
    rintro u hu rfl hmax hor
    rcases Nat.eq_zero_or_pos w with rfl | hw
    · rcases hor with hmin | hw
      · exact absurd (.inr ⟨rfl, hu, hmax, hmin⟩) hstuck
      · omega
    · rw [extended_legal_flat hw, hmax]
      rfl
  have hmaxLow : ∀ a, c.maxAspect = some a → 1 ≤ lowestHeight c heights w := by
    intro a hmax
    have := one_le_clampInt ⌈(w : ℚ) / a⌉
    rw [lowestHeight, hmax]
    dsimp only
    omega
  rcases Nat.eq_zero_or_pos v with rfl | hpos
  · cases hmax : c.maxAspect with
    | some a => exact absurd hlow (by have := hmaxLow a hmax; omega)
    | none =>
      obtain rfl : n = 0 := by omega
      rcases Nat.eq_zero_or_pos w with rfl | hw
      · cases hmin : c.minAspect with
        | none => exact absurd (by rw [extended_legal_nothing, hmin, hmax]; rfl) hillegal
        | some b => exact .inr (hflat 0 hn rfl hmax (.inl (by rw [hmin]; nofun)))
      · exact .inr (hflat 0 hn rfl hmax (.inr hw))
  · rw [extended_above_pos hpos, goUp_height_iff hc.toAspectsPositive hpos] at hgo
    rw [extended_legal_pos hpos, aspectIsLegal_iff_height hc.toAspectsPositive hpos hword, not_and] at hillegal
    have hover := hillegal (not_lt.mp hgo)
    unfold highestHeight at hhigh
    cases hmin : c.minAspect with
    | none =>
      rw [hmin] at hover
      simp only [Option.map_none, Option.getD_none] at hover
      omega
    | some b =>
      rw [hmin] at hover hhigh
      simp only [Option.map_some, Option.getD_some] at hover hhigh
      have hzero : n = 0 := by
        unfold clampInt at hhigh
        omega
      cases hmax : c.maxAspect with
      | some a => exact .inl (by have := hmaxLow a hmax; omega)
      | none => exact .inr (hflat n hn hzero hmax (.inl (by rw [hmin]; nofun)))

theorem largestHeight_returns : ∃ r, (largestHeightForWidth c.extended heights w : Run ε (Option ℕ)) = .ok r ∧
      (heights.contains 0 = true → c.maxAspect = none → r.isSome = true) := by
  rw [extended_largestHeight hc.toAspectsPositive]
  obtain ⟨r, hr, hsome⟩ := largestFrom_returns (ε := ε)
    (fun v hv hlow _ _ hgo => height_up hc hstuck hv hlow hgo)
    (fun v n hv hlow hhigh hillegal hgo hn hnv => height_down hc hstuck hv hlow hhigh hillegal hgo hn hnv)
  refine ⟨r, hr, fun hzero hmax => hsome ?_ hzero fun v hv => ?_⟩
  · rw [lowestHeight, hmax]
    exact Nat.le_zero.mp (contains_iff.mp hzero).1
  · rw [extended, hmax] at hv
    cases hv

end height

theorem largestHeight_stuck (hc : c.Ordered) {heights : LegalDimensionLattice} (h : StuckHeight c heights w) :
    (largestHeightForWidth c.extended heights w : Run ε (Option ℕ)) = Run.diverge := by
  rw [extended_largestHeight hc.toAspectsPositive]
  rcases h with ⟨hlast, a, hmax, hlarge⟩ | ⟨rfl, hzero, hmax, hmin⟩
  · have ha : 0 < a := hc.max a hmax
    have hup := upper_of_last hlast
    have hceil := (lt_ceil_iff ha).mpr hlarge
    have hgo : (c.extended.maxAspect.any fun max => Float64.lt max (aspectOf w 4294967295)) = true := by
      rw [extended_above_pos (by norm_num), goUp_height_iff hc.toAspectsPositive (by norm_num), Option.mem_def.mp hmax]
      exact hceil
    refine largestFrom_endless hlast ?_ ?_ ?_ hgo
    · have := clampInt_le ⌈(w : ℚ) / a⌉
      have := heights.lower_le
      rw [lowestHeight, Option.mem_def.mp hmax]
      dsimp only
      omega
    · unfold highestHeight
      cases hmin : c.minAspect with
      | none => exact hup
      | some b =>
        have hb := hc.min b hmin
        have hle := hc.ordered b a hmin hmax
        have hfloor : 4294967295 ≤ ⌊(w : ℚ) / b⌋ := by
          rw [Int.le_floor, le_div_iff₀ hb]
          push_cast
          nlinarith
        dsimp only
        unfold clampInt
        omega
    · rw [extended_legal_pos (by norm_num),
        aspectIsLegal_iff_height hc.toAspectsPositive (by norm_num) le_rfl, Option.mem_def.mp hmax]
      simp only [Option.map_some, Option.getD_some, not_and]
      intro hle
      omega
  · obtain ⟨b, hmin⟩ := Option.ne_none_iff_exists'.mp hmin
    have hb := hc.min b hmin
    refine largestFrom_zero hzero ?_ ?_ (fun v hv => ?_) fun v hv => ?_
    · rw [lowestHeight, hmax]
      exact Nat.le_zero.mp (contains_iff.mp hzero).1
    · rw [highestHeight, hmin]
      simp [clampInt]
    · rcases Nat.eq_zero_or_pos v with rfl | hpos
      · rw [extended_legal_nothing, hmin]
        exact Bool.false_ne_true
      · rw [extended_legal_pos hpos, aspectIsLegal_iff]
        intro hlegal
        have := hlegal.1 b hmin
        rw [Nat.cast_zero, zero_div] at this
        exact absurd hb (not_lt.mpr this)
    · rw [extended, hmax] at hv
      cases hv

/-! ### Both orders of the search -/

section orders
variable {widths heights : LegalDimensionLattice}

/-- `u32::MAX` is a height that is too small for some widths and not for others; or all widths are zero, and zero is a
height, and only the lower aspect bound is set. -/
def StuckInWidths (c : LayoutConstraints ℚ) (widths heights : LegalDimensionLattice) : Prop :=
  (heights.contains 4294967295 = true ∧ ∃ a ∈ c.maxAspect,
    (∃ w, widths.contains w = true ∧ (w : ℚ) ≤ a * 4294967295) ∧
      ∃ w, widths.contains w = true ∧ a * 4294967295 < (w : ℚ)) ∨
  ((widths.contains 0 = true ∧ ∀ w, widths.contains w = true → w = 0) ∧ heights.contains 0 = true ∧
    c.maxAspect = none ∧ c.minAspect ≠ none)

def StuckInHeights (c : LayoutConstraints ℚ) (widths heights : LegalDimensionLattice) : Prop :=
  (widths.contains 4294967295 = true ∧ ∃ a ∈ c.minAspect,
    (∃ h, heights.contains h = true ∧ a * h ≤ (4294967295 : ℚ)) ∧
      ∃ h, heights.contains h = true ∧ (4294967295 : ℚ) < a * h) ∨
  ((heights.contains 0 = true ∧ ∀ h, heights.contains h = true → h = 0) ∧ widths.contains 0 = true ∧
    c.minAspect = none ∧ c.maxAspect ≠ none)

theorem widths_canIntersect_iff (low high : ℕ) :
    continuousWidthIntervalCanIntersect c.extended heights low high = true ↔
      (c.extended.maxAspect.any fun max => Float64.lt max (aspectOf low heights.upper)) = false ∧
      (c.extended.minAspect.any fun min => Float64.lt (aspectOf high heights.lower) min) = false := by
  unfold continuousWidthIntervalCanIntersect
  rw [Bool.and_eq_true, Bool.not_eq_true', Bool.not_eq_true']

theorem searchWidths_stuck (hc : c.Ordered) (h : StuckInWidths c widths heights) :
    (searchWidths c.extended widths heights 0 (widths.cardinality - 1) : Run ε (Option (ℕ × ℕ))) = Run.diverge := by
  unfold searchWidths
  rcases h with ⟨hlast, a, hmax, ⟨w, hw, hsmall⟩, w', hw', hlarge⟩ | ⟨⟨hzero, hall⟩, hzero', hmax, hmin⟩
  · obtain ⟨-, low, high, hlow, hhigh, -, -, hends⟩ := exists_ends hw
    have ha : 0 < a := hc.max a hmax
    have hup := upper_of_last hlast
    have hlowSmall : (low : ℚ) ≤ a * 4294967295 := (Nat.cast_le.mpr (hends w hw).1).trans hsmall
    have hhighLarge : a * 4294967295 < (high : ℚ) := hlarge.trans_le (Nat.cast_le.mpr (hends w' hw').2)
    have hone : 1 ≤ high := by
      rcases Nat.eq_zero_or_pos high with rfl | hpos
      · rw [Nat.cast_zero] at hhighLarge
        nlinarith
      · exact hpos
    refine (searchLattice_all_eq hlow hhigh).2.1 ((widths_canIntersect_iff low high).mpr ⟨?_, ?_⟩)
      (largestHeight_stuck hc (.inl ⟨hlast, a, hmax, hhighLarge⟩))
    · rw [hup, extended_above_pos (by norm_num), Bool.eq_false_iff, ne_eq, any_lt_iff]
      rintro ⟨b, hb, hlt⟩
      obtain rfl : a = b := Option.some.inj (hmax.symm.trans hb)
      rw [aspectOf, Exact.div_eq, Exact.ofNat_eq, Exact.ofNat_eq, lt_div_iff₀ (by norm_num)] at hlt
      exact absurd hlowSmall (not_le.mpr (by exact_mod_cast hlt))
    · rcases Nat.eq_zero_or_pos heights.lower with hflat | hpos
      · rw [hflat, extended_below_flat]
      · rw [extended_below_pos hpos, Bool.eq_false_iff, ne_eq, any_gt_iff]
        rintro ⟨b, hb, hlt⟩
        have hle := hc.ordered b a hb hmax
        have hcast : (0 : ℚ) < heights.lower := Nat.cast_pos.mpr hpos
        have hword : (heights.lower : ℚ) ≤ 4294967295 := by exact_mod_cast heights.lower_le.trans heights.upper_le
        rw [aspectOf, Exact.div_eq, Exact.ofNat_eq, Exact.ofNat_eq, div_lt_iff₀ hcast] at hlt
        have hb' := hc.min b hb
        nlinarith
  · obtain ⟨-, low, high, hlow, hhigh, hlowMem, hhighMem, -⟩ := exists_ends hzero
    obtain rfl := hall low hlowMem
    obtain rfl := hall high hhighMem
    have hflat : heights.lower = 0 := Nat.le_zero.mp (contains_iff.mp hzero').1
    refine (searchLattice_all_eq hlow hhigh).2.1 ((widths_canIntersect_iff 0 0).mpr ⟨?_, ?_⟩)
      (largestHeight_stuck hc (.inr ⟨rfl, hzero', hmax, hmin⟩))
    · rw [extended, hmax]
      rfl
    · rw [hflat, extended_below_flat]

theorem searchWidths_returns (hc : c.Ordered) (h : ¬StuckInWidths c widths heights) :
    ∃ r, (searchWidths c.extended widths heights 0 (widths.cardinality - 1) : Run ε (Option (ℕ × ℕ))) = .ok r := by
  unfold searchWidths
  by_cases hstuck : ∃ w, widths.contains w = true ∧ StuckHeight c heights w
  · obtain ⟨w, hw, hstuck⟩ := hstuck
    obtain ⟨-, low, high, hlow, hhigh, hlowMem, hhighMem, hends⟩ := exists_ends hw
    cases hcan : continuousWidthIntervalCanIntersect c.extended heights low high with
    | false => exact ⟨none, (searchLattice_all_eq hlow hhigh).1 hcan⟩
    | true =>
      rcases hstuck with ⟨hlast, a, hmax, hlarge⟩ | ⟨rfl, hzero, hmax, hmin⟩
      · -- every width is too large, and the interval is pruned
        have hlowLarge : a * 4294967295 < (low : ℚ) := by
          by_contra hsmall
          exact h (.inl ⟨hlast, a, hmax, ⟨low, hlowMem, not_lt.mp hsmall⟩, w, hw, hlarge⟩)
        have hpass := ((widths_canIntersect_iff low high).mp hcan).1
        rw [upper_of_last hlast, extended_above_pos (by norm_num), Bool.eq_false_iff, ne_eq, any_lt_iff] at hpass
        refine absurd ⟨a, hmax, ?_⟩ hpass
        rw [aspectOf, Exact.div_eq, Exact.ofNat_eq, Exact.ofNat_eq, lt_div_iff₀ (by norm_num)]
        exact_mod_cast hlowLarge
      · -- the largest width is not zero, and completed
        have hpos : high ≠ 0 := by
          rintro rfl
          exact h (.inr ⟨⟨hw, fun v hv => Nat.le_zero.mp (hends v hv).2⟩, hzero, hmax, hmin⟩)
        have hfree : ¬StuckHeight c heights high := by
          rintro (⟨-, a, ha, -⟩ | ⟨hflat, -⟩)
          · rw [hmax] at ha
            cases ha
          · exact hpos hflat
        obtain ⟨r, hr, hsome⟩ := largestHeight_returns (ε := ε) hc hfree
        obtain ⟨other, rfl⟩ := Option.isSome_iff_exists.mp (hsome hzero hmax)
        exact ⟨_, (searchLattice_all_eq hlow hhigh).2.2 other hcan hr⟩
  · refine searchLattice_all_returns fun w hw => ?_
    obtain ⟨r, hr, -⟩ := largestHeight_returns (ε := ε) hc fun hs => hstuck ⟨w, hw, hs⟩
    exact ⟨r, hr⟩

/-! The search over the heights is the search over the widths of the transposed window. -/

theorem compare_aspectOf (a : ℚ) (w h : ℕ) : (Float64.lt (Extended.finite a) (aspectOf w h) = true ↔ a * h < w) ∧
      (Float64.lt (aspectOf w h) (Extended.finite a) = true ↔ w < a * h) ∧
      (Float64.le (Extended.finite a) (aspectOf w h) = true ↔ a * h ≤ w ∧ (w ≠ 0 ∨ h ≠ 0)) ∧
      (Float64.le (aspectOf w h) (Extended.finite a) = true ↔ w ≤ a * h ∧ (w ≠ 0 ∨ h ≠ 0)) := by
  rcases Nat.eq_zero_or_pos h with rfl | hh
  · rcases Nat.eq_zero_or_pos w with rfl | hw
    · rw [aspectOf_zero_zero]
      simp [Float64.lt, Float64.le, Extended.lt, Extended.le]
    · rw [aspectOf_zero hw]
      simp [Float64.lt, Float64.le, Extended.lt, Extended.le, hw, hw.ne']
  · have hcast : (0 : ℚ) < h := Nat.cast_pos.mpr hh
    rw [aspectOf_pos w hh]
    simp [lt_div_iff₀ hcast, div_lt_iff₀ hcast, le_div_iff₀ hcast, div_le_iff₀ hcast, hh.ne']

def LayoutConstraints.transposed (c : LayoutConstraints ℚ) : LayoutConstraints ℚ :=
  { minWidth := c.minHeight
    minHeight := c.minWidth
    maxWidth := c.maxHeight
    maxHeight := c.maxWidth
    baseWidth := c.baseHeight
    baseHeight := c.baseWidth
    widthIncrement := c.heightIncrement
    heightIncrement := c.widthIncrement
    minAspect := c.maxAspect.map (·⁻¹)
    maxAspect := c.minAspect.map (·⁻¹) }

section Transposed
variable (hc : c.Ordered)
include hc

theorem LayoutConstraints.Ordered.transposed : c.transposed.Ordered := by
  have hmap : ∀ (aspect : Option ℚ) b, aspect.map (·⁻¹) = some b → ∃ a, aspect = some a ∧ a⁻¹ = b :=
    fun aspect b h => Option.map_eq_some_iff.mp h
  refine ⟨⟨fun b hb => ?_, fun b hb => ?_⟩, fun b b' hb hb' => ?_⟩
  · obtain ⟨a, ha, rfl⟩ := hmap _ _ hb
    exact inv_pos.mpr (hc.max a ha)
  · obtain ⟨a, ha, rfl⟩ := hmap _ _ hb
    exact inv_pos.mpr (hc.min a ha)
  · obtain ⟨a, ha, rfl⟩ := hmap _ _ hb
    obtain ⟨a', ha', rfl⟩ := hmap _ _ hb'
    exact inv_anti₀ (hc.min a' ha') (hc.ordered a' a ha' ha)

theorem transposed_above (w h : ℕ) : (c.extended.minAspect.any fun min => Float64.lt (aspectOf w h) min) =
    c.transposed.extended.maxAspect.any fun max => Float64.lt max (aspectOf h w) := by
  unfold transposed extended
  cases hmin : c.minAspect with
  | none => rfl
  | some a =>
    refine Bool.eq_iff_iff.mpr ((compare_aspectOf a w h).2.1.trans (.trans ?_ (compare_aspectOf a⁻¹ h w).1.symm))
    exact (inv_mul_lt_iff₀ (hc.min a hmin)).symm

theorem transposed_below (w h : ℕ) : (c.extended.maxAspect.any fun max => Float64.lt max (aspectOf w h)) =
    c.transposed.extended.minAspect.any fun min => Float64.lt (aspectOf h w) min := by
  unfold transposed extended
  cases hmax : c.maxAspect with
  | none => rfl
  | some a =>
    refine Bool.eq_iff_iff.mpr ((compare_aspectOf a w h).1.trans (.trans ?_ (compare_aspectOf a⁻¹ h w).2.1.symm))
    exact (lt_inv_mul_iff₀ (hc.max a hmax)).symm

theorem transposed_legal (w h : ℕ) : aspectIsLegal c.extended w h = aspectIsLegal c.transposed.extended h w := by
  unfold aspectIsLegal
  rw [Bool.and_comm]
  unfold transposed extended
  congr 1
  · cases hmax : c.maxAspect with
    | none => rfl
    | some a =>
      refine Bool.eq_iff_iff.mpr
        ((compare_aspectOf a w h).2.2.2.trans (.trans ?_ (compare_aspectOf a⁻¹ h w).2.2.1.symm))
      rw [inv_mul_le_iff₀ (hc.max a hmax), or_comm]
  · cases hmin : c.minAspect with
    | none => rfl
    | some a =>
      refine Bool.eq_iff_iff.mpr
        ((compare_aspectOf a w h).2.2.1.trans (.trans ?_ (compare_aspectOf a⁻¹ h w).2.2.2.symm))
      rw [le_inv_mul_iff₀ (hc.min a hmin), or_comm]

theorem largestWidth_transposed (widths : LegalDimensionLattice) (h : ℕ) :
    (largestWidthForHeight c.extended widths h : Run ε (Option ℕ)) =
      largestHeightForWidth c.transposed.extended widths h := by
  have hmul : ∀ a : ℚ, 0 < a → Float64.mul (Float64.ofNat h) (Extended.finite a) =
      Float64.div (Float64.ofNat h) (Extended.finite a⁻¹) := by
    intro a ha
    rw [Extended.ofNat_eq, Extended.mul_finite, Extended.div_finite (inv_ne_zero ha.ne'), div_inv_eq_mul]
  have hlower : (tighten max widths.lower c.extended.minAspect (ceilAspectProduct h) : Run ε ℕ) =
      tighten max widths.lower c.transposed.extended.maxAspect (ceilAspectRatio h) := by
    unfold transposed extended
    cases hmin : c.minAspect with
    | none => rfl
    | some a => simp only [Option.map_some, tighten, ceilAspectProduct, ceilAspectRatio, hmul a (hc.min a hmin)]
  have hupper : (tighten min widths.upper c.extended.maxAspect (floorAspectProduct h) : Run ε ℕ) =
      tighten min widths.upper c.transposed.extended.minAspect (floorAspectRatio h) := by
    unfold transposed extended
    cases hmax : c.maxAspect with
    | none => rfl
    | some a => simp only [Option.map_some, tighten, floorAspectProduct, floorAspectRatio, hmul a (hc.max a hmax)]
  rw [largestWidthForHeight, largestHeightForWidth, hlower, hupper]
  simp only [transposed_legal hc, transposed_above hc]

theorem searchHeights_transposed (first last : ℕ) :
    (searchHeights c.extended heights widths first last : Run ε (Option (ℕ × ℕ))) =
      searchWidths c.transposed.extended heights widths first last >>= fun pair => .ok (pair.map Prod.swap) := by
  have hcan : continuousHeightIntervalCanIntersect c.extended widths =
      continuousWidthIntervalCanIntersect c.transposed.extended widths := by
    funext low high
    rw [continuousHeightIntervalCanIntersect, continuousWidthIntervalCanIntersect, transposed_below hc,
      transposed_above hc, Bool.and_comm]
  have hlargest : (largestWidthForHeight c.extended widths : ℕ → Run ε (Option ℕ)) =
      largestHeightForWidth c.transposed.extended widths := funext (largestWidth_transposed hc widths)
  rw [searchHeights, searchWidths, hcan, hlargest]

theorem stuckInHeights_iff : StuckInHeights c widths heights ↔ StuckInWidths c.transposed heights widths := by
  unfold StuckInHeights StuckInWidths transposed
  refine or_congr (and_congr_right fun _ => ?_) (and_congr_right fun _ => and_congr_right fun _ => ?_)
  · cases hmin : c.minAspect with
    | none => simp
    | some a => simp [le_inv_mul_iff₀ (hc.min a hmin), inv_mul_lt_iff₀ (hc.min a hmin)]
  · simp only [Option.map_eq_none_iff, ne_eq]

theorem searchHeights_stuck (h : StuckInHeights c widths heights) :
    (searchHeights c.extended heights widths 0 (heights.cardinality - 1) : Run ε (Option (ℕ × ℕ))) = Run.diverge := by
  rw [searchHeights_transposed hc, searchWidths_stuck hc.transposed ((stuckInHeights_iff hc).mp h)]
  rfl

theorem searchHeights_returns (h : ¬StuckInHeights c widths heights) :
    ∃ r, (searchHeights c.extended heights widths 0 (heights.cardinality - 1) : Run ε (Option (ℕ × ℕ))) = .ok r := by
  obtain ⟨r, hr⟩ := searchWidths_returns (ε := ε) hc.transposed (fun hstuck => h ((stuckInHeights_iff hc).mpr hstuck))
  exact ⟨r.map Prod.swap, by rw [searchHeights_transposed hc, hr]; rfl⟩

end Transposed
end orders

end Extended

def Returns (tile : LayoutRect) (c : LayoutConstraints ℚ) : Prop :=
  (∃ client, resolveClientRectWithinTile tile c.extended = .ok client) ∨
    ∃ error, resolveClientRectWithinTile tile c.extended = .error (.error error)

/-- The pair of lattices that the search does not come back from: a fraction with a zero where the aspect bounds are one
fraction, and otherwise a loop over candidates that stays where it is. -/
def StuckOn (c : LayoutConstraints ℚ) (widths heights : LegalDimensionLattice) : Prop :=
  match c.extended.exactAspect with
  | some ratio => ratio.numerator = 0 ∨ ratio.denominator = 0
  | none =>
    if widths.cardinality ≤ heights.cardinality then StuckInWidths c widths heights else StuckInHeights c widths heights

theorem findBestLatticePair_returns_iff (hc : c.Ordered) (widths heights : LegalDimensionLattice) :
    (StuckOn c widths heights ∧ ∃ fault, (findBestLatticePair c.extended widths heights : Run ClientRectError _) =
      .error fault ∧ ∀ e, fault ≠ .error e) ∨
    (¬StuckOn c widths heights ∧ ∃ r, (findBestLatticePair c.extended widths heights : Run ClientRectError _) =
      .ok r) := by
  unfold findBestLatticePair StuckOn
  cases c.extended.exactAspect with
  | some ratio =>
    dsimp only
    unfold largestExactAspectPair
    by_cases hzero : ratio.numerator = 0 ∨ ratio.denominator = 0
    · dsimp only
      rw [if_pos hzero]
      exact .inl ⟨hzero, _, rfl, nofun⟩
    · dsimp only
      rw [if_neg hzero]
      exact .inr ⟨hzero, _, rfl⟩
  | none =>
    dsimp only
    unfold findBestLatticePairWithStats
    by_cases hfewer : widths.cardinality ≤ heights.cardinality
    · rw [if_pos hfewer, if_pos hfewer]
      by_cases hstuck : StuckInWidths c widths heights
      · exact .inl ⟨hstuck, .diverge, searchWidths_stuck hc hstuck, nofun⟩
      · exact .inr ⟨hstuck, searchWidths_returns hc hstuck⟩
    · rw [if_neg hfewer, if_neg hfewer]
      by_cases hstuck : StuckInHeights c widths heights
      · exact .inl ⟨hstuck, .diverge, searchHeights_stuck hc hstuck, nofun⟩
      · exact .inr ⟨hstuck, searchHeights_returns hc hstuck⟩

theorem size_search_returns_iff {c : LayoutConstraints ℚ} {tile : LayoutRect} (hv : c.extended.validate = .ok ()) :
    (Returns tile c ↔ ∀ widths heights, tileLattices c.extended tile = some (widths, heights) →
      ¬StuckOn c widths heights) ∧
    ∀ (l : LegalDimensionLattice) (lower upper : ℕ) (legal goUp : ℕ → Bool) (fuel candidate : ℕ) (r : Option ℕ),
      (candidateLoop l lower upper legal goUp fuel candidate : Run ClientRectError _) = .ok r →
        (visited l lower upper legal goUp fuel candidate).Nodup := by
  refine ⟨?_, fun l lower upper legal goUp fuel candidate r h => visited_nodup h⟩
  have hc := ordered_of_validate_extended hv
  unfold Returns resolveClientRectWithinTile
  rw [hv]
  dsimp only
  cases hlat : tileLattices c.extended tile with
  | none => exact iff_of_true (.inr ⟨_, rfl⟩) nofun
  | some pair =>
    obtain ⟨widths, heights⟩ := pair
    have hself : (∀ widths' heights', some (widths, heights) = some (widths', heights') → ¬StuckOn c widths' heights') ↔
        ¬StuckOn c widths heights := by
      constructor
      · exact fun h => h widths heights rfl
      · rintro h _ _ ⟨⟩
        exact h
    rw [hself, Run.okOr_some, Run.ok_bind]
    dsimp only
    rcases findBestLatticePair_returns_iff hc widths heights with ⟨hstuck, fault, hfault, hreal⟩ | ⟨hfree, r, hr⟩
    · refine iff_of_false ?_ fun h => h hstuck
      rw [hfault]
      rintro (⟨client, h⟩ | ⟨error, h⟩)
      · cases h
      · exact hreal error (Except.error.inj h)
    · refine iff_of_true ?_ hfree
      rw [hr, Run.ok_bind]
      cases r with
      | none => exact .inr ⟨_, rfl⟩
      | some pair =>
        rw [Run.okOr_some, Run.ok_bind]
        cases LayoutRect.new (centred tile.x ((tile.width.val - pair.1) / 2))
            (centred tile.y ((tile.height.val - pair.2) / 2)) (toU32 pair.1) (toU32 pair.2) with
        | none => exact .inr ⟨_, rfl⟩
        | some client => exact .inl ⟨client, rfl⟩

def bannerAspect : LayoutConstraints ℚ := { unconstrained with minAspect := some 3 }

theorem size_search_returns_iff_banner : Returns smallTile bannerAspect := by
  refine (size_search_returns_iff (by decide +kernel)).1.mpr fun widths heights hlat => ?_
  obtain ⟨w, l, hw, -, hwiff, hliff⟩ := tileLattices_contains hlat
  have hone : 1 ≤ w.lower := one_le_lower hw fun m hm => absurd hm nofun
  have hexact : bannerAspect.extended.exactAspect = none := rfl
  unfold StuckOn
  rw [hexact]
  dsimp only
  -- no lattice of a small tile reaches `u32::MAX`, and no upper aspect bound is set
  split_ifs
  · rintro (⟨hlast, -⟩ | ⟨⟨hzero, -⟩, -⟩)
    · exact absurd ((hliff _).mp hlast).2 (by decide)
    · exact absurd (contains_iff.mp ((hwiff _).mp hzero).1).1 (by omega)
  · rintro (⟨hlast, -⟩ | ⟨-, -, hmin, -⟩)
    · exact absurd ((hwiff _).mp hlast).2 (by decide)
    · cases hmin

theorem resolve_diverges {tile : LayoutRect} {widths heights : LegalDimensionLattice}
    (hv : c.extended.validate = .ok ()) (hlat : tileLattices c.extended tile = some (widths, heights))
    (hexact : c.extended.exactAspect = none)
    (hsearch : (findBestLatticePairWithStats c.extended widths heights : Run ClientRectError _) = Run.diverge) :
    resolveClientRectWithinTile tile c.extended = .error .diverge := by
  unfold resolveClientRectWithinTile findBestLatticePair
  rw [hv]
  dsimp only
  rw [hlat, Run.okOr_some, Run.ok_bind, hexact]
  dsimp only
  rw [hsearch]
  rfl

def beamTile : LayoutRect :=
  rectOf (-2147483648) 0 4294967295 5

def beam : LayoutConstraints ℚ := { unconstrained with minAspect := some 3000000000 }

def point : LayoutConstraints ℚ :=
  { unconstrained with
    minWidth := some ⟨0, by decide⟩
    maxWidth := some ⟨0, by decide⟩
    minHeight := some ⟨0, by decide⟩
    maxHeight := some ⟨0, by decide⟩
    minAspect := some 1 }

theorem candidate_loops_endless :
    beam.extended.validate = .ok () ∧ resolveClientRectWithinTile beamTile beam.extended = .error .diverge ∧
    point.extended.validate = .ok () ∧ resolveClientRectWithinTile smallTile point.extended = .error .diverge := by
  have hbeam : beam.extended.validate = .ok () := by decide +kernel
  have hpoint : point.extended.validate = .ok () := by decide +kernel
  have hbeamLattices : tileLattices beam.extended beamTile =
      some (⟨1, 4294967295, 1, 1, by decide, by decide, by decide, by decide, by decide⟩,
        ⟨1, 5, 1, 1, by decide, by decide, by decide, by decide, by decide⟩) := by decide +kernel
  have hpointLattices : tileLattices point.extended smallTile =
      some (⟨0, 0, 0, 1, by decide, by decide, by decide, by decide, by decide⟩,
        ⟨0, 0, 0, 1, by decide, by decide, by decide, by decide, by decide⟩) := by decide +kernel
  refine ⟨hbeam, resolve_diverges hbeam hbeamLattices rfl ?_, hpoint, resolve_diverges hpoint hpointLattices rfl ?_⟩
  · rw [findBestLatticePairWithStats, if_neg (by decide)]
    refine searchHeights_stuck (ordered_of_validate_extended hbeam)
      (.inl ⟨by decide, _, rfl, ⟨1, by decide, ?_⟩, 5, by decide, ?_⟩)
    · norm_num
    · norm_num
  · rw [findBestLatticePairWithStats, if_pos (by decide)]
    refine searchWidths_stuck (ordered_of_validate_extended hpoint)
      (.inr ⟨⟨by decide, fun w hw => ?_⟩, by decide, rfl, nofun⟩)
    exact Nat.le_zero.mp (contains_iff.mp hw).2.1

end Typhon.Layout
