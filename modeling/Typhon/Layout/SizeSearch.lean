import Typhon.Layout.ClientRect

/-! With exact arithmetic the size search is complete: it returns, and it finds a pair whenever the
lattices hold a legal one. -/

namespace Typhon.Layout
open Foundation LegalDimensionLattice

variable {ε : Type}

/-! ### Aspects over the rationals -/

def clampInt (z : ℤ) : ℕ := (max 1 (min z 4294967295)).toNat

theorem clampDimension_intCast (z : ℤ) : (clampDimension (z : ℚ) : Run ε ℕ) = .ok (clampInt z) := by
  have hle : (1 : ℚ) ≤ 4294967295 := by norm_num
  have hcast : max (1 : ℚ) (min (z : ℚ) 4294967295) = ((max 1 (min z 4294967295) : ℤ) : ℚ) := by push_cast; rfl
  rw [clampDimension, Exact.ofRat_eq, Exact.ofNat_eq, Nat.cast_ofNat, Exact.clamp_eq_ok hle, Run.ok_bind, hcast]
  simp only [Float64.asU32, Exact.toInt_intCast, clampInt, Except.ok.injEq]
  omega

section Largest
variable {l : LegalDimensionLattice} {legal goUp : ℕ → Bool} {L H : ℤ} {lower upper : ℕ}

section
variable (hpos : 1 ≤ l.lower) (hlegal : ∀ v, 1 ≤ v → v ≤ 4294967295 → (legal v = true ↔ L ≤ v ∧ (v : ℤ) ≤ H))
  (hlower : lower = max l.lower (clampInt L)) (hupper : upper = min l.upper (clampInt H))
include hpos hlegal hlower hupper

theorem first_candidate_legal {candidate v : ℕ} (hc : l.alignDown upper = some candidate) (hv : l.contains v = true)
    (hl : legal v = true) : v ≤ candidate ∧ legal candidate = true ∧ ¬ candidate < lower := by
  obtain ⟨hmem, hle, hgreatest⟩ := alignDown_eq_some hc
  obtain ⟨hv₁, hv₂, -⟩ := contains_iff.mp hv
  obtain ⟨hc₁, hc₂, -⟩ := contains_iff.mp hmem
  have hmax := l.upper_le
  have hvl := (hlegal v (by omega) (by omega)).mp hl
  simp only [clampInt] at hupper hlower
  have hge := hgreatest v hv (by omega)
  exact ⟨hge, (hlegal candidate (by omega) (by omega)).mpr (by omega), by omega⟩

omit hlower in
theorem not_legal_of_alignDown_none (hc : l.alignDown upper = none) {v : ℕ} (hv : l.contains v = true) :
    ¬ legal v = true := by
  intro hl
  have := alignDown_eq_none hc hv
  obtain ⟨hv₁, hv₂, -⟩ := contains_iff.mp hv
  have := l.upper_le
  have := (hlegal v (by omega) (by omega)).mp hl
  simp only [clampInt] at hupper
  omega

/-- A legal interval is hit by the first candidate, or by none. The one candidate that could be
tried again and again is `u32::MAX`. -/
theorem largestFrom_finds (hgoUp : ∀ v, 1 ≤ v → v ≤ 4294967295 → (goUp v = true ↔ (v : ℤ) < L))
    (hmax : l.contains 4294967295 = true → L ≤ 4294967295) :
    Run.Finds (largestFrom l lower upper legal goUp : Run ε (Option ℕ))
      (∃ v, l.contains v = true ∧ legal v = true) := by
  unfold largestFrom
  cases hc : l.alignDown upper with
  | none =>
    refine ⟨none, rfl, by simp, ?_⟩
    rintro ⟨v, hv, hl⟩
    exact absurd hl (not_legal_of_alignDown_none hpos hlegal hupper hc hv)
  | some candidate =>
    obtain ⟨hmem, hle, hgreatest⟩ := alignDown_eq_some hc
    obtain ⟨hlow, hhigh, -⟩ := contains_iff.mp hmem
    have hword := l.upper_le
    have hiff := hlegal candidate (by omega) (by omega)
    have hup := hgoUp candidate (by omega) (by omega)
    have hhit : (∃ v, l.contains v = true ∧ legal v = true) → legal candidate = true ∧ ¬ candidate < lower := by
      rintro ⟨v, hv, hl⟩
      exact (first_candidate_legal hpos hlegal hlower hupper hc hv hl).2
    obtain ⟨fuel, hfuel⟩ : ∃ fuel, candidateFuel = fuel + 1 := ⟨4294967296, rfl⟩
    simp only [hfuel, candidateLoop]
    by_cases hcl : legal candidate = true
    · rw [if_neg (hhit ⟨candidate, hmem, hcl⟩).2, if_pos hcl]
      exact ⟨_, rfl, fun _ => ⟨candidate, hmem, hcl⟩, fun _ => rfl⟩
    -- the first candidate decides: the next one is outside the range
    · refine ⟨none, ?_, by simp, fun h => absurd (hhit h).1 hcl⟩
      by_cases hout : candidate < lower
      · rw [if_pos hout]
      rw [if_neg hout, if_neg hcl, nextCandidate]
      by_cases hgo : goUp candidate = true
      · have hlt := hup.mp hgo
        have hsmall : candidate + 1 ≤ 4294967295 := by
          by_contra hlast
          obtain rfl : candidate = 4294967295 := by omega
          exact absurd (hmax hmem) (not_le.mpr hlt)
        rw [if_pos hgo, min_eq_left hsmall]
        cases hn : l.alignUp (candidate + 1) with
        | none => rfl
        | some next =>
          obtain ⟨hnmem, hnle, -⟩ := alignUp_eq_some hn
          have hover : upper < next := by
            by_contra hcon
            have := hgreatest next hnmem (not_lt.mp hcon)
            omega
          simp only
          rw [if_pos (.inr hover)]
      · have hge : L ≤ candidate := not_lt.mp (mt hup.mpr hgo)
        have hgt : H < candidate := by
          by_contra hcon
          exact hcl (hiff.mpr ⟨hge, by omega⟩)
        simp only [clampInt] at hupper hlower
        rw [if_neg hgo]
        cases hn : l.alignDown (candidate - 1) with
        | none => rfl
        | some next =>
          have := (alignDown_eq_some hn).2.1
          simp only
          rw [if_pos (.inl (by omega))]

theorem largestFrom_greatest {v v' : ℕ} (h : (largestFrom l lower upper legal goUp : Run ε _) = .ok (some v))
    (hv' : l.contains v' = true) (hl' : legal v' = true) : v' ≤ v := by
  obtain ⟨hmem, hl⟩ := largestFrom_sound h
  unfold largestFrom at h
  cases hc : l.alignDown upper with
  | none => exact absurd hl (not_legal_of_alignDown_none hpos hlegal hupper hc hmem)
  | some candidate =>
    obtain ⟨-, hcl, hout⟩ := first_candidate_legal hpos hlegal hlower hupper hc hmem hl
    obtain ⟨fuel, hfuel⟩ : ∃ fuel, candidateFuel = fuel + 1 := ⟨4294967296, rfl⟩
    simp only [hc, hfuel, candidateLoop] at h
    rw [if_neg hout, if_pos hcl] at h
    cases h
    exact (first_candidate_legal hpos hlegal hlower hupper hc hv' hl').1

end

end Largest

theorem tighten_max {bound : ℕ} (hbound : 1 ≤ bound) (aspect : Option ℚ) {limit : ℚ → Run ε ℕ} {z : ℚ → ℤ}
    (hlimit : ∀ a, limit a = .ok (clampInt (z a))) :
    tighten max bound aspect limit = .ok (max bound (clampInt ((aspect.map z).getD 0))) := by
  cases aspect with
  | none => simp [tighten, clampInt, hbound]
  | some a => simp [tighten, hlimit]

theorem tighten_min {bound : ℕ} (hbound : bound ≤ 4294967295) (aspect : Option ℚ) {limit : ℚ → Run ε ℕ}
    {z : ℚ → ℤ} (hlimit : ∀ a, limit a = .ok (clampInt (z a))) :
    tighten min bound aspect limit = .ok (min bound (clampInt ((aspect.map z).getD 4294967295))) := by
  cases aspect with
  | none => simp [tighten, clampInt, hbound]
  | some a => simp [tighten, hlimit]

structure LayoutConstraints.AspectsPositive (c : LayoutConstraints ℚ) : Prop where
  min : ∀ a, c.minAspect = some a → 0 < a
  max : ∀ a, c.maxAspect = some a → 0 < a

section Aspects
variable {c : LayoutConstraints ℚ} (hc : c.AspectsPositive)
include hc

theorem aspectIsLegal_iff_height {width height : ℕ} (hh : 1 ≤ height) (hle : height ≤ 4294967295) :
    aspectIsLegal c width height = true ↔ (c.maxAspect.map fun a => ⌈(width : ℚ) / a⌉).getD 0 ≤ height ∧
        (height : ℤ) ≤ (c.minAspect.map fun a => ⌊(width : ℚ) / a⌋).getD 4294967295 := by
  have hpos : (0 : ℚ) < height := by exact_mod_cast hh
  rw [aspectIsLegal, Bool.and_eq_true, and_comm]
  refine and_congr ?_ ?_
  · cases hmax : c.maxAspect with
    | none => simp
    | some a =>
      have ha := hc.max a hmax
      simp only [Option.all_some, Exact.le_iff, aspectOf, Exact.div_eq, Exact.ofNat_eq, Option.map_some,
        Option.getD_some]
      rw [Int.ceil_le, Int.cast_natCast, div_le_iff₀ hpos, div_le_iff₀ ha, mul_comm]
  · cases hmin : c.minAspect with
    | none => simp; omega
    | some a =>
      have ha := hc.min a hmin
      simp only [Option.all_some, Exact.le_iff, aspectOf, Exact.div_eq, Exact.ofNat_eq, Option.map_some,
        Option.getD_some]
      rw [Int.le_floor, Int.cast_natCast, le_div_iff₀ hpos, le_div_iff₀ ha, mul_comm]

omit hc in
theorem aspectIsLegal_iff_width {width height : ℕ} (hh : 1 ≤ height) (hle : width ≤ 4294967295) :
    aspectIsLegal c width height = true ↔ (c.minAspect.map fun a => ⌈(height : ℚ) * a⌉).getD 0 ≤ width ∧
        (width : ℤ) ≤ (c.maxAspect.map fun a => ⌊(height : ℚ) * a⌋).getD 4294967295 := by
  have hpos : (0 : ℚ) < height := by exact_mod_cast hh
  rw [aspectIsLegal, Bool.and_eq_true]
  refine and_congr ?_ ?_
  · cases hmin : c.minAspect with
    | none => simp
    | some a =>
      simp only [Option.all_some, Exact.le_iff, aspectOf, Exact.div_eq, Exact.ofNat_eq, Option.map_some,
        Option.getD_some]
      rw [Int.ceil_le, Int.cast_natCast, le_div_iff₀ hpos, mul_comm]
  · cases hmax : c.maxAspect with
    | none => simp; omega
    | some a =>
      simp only [Option.all_some, Exact.le_iff, aspectOf, Exact.div_eq, Exact.ofNat_eq, Option.map_some,
        Option.getD_some]
      rw [Int.le_floor, Int.cast_natCast, div_le_iff₀ hpos, mul_comm]

omit hc in
theorem largestHeightForWidth_eq {heights : LegalDimensionLattice} (hpos : 1 ≤ heights.lower) (width : ℕ) :
    (largestHeightForWidth c heights width : Run ε (Option ℕ)) =
      largestFrom heights (max heights.lower (clampInt ((c.maxAspect.map fun a => ⌈(width : ℚ) / a⌉).getD 0)))
        (min heights.upper (clampInt ((c.minAspect.map fun a => ⌊(width : ℚ) / a⌋).getD 4294967295)))
        (aspectIsLegal c width) fun height => c.maxAspect.any fun max => Float64.lt max (aspectOf width height) := by
  have hceil : ∀ a : ℚ, (ceilAspectRatio width a : Run ε ℕ) = .ok (clampInt ⌈(width : ℚ) / a⌉) :=
    fun a => clampDimension_intCast _
  have hfloor : ∀ a : ℚ, (floorAspectRatio width a : Run ε ℕ) = .ok (clampInt ⌊(width : ℚ) / a⌋) :=
    fun a => clampDimension_intCast _
  rw [largestHeightForWidth, tighten_max hpos _ hceil, Run.ok_bind, tighten_min heights.upper_le _ hfloor, Run.ok_bind]

theorem goUp_height_iff {width v : ℕ} (hv : 1 ≤ v) :
    (c.maxAspect.any fun max => Float64.lt max (aspectOf width v)) = true ↔
      (v : ℤ) < (c.maxAspect.map fun a => ⌈(width : ℚ) / a⌉).getD 0 := by
  cases hm : c.maxAspect with
  | none => simp
  | some a =>
    have ha := hc.max a hm
    have hv : (0 : ℚ) < v := by exact_mod_cast hv
    simp only [Option.any_some, Exact.lt_iff, aspectOf, Exact.div_eq, Exact.ofNat_eq, Option.map_some,
      Option.getD_some]
    rw [Int.lt_ceil, Int.cast_natCast, lt_div_iff₀ hv, lt_div_iff₀ ha, mul_comm]

theorem largestHeightForWidth_finds {heights : LegalDimensionLattice} (hpos : 1 ≤ heights.lower) (width : ℕ)
    (hmax : heights.contains 4294967295 = true →
      ¬ (c.maxAspect.any fun max => Float64.lt max (aspectOf width 4294967295)) = true) :
    Run.Finds (largestHeightForWidth c heights width : Run ε (Option ℕ))
      (∃ height, heights.contains height = true ∧ aspectIsLegal c width height = true) := by
  rw [largestHeightForWidth_eq hpos]
  refine largestFrom_finds hpos (fun v h₁ h₂ => aspectIsLegal_iff_height hc h₁ h₂) rfl rfl
    (fun v h₁ _ => goUp_height_iff hc h₁) fun hlast => ?_
  exact not_lt.mp ((goUp_height_iff hc (by norm_num)).not.mp (hmax hlast))

omit hc in
theorem largestWidthForHeight_eq {widths : LegalDimensionLattice} (hpos : 1 ≤ widths.lower) (height : ℕ) :
    (largestWidthForHeight c widths height : Run ε (Option ℕ)) =
      largestFrom widths (max widths.lower (clampInt ((c.minAspect.map fun a => ⌈(height : ℚ) * a⌉).getD 0)))
        (min widths.upper (clampInt ((c.maxAspect.map fun a => ⌊(height : ℚ) * a⌋).getD 4294967295)))
        (fun width => aspectIsLegal c width height)
        fun width => c.minAspect.any fun min => Float64.lt (aspectOf width height) min := by
  have hceil : ∀ a : ℚ, (ceilAspectProduct height a : Run ε ℕ) = .ok (clampInt ⌈(height : ℚ) * a⌉) :=
    fun a => clampDimension_intCast _
  have hfloor : ∀ a : ℚ, (floorAspectProduct height a : Run ε ℕ) = .ok (clampInt ⌊(height : ℚ) * a⌋) :=
    fun a => clampDimension_intCast _
  rw [largestWidthForHeight, tighten_max hpos _ hceil, Run.ok_bind, tighten_min widths.upper_le _ hfloor, Run.ok_bind]

omit hc in
theorem goUp_width_iff {height v : ℕ} (hh : 1 ≤ height) :
    (c.minAspect.any fun min => Float64.lt (aspectOf v height) min) = true ↔
      (v : ℤ) < (c.minAspect.map fun a => ⌈(height : ℚ) * a⌉).getD 0 := by
  have hheight : (0 : ℚ) < height := by exact_mod_cast hh
  cases hm : c.minAspect with
  | none => simp
  | some a =>
    simp only [Option.any_some, Exact.lt_iff, aspectOf, Exact.div_eq, Exact.ofNat_eq, Option.map_some,
      Option.getD_some]
    rw [Int.lt_ceil, Int.cast_natCast, div_lt_iff₀ hheight, mul_comm]

omit hc in
theorem largestWidthForHeight_finds {widths : LegalDimensionLattice} (hpos : 1 ≤ widths.lower) {height : ℕ}
    (hh : 1 ≤ height) (hmax : widths.contains 4294967295 = true →
      ¬ (c.minAspect.any fun min => Float64.lt (aspectOf 4294967295 height) min) = true) :
    Run.Finds (largestWidthForHeight c widths height : Run ε (Option ℕ))
      (∃ width, widths.contains width = true ∧ aspectIsLegal c width height = true) := by
  rw [largestWidthForHeight_eq hpos]
  refine largestFrom_finds hpos (fun v h₁ h₂ => aspectIsLegal_iff_width hh h₂) rfl rfl
    (fun v _ _ => goUp_width_iff hh) fun hlast => ?_
  exact not_lt.mp ((goUp_width_iff hh).not.mp (hmax hlast))

end Aspects

/-! ### Pairs -/

def GreatestPair (c : LayoutConstraints ℚ) (widths heights : LegalDimensionLattice) (w h : ℕ) : Prop :=
  (widths.contains w = true ∧ heights.contains h = true ∧ aspectIsLegal c w h = true) ∧
    ∀ w' h', widths.contains w' = true → heights.contains h' = true → aspectIsLegal c w' h' = true → w' ≤ w ∧ h' ≤ h

def Settles (c : LayoutConstraints ℚ) (widths heights : LegalDimensionLattice) : Option (ℕ × ℕ) → Prop
  | none => ∀ w h, widths.contains w = true → heights.contains h = true → ¬aspectIsLegal c w h = true
  | some (w, h) => GreatestPair c widths heights w h

section Pairs
variable {c : LayoutConstraints ℚ} {widths heights : LegalDimensionLattice} {w h w' h' : ℕ}

/-- The search over widths asks for a height of a width that is too large for `u32::MAX`, although not all widths
are. -/
def EndlessWidths (c : LayoutConstraints ℚ) (widths heights : LegalDimensionLattice) : Prop :=
  heights.contains 4294967295 = true ∧ ∃ max, c.maxAspect = some max ∧
    (∃ w, widths.contains w = true ∧ (w : ℚ) / 4294967295 ≤ max) ∧
      ∃ w, widths.contains w = true ∧ max < (w : ℚ) / 4294967295

/-- The search over heights asks for a width of a height that is too large for `u32::MAX`, although not all heights
are. -/
def EndlessHeights (c : LayoutConstraints ℚ) (widths heights : LegalDimensionLattice) : Prop :=
  widths.contains 4294967295 = true ∧ ∃ min, c.minAspect = some min ∧
    (∃ h, heights.contains h = true ∧ min ≤ (4294967295 : ℚ) / h) ∧
      ∃ h, heights.contains h = true ∧ (4294967295 : ℚ) / h < min

theorem aspectIsLegal_iff : aspectIsLegal c w h = true ↔
    (∀ a, c.minAspect = some a → a ≤ (w : ℚ) / h) ∧ ∀ a, c.maxAspect = some a → (w : ℚ) / h ≤ a := by
  simp only [aspectIsLegal, Bool.and_eq_true, Option.all_eq_true, Exact.le_iff, aspectOf, Exact.div_eq, Exact.ofNat_eq]

theorem any_lt_iff {aspect : Option ℚ} {q : ℚ} :
    (aspect.any fun a => Float64.lt a q) = true ↔ ∃ a, aspect = some a ∧ a < q := by
  simp only [Option.any_eq_true, Exact.lt_iff]

theorem any_gt_iff {aspect : Option ℚ} {q : ℚ} :
    (aspect.any fun a => Float64.lt q a) = true ↔ ∃ a, aspect = some a ∧ q < a := by
  simp only [Option.any_eq_true, Exact.lt_iff]

def TooWide (c : LayoutConstraints ℚ) (w h : ℕ) : Prop := ∃ a, c.maxAspect = some a ∧ a < (w : ℚ) / h

def TooTall (c : LayoutConstraints ℚ) (w h : ℕ) : Prop := ∃ a, c.minAspect = some a ∧ (w : ℚ) / h < a

theorem div_mono (hw : w ≤ w') (hh : h' ≤ h) (hpos : 1 ≤ h') : (w : ℚ) / h ≤ w' / h' := by
  have h₁ : (0 : ℚ) < h' := by exact_mod_cast hpos
  gcongr

theorem TooWide.mono (hw : w ≤ w') (hh : h' ≤ h) (hpos : 1 ≤ h') (hout : TooWide c w h) : TooWide c w' h' := by
  obtain ⟨a, ha, hlt⟩ := hout
  exact ⟨a, ha, hlt.trans_le (div_mono hw hh hpos)⟩

theorem TooTall.mono (hw : w' ≤ w) (hh : h ≤ h') (hpos : 1 ≤ h) (hout : TooTall c w h) : TooTall c w' h' := by
  obtain ⟨a, ha, hlt⟩ := hout
  exact ⟨a, ha, (div_mono hw hh hpos).trans_lt hlt⟩

theorem legal_iff_between : aspectIsLegal c w h = true ↔ ¬TooWide c w h ∧ ¬TooTall c w h := by
  rw [aspectIsLegal_iff, and_comm, TooWide, TooTall]
  simp only [not_exists, not_and, not_lt]

theorem widths_balanced (hc : c.AspectsPositive) (hh : 1 ≤ heights.lower) :
    Balanced widths heights (continuousWidthIntervalCanIntersect c heights)
      (largestHeightForWidth c heights : ℕ → Run ε (Option ℕ)) (fun w h => aspectIsLegal c w h = true)
      (TooWide c) (TooTall c) where
  legal_iff w h := legal_iff_between
  above_mono hw hle _ hpos := TooWide.mono hw hle (hh.trans hpos)
  below_mono hw hle _ hpos := TooTall.mono hw hle (hh.trans hpos)
  can_iff low high := by
    rw [continuousWidthIntervalCanIntersect, Bool.and_eq_true, Bool.not_eq_true', Bool.not_eq_true', ← Bool.not_eq_true,
      ← Bool.not_eq_true, any_lt_iff, any_gt_iff]
    rfl
  finds w hw hmax := largestHeightForWidth_finds hc hh w fun hlast hup => hmax ⟨hlast, any_lt_iff.mp hup⟩
  greatest w h hw hcompleted := by
    rw [largestHeightForWidth_eq hh] at hcompleted
    exact ⟨largestFrom_sound hcompleted, fun h' => largestFrom_greatest hh
      (fun v h₁ h₂ => aspectIsLegal_iff_height hc h₁ h₂) rfl rfl hcompleted⟩

theorem heights_balanced (hw : 1 ≤ widths.lower) (hh : 1 ≤ heights.lower) :
    Balanced heights widths (continuousHeightIntervalCanIntersect c widths)
      (largestWidthForHeight c widths : ℕ → Run ε (Option ℕ)) (fun h w => aspectIsLegal c w h = true)
      (fun h w => TooTall c w h) fun h w => TooWide c w h where
  legal_iff h w := legal_iff_between.trans and_comm
  above_mono hle hw hpos _ := TooTall.mono hw hle (hh.trans hpos)
  below_mono hle hw hpos _ := TooWide.mono hw hle (hh.trans hpos)
  can_iff low high := by
    rw [continuousHeightIntervalCanIntersect, Bool.and_eq_true, Bool.not_eq_true', Bool.not_eq_true',
      ← Bool.not_eq_true, ← Bool.not_eq_true, any_lt_iff, any_gt_iff, and_comm]
    rfl
  finds h hmem hmax := largestWidthForHeight_finds hw (hh.trans (contains_iff.mp hmem).1)
    fun hlast hup => hmax ⟨hlast, any_gt_iff.mp hup⟩
  greatest h w hmem hcompleted := by
    rw [largestWidthForHeight_eq hw] at hcompleted
    exact ⟨largestFrom_sound hcompleted, fun w' => largestFrom_greatest hw
      (fun v _ h₂ => aspectIsLegal_iff_width (hh.trans (contains_iff.mp hmem).1) h₂) rfl rfl hcompleted⟩

theorem searchWidths_settles (hc : c.AspectsPositive) (hh : 1 ≤ heights.lower)
    (hends : ¬EndlessWidths c widths heights) :
    ∃ r, (searchWidths c widths heights 0 (widths.cardinality - 1) : Run ε (Option (ℕ × ℕ))) = .ok r ∧
      Settles c widths heights r := by
  have hbalanced : Balanced widths heights _ _ _ _ _ := widths_balanced (ε := ε) hc hh
  obtain ⟨r, hr, hnone, hsome⟩ := hbalanced.settles (by
    rintro ⟨hlast, ⟨w, hw, hfits⟩, w', hw', max, hmax, hlt⟩
    refine hends ⟨hlast, max, hmax, ⟨w, hw, ?_⟩, w', hw', by simpa using hlt⟩
    by_contra hout
    exact hfits ⟨max, hmax, by simpa using hout⟩)
  refine ⟨r, hr, ?_⟩
  cases r with
  | none => exact hnone rfl
  | some pair => exact hsome _ _ rfl

theorem searchHeights_settles (hw : 1 ≤ widths.lower) (hh : 1 ≤ heights.lower)
    (hends : ¬EndlessHeights c widths heights) :
    ∃ r, (searchHeights c heights widths 0 (heights.cardinality - 1) : Run ε (Option (ℕ × ℕ))) = .ok r ∧
      Settles c widths heights r := by
  obtain ⟨r, hr, hnone, hsome⟩ := (heights_balanced (ε := ε) (c := c) hw hh).settles (by
    rintro ⟨hlast, ⟨h, hmh, hfits⟩, h', hmh', min, hmin, hlt⟩
    refine hends ⟨hlast, min, hmin, ⟨h, hmh, ?_⟩, h', hmh', by simpa using hlt⟩
    by_contra hout
    exact hfits ⟨min, hmin, by simpa using hout⟩)
  refine ⟨r.map Prod.swap, by rw [searchHeights, hr]; rfl, ?_⟩
  cases r with
  | none => exact fun w h hmw hmh => hnone rfl h w hmh hmw
  | some pair =>
    obtain ⟨⟨hmh, hmw, hlegal⟩, hgreatest⟩ := hsome _ _ rfl
    exact ⟨⟨hmw, hmh, hlegal⟩, fun w h hmw hmh hlegal => (hgreatest h w hmh hmw hlegal).symm⟩

theorem findBestLatticePairWithStats_finds (hc : c.AspectsPositive) (hw : 1 ≤ widths.lower) (hh : 1 ≤ heights.lower)
    (hmax : (widths.upper < 4294967295 ∧ heights.upper < 4294967295) ∨ (c.minAspect = none ∧ c.maxAspect = none)) :
    Run.Finds (findBestLatticePairWithStats c widths heights : Run ε (Option (ℕ × ℕ)))
      (∃ w h, widths.contains w = true ∧ heights.contains h = true ∧ aspectIsLegal c w h = true) := by
  have hfinds : ∀ r, Settles c widths heights r → (r.isSome = true ↔
      ∃ w h, widths.contains w = true ∧ heights.contains h = true ∧ aspectIsLegal c w h = true) := by
    intro r hr
    cases r with
    | none =>
      refine iff_of_false Bool.false_ne_true ?_
      rintro ⟨w, h, hmw, hmh, hlegal⟩
      exact hr w h hmw hmh hlegal
    | some pair => exact iff_of_true rfl ⟨pair.1, pair.2, hr.1⟩
  unfold findBestLatticePairWithStats
  split_ifs
  · have hends : ¬EndlessWidths c widths heights := by
      rintro ⟨hlast, a, ha, -⟩
      rcases hmax with ⟨-, hupper⟩ | ⟨-, hnone⟩
      · exact absurd (upper_of_last hlast) hupper.ne
      · cases hnone.symm.trans ha
    obtain ⟨r, hr, hsettles⟩ := searchWidths_settles (ε := ε) hc hh hends
    exact ⟨r, hr, hfinds r hsettles⟩
  · have hends : ¬EndlessHeights c widths heights := by
      rintro ⟨hlast, a, ha, -⟩
      rcases hmax with ⟨hupper, -⟩ | ⟨hnone, -⟩
      · exact absurd (upper_of_last hlast) hupper.ne
      · cases hnone.symm.trans ha
    obtain ⟨r, hr, hsettles⟩ := searchHeights_settles (ε := ε) hw hh hends
    exact ⟨r, hr, hfinds r hsettles⟩

end Pairs

/-! ### Client rectangles -/

variable {c : LayoutConstraints ℚ}

namespace LayoutConstraints

structure MinimaPositive {F : Type} (c : LayoutConstraints F) : Prop where
  width : ∀ m, c.minWidth = some m → 1 ≤ m.val
  height : ∀ m, c.minHeight = some m → 1 ≤ m.val

def Degenerate (c : LayoutConstraints ℚ) : Prop :=
  ∃ a, c.minAspect = some a ∧ c.maxAspect = some a ∧ a ≤ 1 / 100000000000000

def AspectUsable (c : LayoutConstraints ℚ) : Prop :=
  ∀ ratio, c.exactAspect = some ratio → ratio.numerator ≠ 0 ∧ ratio.denominator ≠ 0

def Admits (c : LayoutConstraints ℚ) (w h : ℕ) : Prop :=
  match c.exactAspect with
  | some ratio => ∃ k, 1 ≤ k ∧ w = k * ratio.numerator ∧ h = k * ratio.denominator
  | none => aspectIsLegal c w h = true

def Fits (c : LayoutConstraints ℚ) (W H : ℕ) : Prop :=
  ∃ widths heights w h, c.widthLattice = some widths ∧ c.heightLattice = some heights ∧
    widths.contains w = true ∧ heights.contains h = true ∧ c.Admits w h ∧ w ≤ W ∧ h ≤ H

variable {c : LayoutConstraints ℚ}

theorem Fits.mono {W W' H H' : ℕ} (h : c.Fits W H) (hW : W ≤ W') (hH : H ≤ H') : c.Fits W' H' := by
  obtain ⟨widths, heights, w, v, hw, hh, hmw, hmh, ha, hle₁, hle₂⟩ := h
  exact ⟨widths, heights, w, v, hw, hh, hmw, hmh, ha, hle₁.trans hW, hle₂.trans hH⟩

theorem aspectsPositive_of_validate (h : c.validate = .ok ()) : c.AspectsPositive := by
  have key : ∀ aspect : Option ℚ, aspectInvalid aspect = false → ∀ a, aspect = some a → 0 < a := by
    rintro _ hinv a rfl
    simp only [aspectInvalid, Option.any_some, Bool.or_eq_false_iff, ← Bool.not_eq_true (Float64.le _ _),
      Exact.le_iff, Exact.ofRat_eq] at hinv
    exact not_le.mp hinv.2
  unfold validate at h
  split_ifs at h with h₁ h₂ h₃ h₄ h₅ h₆ h₇
  exact ⟨key _ (by simpa using h₅), key _ (by simpa using h₆)⟩

theorem aspectUsable_of_not_degenerate (hdeg : ¬ c.Degenerate) : c.AspectUsable := by
  intro ratio h
  unfold exactAspect at h
  split at h
  · rename_i a b hmin hmax
    split_ifs at h with hsame
    obtain rfl : a = b := by simpa using hsame
    obtain ⟨hden, hnum⟩ := fromF64_pos h
    exact ⟨hnum (not_le.mp fun hle => hdeg ⟨a, hmin, hmax, hle⟩), hden⟩
  · simp at h

theorem Degenerate.not_aspectUsable (h : c.Degenerate) (hv : c.validate = .ok ()) : ¬ c.AspectUsable := by
  obtain ⟨a, hmin, hmax, hle⟩ := h
  have hpos : 0 < a := (aspectsPositive_of_validate hv).min a hmin
  intro husable
  have hexact : c.exactAspect = some ⟨0, 1⟩ := by
    rw [exactAspect, hmin, hmax]
    simp only [Exact.sameBits_iff, if_true]
    exact fromF64_tiny hpos hle
  exact (husable _ hexact).1 rfl

def OffersIn (c : LayoutConstraints ℚ) (W H : ℕ) : Prop :=
  ∃ widths heights w h, c.widthLattice = some widths ∧ c.heightLattice = some heights ∧
    widths.contains w = true ∧ heights.contains h = true ∧ w ≤ W ∧ h ≤ H

theorem OffersIn.mono {W W' H H' : ℕ} (h : c.OffersIn W H) (hW : W ≤ W') (hH : H ≤ H') : c.OffersIn W' H' := by
  obtain ⟨widths, heights, w, v, hw, hh, hmw, hmh, hle₁, hle₂⟩ := h
  exact ⟨widths, heights, w, v, hw, hh, hmw, hmh, hle₁.trans hW, hle₂.trans hH⟩

end LayoutConstraints

variable {min max base increment : Option U32}

theorem exists_cut {l : LegalDimensionLattice} {v limit : ℕ}
    (hl : new min max base increment = some l) (hv : l.contains v = true)
    (hle : v ≤ limit) : ∃ lo hi, l.alignUp l.lower = some lo ∧ l.alignDown limit = some hi ∧
      (new (some (toU32 lo)) (some (toU32 hi)) base increment).isSome = true := by
  obtain ⟨hlower, -, hanchor, -⟩ := new_eq_some hl
  have hvl := (contains_iff.mp hv).1
  cases hlo : l.alignUp l.lower with
  | none => exact absurd (alignUp_eq_none hlo hv) (by omega)
  | some lo =>
    cases hhi : l.alignDown limit with
    | none => exact absurd (alignDown_eq_none hhi hv) (by omega)
    | some hi =>
      obtain ⟨hlomem, hlole, hleast⟩ := alignUp_eq_some hlo
      obtain ⟨himem, -, -⟩ := alignDown_eq_some hhi
      have hup := (contains_iff.mp himem).2.1.trans l.upper_le
      have hlohi := hleast hi himem (contains_iff.mp himem).1
      refine ⟨lo, hi, rfl, rfl, ?_⟩
      rw [new, dif_pos]
      · rfl
      simp only [Option.map_some, Option.getD_some, toU32_val hup, toU32_val (hlohi.trans hup)]
      cases base with
      | none => simp only [Option.map_none, Option.getD_none]; omega
      | some b => simp only [Option.map_some, Option.getD_some] at hlower ⊢; omega

variable {tile : LayoutRect}

theorem tileLattices_isSome {w h : ℕ} (hw : c.widthLattice = some widths) (hh : c.heightLattice = some heights)
    (hmw : widths.contains w = true) (hmh : heights.contains h = true) (hwle : w ≤ tile.width.val)
    (hhle : h ≤ tile.height.val) : (tileLattices c tile).isSome = true := by
  obtain ⟨wlo, whi, h₁, h₂, h₃⟩ := exists_cut hw hmw hwle
  obtain ⟨hlo, hhi, h₄, h₅, h₆⟩ := exists_cut hh hmh hhle
  obtain ⟨wl, h₃⟩ := Option.isSome_iff_exists.mp h₃
  obtain ⟨hl, h₆⟩ := Option.isSome_iff_exists.mp h₆
  simp [tileLattices, minimumDimension, maximumDimension, hw, hh, h₁, h₂, h₃, h₄, h₅, h₆]

theorem tileLattices_isSome_iff :
    (tileLattices c tile).isSome = true ↔ c.OffersIn tile.width.val tile.height.val := by
  constructor
  · intro h
    obtain ⟨⟨widths, heights⟩, hlat⟩ := Option.isSome_iff_exists.mp h
    obtain ⟨w, l, hw, hl, ⟨_, hi, -, hhi, -⟩, ⟨_, hi', -, hhi', -⟩⟩ := tileLattices_eq_some hlat
    obtain ⟨hmem, hle, -⟩ := alignDown_eq_some hhi
    obtain ⟨hmem', hle', -⟩ := alignDown_eq_some hhi'
    exact ⟨w, l, hi, hi', hw, hl, hmem, hmem', hle, hle'⟩
  · rintro ⟨widths, heights, w, v, hw, hh, hmw, hmh, hwle, hhle⟩
    exact tileLattices_isSome hw hh hmw hmh hwle hhle

theorem one_le_lower {l : LegalDimensionLattice} (hl : new min max base increment = some l)
    (hmin : ∀ m, min = some m → 1 ≤ m.val) : 1 ≤ l.lower := by
  obtain ⟨hlower, -⟩ := new_eq_some hl
  cases min with
  | none => simp [hlower]
  | some m => simp [hlower, hmin m rfl]

theorem CutTo.pos {limit : ℕ} {l l' : LegalDimensionLattice}
    (h : CutTo base increment limit l l') (hmin : ∀ m, min = some m → 1 ≤ m.val)
    (hl : new min max base increment = some l) : 1 ≤ l'.lower ∧ l'.upper ≤ limit := by
  obtain ⟨lo, hi, hlo, hhi, hl'⟩ := h
  obtain ⟨hlower', hupper', -⟩ := new_eq_some hl'
  obtain ⟨hlomem, hlole, -⟩ := alignUp_eq_some hlo
  obtain ⟨himem, hile, -⟩ := alignDown_eq_some hhi
  have hup := (contains_iff.mp himem).2.1.trans l.upper_le
  have hloup := (contains_iff.mp hlomem).2.1.trans l.upper_le
  have hone := one_le_lower hl hmin
  simp only [Option.map_some, Option.getD_some, toU32_val hloup] at hlower'
  simp only [Option.getD_some, toU32_val hup] at hupper'
  omega

theorem findBestLatticePair_finds (hc : c.AspectsPositive) (hasp : c.AspectUsable)
    (hw : 1 ≤ widths.lower) (hh : 1 ≤ heights.lower)
    (hmax : (widths.upper < 4294967295 ∧ heights.upper < 4294967295) ∨ (c.minAspect = none ∧ c.maxAspect = none)) :
    Run.Finds (findBestLatticePair c widths heights : Run ε (Option (ℕ × ℕ)))
      (∃ w h, widths.contains w = true ∧ heights.contains h = true ∧ c.Admits w h) := by
  unfold findBestLatticePair LayoutConstraints.Admits
  cases hex : c.exactAspect with
  | none => exact findBestLatticePairWithStats_finds hc hw hh hmax
  | some ratio =>
    obtain ⟨hnum, hden⟩ := hasp ratio hex
    have hok : ∃ r, (largestExactAspectPair widths heights ratio : Run ε _) = .ok r := by
      rw [largestExactAspectPair, if_neg (by simp [hnum, hden])]
      exact ⟨_, rfl⟩
    obtain ⟨r, hr⟩ := hok
    refine ⟨r, hr, ?_⟩
    cases r with
    | some pair =>
      obtain ⟨k, hk, h₁, h₂, hmw, hmh⟩ := largestExactAspectPair_sound hr
      simp only [Option.isSome_some, true_iff]
      exact ⟨_, _, hmw, hmh, k, hk, h₁, h₂⟩
    | none =>
      simp only [Option.isSome_none, Bool.false_eq_true, false_iff]
      rintro ⟨_, _, hmw, hmh, k, hk, rfl, rfl⟩
      exact largestExactAspectPair_complete hr hk hmw hmh

/-- With positive minima, usable aspects and a tile below `u32::MAX`, the search returns, and it finds
a client rectangle exactly when a legal size fits. -/
theorem resolveClientRect_finds (hv : c.validate = .ok ()) (hpos : c.MinimaPositive) (hasp : c.AspectUsable)
    (hmax : (tile.width.val < 4294967295 ∧ tile.height.val < 4294967295) ∨
      (c.minAspect = none ∧ c.maxAspect = none)) :
    (c.Fits tile.width.val tile.height.val ∧ ∃ client, resolveClientRectWithinTile tile c = .ok client) ∨
      (¬ c.Fits tile.width.val tile.height.val ∧
        resolveClientRectWithinTile tile c = .error (.error .infeasible)) := by
  rw [resolveClientRectWithinTile, hv]
  simp only
  cases hlat : tileLattices c tile with
  | none =>
    refine .inr ⟨?_, rfl⟩
    rintro ⟨widths, heights, w, h, hw, hh, hmw, hmh, -, hwle, hhle⟩
    simpa [hlat] using tileLattices_isSome hw hh hmw hmh hwle hhle
  | some pair =>
    obtain ⟨widths, heights⟩ := pair
    obtain ⟨w, l, hw, hl, hcw, hcl⟩ := tileLattices_eq_some hlat
    obtain ⟨hwl, hwu⟩ := hcw.pos hpos.width hw
    obtain ⟨hhl, hhu⟩ := hcl.pos hpos.height hl
    obtain ⟨w', l', hw', hl', hwiff, hliff⟩ := tileLattices_contains hlat
    obtain rfl : w = w' := Option.some.inj (hw.symm.trans hw')
    obtain rfl : l = l' := Option.some.inj (hl.symm.trans hl')
    obtain ⟨r, hr, hiff⟩ := findBestLatticePair_finds (ε := ClientRectError) (c.aspectsPositive_of_validate hv) hasp
      hwl hhl (hmax.imp_left fun h => ⟨by omega, by omega⟩)
    have hfits : r.isSome = true ↔ c.Fits tile.width.val tile.height.val := by
      rw [hiff]
      constructor
      · rintro ⟨a, b, hma, hmb, hadm⟩
        obtain ⟨hma, hale⟩ := (hwiff a).mp hma
        obtain ⟨hmb, hble⟩ := (hliff b).mp hmb
        exact ⟨w, l, a, b, hw, hl, hma, hmb, hadm, hale, hble⟩
      · rintro ⟨w₂, l₂, a, b, hw₂, hl₂, hma, hmb, hadm, hale, hble⟩
        obtain rfl : w = w₂ := Option.some.inj (hw.symm.trans hw₂)
        obtain rfl : l = l₂ := Option.some.inj (hl.symm.trans hl₂)
        exact ⟨a, b, (hwiff a).mpr ⟨hma, hale⟩, (hliff b).mpr ⟨hmb, hble⟩, hadm⟩
    simp only [Run.okOr_some, Run.ok_bind, hr]
    cases r with
    | none => exact .inr ⟨by simpa using hfits, rfl⟩
    | some pair =>
      obtain ⟨a, b⟩ := pair
      refine .inl ⟨hfits.mp rfl, ?_⟩
      obtain ⟨hma, hmb⟩ := findBestLatticePair_contains hr
      have ha := contains_iff.mp hma
      have hb := contains_iff.mp hmb
      have hau := widths.upper_le
      have hbu := heights.upper_le
      simp only [Run.okOr_some, Run.ok_bind, LayoutRect.new]
      rw [dif_pos ⟨by rw [toU32_val (by omega)]; omega, by rw [toU32_val (by omega)]; omega⟩]
      exact ⟨_, rfl⟩

theorem LayoutConstraints.Fits.aspectUsable {W H : ℕ} (h : c.Fits W H)
    (hpos : c.MinimaPositive) : c.AspectUsable := by
  obtain ⟨widths, heights, w, v, hw, hh, hmw, hmh, hadm, -, -⟩ := h
  intro ratio hratio
  simp only [LayoutConstraints.Admits, hratio] at hadm
  obtain ⟨k, -, rfl, rfl⟩ := hadm
  have hwpos := (one_le_lower hw hpos.width).trans (contains_iff.mp hmw).1
  have hhpos := (one_le_lower hh hpos.height).trans (contains_iff.mp hmh).1
  constructor
  · rintro hzero
    simp [hzero] at hwpos
  · rintro hzero
    simp [hzero] at hhpos

theorem resolveClientRect_zero (h : ¬ c.AspectUsable) (hv : c.validate = .ok ()) (tile : LayoutRect) :
    (c.OffersIn tile.width.val tile.height.val ∧
        resolveClientRectWithinTile tile c = .error (.panic "attempt to divide by zero")) ∨
      (¬ c.OffersIn tile.width.val tile.height.val ∧
        resolveClientRectWithinTile tile c = .error (.error .infeasible)) := by
  unfold LayoutConstraints.AspectUsable at h
  push Not at h
  obtain ⟨ratio, hratio, hzero⟩ := h
  rw [← tileLattices_isSome_iff, resolveClientRectWithinTile, hv]
  cases hlat : tileLattices c tile with
  | none => exact .inr ⟨by simp, rfl⟩
  | some pair =>
    refine .inl ⟨rfl, ?_⟩
    simp only [Run.okOr_some, Run.ok_bind, findBestLatticePair, hratio, largestExactAspectPair]
    rw [if_pos (or_iff_not_imp_left.mpr hzero)]
    rfl

end Typhon.Layout
