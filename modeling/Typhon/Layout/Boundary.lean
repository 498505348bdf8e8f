import Typhon.Layout.Tiling

/-! The boundary of one split with exact ratios: which offsets between two limits a split can take,
and the sizes of the two sides. -/

namespace Typhon.Layout
open Foundation LayoutRect

/-! ### Rounding -/

theorem roundHalfAway_eq_iff {q : ℚ} (h : 0 ≤ q) {z : ℤ} :
    roundHalfAway q = z ↔ (z : ℚ) - 1 / 2 ≤ q ∧ q < z + 1 / 2 := by
  rw [roundHalfAway, if_pos h, Int.floor_eq_iff]
  constructor
  · rintro ⟨h₁, h₂⟩
    exact ⟨by linarith, by linarith⟩
  · rintro ⟨h₁, h₂⟩
    exact ⟨by linarith, by linarith⟩

theorem roundHalfAway_mono {p q : ℚ} (hp : 0 ≤ p) (h : p ≤ q) : roundHalfAway p ≤ roundHalfAway q := by
  rw [roundHalfAway, roundHalfAway, if_pos hp, if_pos (hp.trans h)]
  exact Int.floor_le_floor (by linarith)

theorem roundHalfAway_natCast (n : ℕ) : roundHalfAway (n : ℚ) = n := by
  rw [roundHalfAway_eq_iff (Nat.cast_nonneg n)]
  push_cast
  constructor <;> linarith

def lowShare (extent : ℕ) : ℕ := (extent + 10) / 20

def highShare (extent : ℕ) : ℕ := (19 * extent + 10) / 20

theorem round_low (e : ℕ) : roundHalfAway ((e : ℚ) * (1 / 20)) = lowShare e := by
  have h₁ : 20 * lowShare e ≤ e + 10 := by unfold lowShare; omega
  have h₂ : e + 10 < 20 * lowShare e + 20 := by unfold lowShare; omega
  rw [roundHalfAway_eq_iff (by positivity)]
  have h₁' : (20 * lowShare e : ℚ) ≤ e + 10 := by exact_mod_cast h₁
  have h₂' : (e + 10 : ℚ) < 20 * lowShare e + 20 := by exact_mod_cast h₂
  push_cast
  constructor <;> linarith

theorem round_high (e : ℕ) : roundHalfAway ((e : ℚ) * (19 / 20)) = highShare e := by
  have h₁ : 20 * highShare e ≤ 19 * e + 10 := by unfold highShare; omega
  have h₂ : 19 * e + 10 < 20 * highShare e + 20 := by unfold highShare; omega
  rw [roundHalfAway_eq_iff (by positivity)]
  have h₁' : (20 * highShare e : ℚ) ≤ 19 * e + 10 := by exact_mod_cast h₁
  have h₂' : (19 * e + 10 : ℚ) < 20 * highShare e + 20 := by exact_mod_cast h₂
  push_cast
  constructor <;> linarith

/-! ### Ratios -/

theorem SplitRatio.accepts_iff {value : ℚ} :
    SplitRatio.accepts value = true ↔ 1 / 20 ≤ value ∧ value ≤ 19 / 20 := by
  simp [SplitRatio.accepts, SplitRatio.min, SplitRatio.max]

theorem SplitRatio.new_of_mem {value : ℚ} (h : 1 / 20 ≤ value ∧ value ≤ 19 / 20) :
    SplitRatio.new value = some ⟨value, SplitRatio.accepts_iff.mpr h⟩ := by
  rw [SplitRatio.new, dif_pos]

theorem SplitRatio.mem (ratio : SplitRatio ℚ) : 1 / 20 ≤ ratio.value ∧ ratio.value ≤ 19 / 20 :=
  SplitRatio.accepts_iff.mp ratio.accepted

namespace SplitRatioRange
variable {ε : Type}

theorem new_of_le {min max : ℚ} (h : Max.max min (1 / 20) ≤ Min.min max (19 / 20)) :
    ∃ range : SplitRatioRange ℚ, (new min max : Run ε _) = .ok (some range) ∧
      range.min.value = Max.max min (1 / 20) ∧ range.max.value = Min.min max (19 / 20) := by
  have hmin : 1 / 20 ≤ Max.max min (1 / 20) ∧ Max.max min (1 / 20) ≤ 19 / 20 :=
    ⟨le_max_right _ _, h.trans (min_le_right _ _)⟩
  have hmax : 1 / 20 ≤ Min.min max (19 / 20) ∧ Min.min max (19 / 20) ≤ 19 / 20 :=
    ⟨(le_max_right _ _).trans h, min_le_right _ _⟩
  refine ⟨⟨⟨_, SplitRatio.accepts_iff.mpr hmin⟩, ⟨_, SplitRatio.accepts_iff.mpr hmax⟩⟩, ?_, rfl, rfl⟩
  simp only [new, SplitRatio.min, SplitRatio.max, Exact.ofRat_eq, Exact.max_eq, Exact.min_eq, Exact.le_iff]
  rw [if_pos h, SplitRatio.new_of_mem hmin, SplitRatio.new_of_mem hmax]
  rfl

theorem new_of_not_le {min max : ℚ} (h : ¬ Max.max min (1 / 20) ≤ Min.min max (19 / 20)) :
    (new min max : Run ε (Option (SplitRatioRange ℚ))) = .ok none := by
  simp only [new, SplitRatio.min, SplitRatio.max, Exact.ofRat_eq, Exact.max_eq, Exact.min_eq, Exact.le_iff]
  rw [if_neg h]

theorem clamp_eq_ok {range : SplitRatioRange ℚ} (h : range.min.value ≤ range.max.value) (ratio : SplitRatio ℚ) :
    ∃ effective : SplitRatio ℚ, (range.clamp ratio : Run ε _) = .ok effective ∧
      effective.value = Max.max range.min.value (Min.min ratio.value range.max.value) := by
  have hmem : 1 / 20 ≤ Max.max range.min.value (Min.min ratio.value range.max.value) ∧
      Max.max range.min.value (Min.min ratio.value range.max.value) ≤ 19 / 20 :=
    ⟨range.min.mem.1.trans (le_max_left _ _),
      max_le range.min.mem.2 ((min_le_left _ _).trans ratio.mem.2)⟩
  refine ⟨⟨_, SplitRatio.accepts_iff.mpr hmem⟩, ?_, rfl⟩
  rw [clamp, Exact.clamp_eq_ok h, Run.ok_bind, SplitRatio.new_of_mem hmem]
  rfl

end SplitRatioRange

/-! ### Sizes -/

abbrev Size := SplitAxis → ℕ

namespace LayoutRect

variable (r : LayoutRect)

def size : Size := fun axis => (r.extent axis).val

def room (axis : SplitAxis) : ℕ := min (r.size axis) 2147483647

theorem room_le (axis : SplitAxis) : r.room axis ≤ r.size axis := min_le_left _ _

theorem room_le_max (axis : SplitAxis) : r.room axis ≤ 2147483647 := min_le_right _ _

def EdgeFits (axis : SplitAxis) : Prop := (r.origin axis).val + r.size axis ≤ 2147483647

theorem Addressable.edgeFits {r : LayoutRect} (h : r.Addressable) (axis : SplitAxis) : r.EdgeFits axis := by
  cases axis
  · exact h.right
  · exact h.bottom

theorem size_pos (axis : SplitAxis) : 0 < r.size axis := r.extent_pos axis

theorem size_le (axis : SplitAxis) : r.size axis ≤ 4294967295 := (r.extent axis).property

theorem EdgeFits.far_val {r : LayoutRect} {axis : SplitAxis} (h : r.EdgeFits axis) :
    (r.far axis).val = (r.origin axis).val + r.room axis := by
  have hr : (r.origin axis).val + r.size axis ≤ 2147483647 := h
  have := (r.origin axis).property
  rw [far_eq, I32.saturatingAdd, I32.sat_val, U32.minI32_val, room]
  unfold size at hr ⊢
  push_cast
  omega

end LayoutRect

variable {boundary : I32} {axis : SplitAxis}

theorem LayoutRect.firstChild_size {r r₁ : LayoutRect} {k : ℕ}
    (hb : boundary.val = (r.origin axis).val + k) (h : r.firstChild axis boundary = some r₁) :
    r₁.size = Function.update r.size axis k ∧ ∀ a, r.EdgeFits a → k ≤ r.size axis → r₁.EdgeFits a := by
  obtain ⟨horigin, hcrossOrigin, hcross, -, hext⟩ := firstChild_eq_some.mp h
  have hk : (r₁.extent axis).val = k := by omega
  have hsize : r₁.size = Function.update r.size axis k := by
    funext a
    cases axis <;> cases a <;> simp_all [size, extent, cross]
  refine ⟨hsize, fun a ha hle => ?_⟩
  unfold EdgeFits at ha ⊢
  rw [hsize]
  cases axis <;> cases a <;> simp_all [origin, crossOrigin] <;> omega

theorem LayoutRect.secondChild_size {r r₂ : LayoutRect} {k : ℕ}
    (hr : r.EdgeFits axis) (hb : boundary.val = (r.origin axis).val + k)
    (h : r.secondChild axis boundary = some r₂) :
    k < r.room axis ∧ r₂.size = Function.update r.size axis (r.room axis - k) ∧
      ∀ a, r.EdgeFits a → r₂.EdgeFits a := by
  obtain ⟨horigin, hcrossOrigin, hcross, -, hext⟩ := secondChild_eq_some.mp h
  rw [hr.far_val, hb] at hext
  have hpos := r₂.extent_pos axis
  have hk : (r₂.extent axis).val = r.room axis - k := by omega
  have hsize : r₂.size = Function.update r.size axis (r.room axis - k) := by
    funext a
    cases axis <;> cases a <;> simp_all [size, extent, cross]
  refine ⟨by omega, hsize, fun a ha => ?_⟩
  have hroom := r.room_le axis
  unfold EdgeFits at ha ⊢
  rw [hsize]
  cases axis <;> cases a <;> simp_all [origin, crossOrigin] <;> omega

structure Halves (axis : SplitAxis) (k : ℕ) (r r₁ r₂ : LayoutRect) : Prop where
  first : r₁.size = Function.update r.size axis k
  second : r₂.size = Function.update r.size axis (r.room axis - k)
  edge₁ : ∀ a, r.EdgeFits a → r₁.EdgeFits a
  edge₂ : ∀ a, r.EdgeFits a → r₂.EdgeFits a

theorem halves_of_children {r r₁ r₂ : LayoutRect} {k : ℕ}
    (hr : r.EdgeFits axis) (hb : boundary.val = (r.origin axis).val + k)
    (h₁ : r.firstChild axis boundary = some r₁) (h₂ : r.secondChild axis boundary = some r₂) :
    1 ≤ k ∧ k < r.room axis ∧ Halves axis k r r₁ r₂ := by
  obtain ⟨hlt, hsize₂, hedge₂⟩ := secondChild_size hr hb h₂
  obtain ⟨hsize₁, hedge₁⟩ := firstChild_size hb h₁
  have hpos := r₁.size_pos axis
  rw [hsize₁, Function.update_self] at hpos
  have hroom := r.room_le axis
  exact ⟨hpos, hlt, hsize₁, hsize₂, fun a ha => hedge₁ a ha (by omega), hedge₂⟩

theorem exists_children {r : LayoutRect} {k : ℕ} (hr : r.EdgeFits axis)
    (hb : boundary.val = (r.origin axis).val + k) (hpos : 1 ≤ k) (hlt : k < r.room axis) :
    ∃ r₁ r₂, r.firstChild axis boundary = some r₁ ∧ r.secondChild axis boundary = some r₂ := by
  have hroom := r.room_le_max axis
  have hfar := hr.far_val
  cases axis with
  | horizontal =>
    exact ⟨⟨r.x, r.y, ⟨k, by omega⟩, r.height, hpos, r.height_pos⟩,
      ⟨boundary, r.y, ⟨r.room .horizontal - k, by omega⟩, r.height, Nat.sub_pos_of_lt hlt, r.height_pos⟩,
      firstChild_eq_some.mpr ⟨rfl, rfl, rfl, by simp only [extent]; omega,
        by simp only [extent]; omega⟩,
      secondChild_eq_some.mpr ⟨rfl, rfl, rfl, by simp only [extent]; omega,
        by simp only [extent]; omega⟩⟩
  | vertical =>
    exact ⟨⟨r.x, r.y, r.width, ⟨k, by omega⟩, r.width_pos, hpos⟩,
      ⟨r.x, boundary, r.width, ⟨r.room .vertical - k, by omega⟩, r.width_pos, Nat.sub_pos_of_lt hlt⟩,
      firstChild_eq_some.mpr ⟨rfl, rfl, rfl, by simp only [extent]; omega,
        by simp only [extent]; omega⟩,
      secondChild_eq_some.mpr ⟨rfl, rfl, rfl, by simp only [extent]; omega,
        by simp only [extent]; omega⟩⟩

/-! ### The offset a split takes -/

structure Bracket (e a c : ℕ) : Prop where
  le : a ≤ c
  low : 20 * a ≤ 19 * e
  high : e ≤ 20 * c

theorem bracket_iff {e a c : ℕ} (he : 0 < e) :
    Max.max ((a : ℚ) / e) (1 / 20) ≤ Min.min ((c : ℚ) / e) (19 / 20) ↔ Bracket e a c := by
  have hpos : (0 : ℚ) < e := by exact_mod_cast he
  rw [max_le_iff, le_min_iff, le_min_iff, div_le_div_iff_of_pos_right hpos, div_le_iff₀ hpos, le_div_iff₀ hpos]
  constructor
  · rintro ⟨⟨h₁, h₂⟩, h₃, -⟩
    refine ⟨by exact_mod_cast h₁, ?_, ?_⟩
    · have : (20 * a : ℚ) ≤ 19 * e := by linarith
      exact_mod_cast this
    · have : (e : ℚ) ≤ 20 * c := by linarith
      exact_mod_cast this
  · rintro ⟨h₁, h₂, h₃⟩
    have h₂' : (20 * a : ℚ) ≤ 19 * e := by exact_mod_cast h₂
    have h₃' : (e : ℚ) ≤ 20 * c := by exact_mod_cast h₃
    exact ⟨⟨by exact_mod_cast h₁, by linarith⟩, by linarith, by norm_num⟩

def boundedRatio (e a c : ℕ) (preferred : ℚ) : ℚ :=
  Max.max (Max.max ((a : ℚ) / e) (1 / 20)) (Min.min preferred (Min.min ((c : ℚ) / e) (19 / 20)))

def splitOffset (e a c : ℕ) (preferred : ℚ) : ℕ := (roundHalfAway (e * boundedRatio e a c preferred)).toNat

section Offset
variable {e a c : ℕ} (he : 0 < e) (h : Bracket e a c)
include he h

theorem boundedRatio_mem (preferred : ℚ) : Max.max (a : ℚ) (e * (1 / 20)) ≤ e * boundedRatio e a c preferred ∧
      e * boundedRatio e a c preferred ≤ Min.min (c : ℚ) (e * (19 / 20)) := by
  have hpos : (0 : ℚ) < e := by exact_mod_cast he
  have hle := (bracket_iff he).mpr h
  have h₁ : Max.max ((a : ℚ) / e) (1 / 20) ≤ boundedRatio e a c preferred := le_max_left _ _
  have h₂ : boundedRatio e a c preferred ≤ Min.min ((c : ℚ) / e) (19 / 20) := max_le hle (min_le_right _ _)
  rw [max_le_iff, div_le_iff₀ hpos] at h₁
  rw [le_min_iff, le_div_iff₀ hpos] at h₂
  rw [max_le_iff, le_min_iff]
  exact ⟨⟨by linarith, by nlinarith⟩, by linarith, by nlinarith⟩

theorem splitOffset_mem (preferred : ℚ) :
    max a (lowShare e) ≤ splitOffset e a c preferred ∧ splitOffset e a c preferred ≤ min c (highShare e) ∧
      (splitOffset e a c preferred : ℤ) = roundHalfAway (e * boundedRatio e a c preferred) := by
  obtain ⟨h₁, h₂⟩ := boundedRatio_mem he h preferred
  rw [max_le_iff] at h₁
  rw [le_min_iff] at h₂
  have hlow := roundHalfAway_mono (by positivity) h₁.2
  have ha := roundHalfAway_mono (Nat.cast_nonneg a) h₁.1
  have hnonneg : (0 : ℚ) ≤ e * boundedRatio e a c preferred := (Nat.cast_nonneg a).trans h₁.1
  have hc := roundHalfAway_mono hnonneg h₂.1
  have hhigh := roundHalfAway_mono hnonneg h₂.2
  rw [round_low] at hlow
  rw [round_high] at hhigh
  rw [roundHalfAway_natCast] at ha hc
  unfold splitOffset
  omega

theorem exists_splitOffset {k : ℕ} (hlow : max a (lowShare e) ≤ k) (hhigh : k ≤ min c (highShare e)) :
    ∃ preferred : SplitRatio ℚ, splitOffset e a c preferred.value = k := by
  have hpos : (0 : ℚ) < e := by exact_mod_cast he
  have hle := (bracket_iff he).mpr h
  -- the wanted share of the extent, moved into the ratios that exist
  refine ⟨⟨Max.max (1 / 20) (Min.min ((k : ℚ) / e) (19 / 20)), SplitRatio.accepts_iff.mpr
    ⟨le_max_left _ _, max_le (by norm_num) (min_le_right _ _)⟩⟩, ?_⟩
  have hak : (a : ℚ) / e ≤ k / e := by
    rw [div_le_div_iff_of_pos_right hpos]
    exact_mod_cast (le_max_left _ _).trans hlow
  have hkc : (k : ℚ) / e ≤ c / e := by
    rw [div_le_div_iff_of_pos_right hpos]
    exact_mod_cast hhigh.trans (min_le_left _ _)
  have hratio : boundedRatio e a c (Max.max (1 / 20) (Min.min ((k : ℚ) / e) (19 / 20))) =
      Max.max (1 / 20) (Min.min ((k : ℚ) / e) (19 / 20)) := by
    rw [boundedRatio, min_eq_left, max_eq_right]
    · exact max_le (le_max_of_le_right (le_min hak ((le_max_left _ _).trans (hle.trans (min_le_right _ _)))))
        (le_max_left _ _)
    · exact max_le ((le_max_right _ _).trans hle) (min_le_min_right _ hkc)
  have hround : roundHalfAway (e * Max.max (1 / 20) (Min.min ((k : ℚ) / e) (19 / 20))) = k := by
    rcases le_total ((k : ℚ) / e) (1 / 20) with hk | hk
    · rw [max_eq_left ((min_le_left _ _).trans hk), round_low]
      have : (20 * k : ℚ) ≤ e := by rw [div_le_iff₀ hpos] at hk; linarith
      have : 20 * k ≤ e := by exact_mod_cast this
      have : lowShare e ≤ k := (le_max_right _ _).trans hlow
      unfold lowShare at this ⊢
      omega
    · rcases le_total ((k : ℚ) / e) (19 / 20) with hk' | hk'
      · rw [min_eq_left hk', max_eq_right hk, mul_div_cancel₀ _ hpos.ne', roundHalfAway_natCast]
      · rw [min_eq_right hk', max_eq_right (by norm_num), round_high]
        have : (19 * e : ℚ) ≤ 20 * k := by rw [le_div_iff₀ hpos] at hk'; linarith
        have : 19 * e ≤ 20 * k := by exact_mod_cast this
        have : k ≤ highShare e := hhigh.trans (min_le_right _ _)
        unfold highShare at this ⊢
        omega
  rw [splitOffset, hratio, hround, Int.toNat_natCast]

end Offset

/-! ### A whole split -/

section Split
variable {r r₁ r₂ : LayoutRect} {axis : SplitAxis} {limits : I32 × I32} {a c : ℕ}

theorem splitBoundary_val (hr : r.EdgeFits axis) (ratio : SplitRatio ℚ) :
    (r.splitBoundary axis ratio).val = (r.origin axis).val + roundHalfAway (r.size axis * ratio.value) := by
  obtain ⟨hlow, hhigh⟩ := ratio.mem
  have hsize : (0 : ℚ) ≤ r.size axis := Nat.cast_nonneg _
  have h₁ := roundHalfAway_mono le_rfl (mul_nonneg hsize (by linarith : (0 : ℚ) ≤ ratio.value))
  have h₂ := roundHalfAway_mono (mul_nonneg hsize (by linarith : (0 : ℚ) ≤ ratio.value))
    (mul_le_of_le_one_right hsize (by linarith : ratio.value ≤ 1))
  rw [roundHalfAway_natCast] at h₂
  rw [← Nat.cast_zero, roundHalfAway_natCast] at h₁
  have hedge : (r.origin axis).val + r.size axis ≤ 2147483647 := hr
  have := (r.origin axis).property
  have hle := r.size_le axis
  unfold size at h₁ h₂ hedge hle ⊢
  simp only [splitBoundary, Exact.ofNat_eq, Exact.mul_eq, Exact.round_eq, I32.sat_val,
    Float64.asI64, Exact.toInt_intCast]
  omega

structure Offsets (r : LayoutRect) (axis : SplitAxis) (limits : I32 × I32) (a c : ℕ) : Prop where
  low : limits.1.val = (r.origin axis).val + a
  high : limits.2.val = (r.origin axis).val + c
  low_le : a ≤ 2147483647
  high_le : c ≤ 2147483647

namespace Offsets

theorem low_sub (h : Offsets r axis limits a c) : (limits.1.saturatingSub (r.origin axis)).val = a := by
  have := h.low
  have := h.low_le
  rw [I32.saturatingSub, I32.sat_val]
  omega

theorem high_sub (h : Offsets r axis limits a c) : (limits.2.saturatingSub (r.origin axis)).val = c := by
  have := h.high
  have := h.high_le
  rw [I32.saturatingSub, I32.sat_val]
  omega

end Offsets

theorem splitsInto_iff (hr : r.EdgeFits axis) (h : Offsets r axis limits a c) (preferred : SplitRatio ℚ) :
    SplitsInto axis preferred limits r r₁ r₂ ↔ Bracket (r.size axis) a c ∧ ∃ boundary : I32,
      boundary.val = (r.origin axis).val + splitOffset (r.size axis) a c preferred.value ∧
      r.firstChild axis boundary = some r₁ ∧ r.secondChild axis boundary = some r₂ := by
  have hpos := r.size_pos axis
  simp only [SplitsInto, h.low_sub, h.high_sub, Exact.ofInt_eq, Exact.ofNat_eq, Exact.div_eq, Int.cast_natCast]
  by_cases hb : Bracket (r.size axis) a c
  · obtain ⟨range, hrange, hmin, hmax⟩ := SplitRatioRange.new_of_le (ε := LayoutError) ((bracket_iff hpos).mpr hb)
    have hle : range.min.value ≤ range.max.value := by
      rw [hmin, hmax]
      exact (bracket_iff hpos).mpr hb
    obtain ⟨effective, heff, hval⟩ := SplitRatioRange.clamp_eq_ok (ε := LayoutError) hle preferred
    have hoffset := splitOffset_mem hpos hb preferred.value
    have hboundary : (r.splitBoundary axis effective).val =
        (r.origin axis).val + splitOffset (r.size axis) a c preferred.value := by
      rw [splitBoundary_val hr, hval, hmin, hmax, hoffset.2.2]
      rfl
    have hclamp : ∀ boundary : I32,
        ((r.splitBoundary axis effective).clamp limits.1 limits.2 : Run LayoutError I32) = .ok boundary ↔
          boundary.val = (r.origin axis).val + splitOffset (r.size axis) a c preferred.value := fun boundary => by
      have := h.low
      have := h.high
      have := hb.le
      rw [I32.clamp_eq_ok, hboundary]
      omega
    constructor
    · rintro ⟨range', effective', boundary, hr', he', hb', h₁, h₂⟩
      obtain rfl : range = range' := by simpa using hrange.symm.trans hr'
      obtain rfl : effective = effective' := by simpa using heff.symm.trans he'
      exact ⟨hb, boundary, (hclamp boundary).mp hb', h₁, h₂⟩
    · rintro ⟨-, boundary, hb', h₁, h₂⟩
      exact ⟨range, effective, boundary, hrange, heff, (hclamp boundary).mpr hb', h₁, h₂⟩
  · have hnone := SplitRatioRange.new_of_not_le (ε := LayoutError) (mt (bracket_iff hpos).mp hb)
    constructor
    · rintro ⟨range, -, -, hrange, -⟩
      exact absurd (hnone.symm.trans hrange) (by simp)
    · rintro ⟨hb', -⟩
      exact absurd hb' hb

variable {preferred : SplitRatio ℚ}

theorem SplitsInto.halves (hr : r.EdgeFits axis) (h : Offsets r axis limits a c)
    (hs : SplitsInto axis preferred limits r r₁ r₂) :
    Bracket (r.size axis) a c ∧ 1 ≤ splitOffset (r.size axis) a c preferred.value ∧
      splitOffset (r.size axis) a c preferred.value < r.room axis ∧
      Halves axis (splitOffset (r.size axis) a c preferred.value) r r₁ r₂ := by
  obtain ⟨hb, boundary, hval, h₁, h₂⟩ := (splitsInto_iff hr h preferred).mp hs
  exact ⟨hb, halves_of_children hr hval h₁ h₂⟩

theorem exists_splitsInto_iff (hr : r.EdgeFits axis) (h : Offsets r axis limits a c) (preferred : SplitRatio ℚ) :
    (∃ r₁ r₂, SplitsInto axis preferred limits r r₁ r₂) ↔ Bracket (r.size axis) a c ∧
      1 ≤ splitOffset (r.size axis) a c preferred.value ∧ splitOffset
        (r.size axis) a c preferred.value < r.room axis := by
  constructor
  · rintro ⟨r₁, r₂, hs⟩
    obtain ⟨hb, hpos, hlt, -⟩ := hs.halves hr h
    exact ⟨hb, hpos, hlt⟩
  · rintro ⟨hb, hpos, hlt⟩
    have hroom := r.room_le axis
    have hedge : (r.origin axis).val + r.size axis ≤ 2147483647 := hr
    have := (r.origin axis).property
    obtain ⟨boundary, hval⟩ : ∃ boundary : I32,
        boundary.val = (r.origin axis).val + splitOffset (r.size axis) a c preferred.value := ⟨⟨_, by omega⟩, rfl⟩
    obtain ⟨r₁, r₂, h₁, h₂⟩ := exists_children hr hval hpos hlt
    exact ⟨r₁, r₂, (splitsInto_iff hr h preferred).mpr ⟨hb, boundary, hval, h₁, h₂⟩⟩

theorem exists_splitsInto (hr : r.EdgeFits axis) (h : Offsets r axis limits a c) (hb : Bracket (r.size axis) a c)
    (ha : 1 ≤ a) (hc : c < r.room axis) (preferred : SplitRatio ℚ) :
    ∃ r₁ r₂, SplitsInto axis preferred limits r r₁ r₂ := by
  obtain ⟨hlow, hhigh, -⟩ := splitOffset_mem (r.size_pos axis) hb preferred.value
  exact (exists_splitsInto_iff hr h preferred).mpr ⟨hb, by omega, by omega⟩

theorem SplitsInto.exists_halves {F : Type} [Float64 F] {preferred : SplitRatio F} (hr : r.EdgeFits axis)
    (hs : SplitsInto axis preferred limits r r₁ r₂) : ∃ boundary : I32, ∃ k : ℕ,
      limits.1.val ≤ boundary.val ∧ boundary.val ≤ limits.2.val ∧ boundary.val = (r.origin axis).val + k ∧
      1 ≤ k ∧ k < r.room axis ∧ Halves axis k r r₁ r₂ := by
  obtain ⟨boundary, hlow, hhigh, h₁, h₂⟩ := hs.exists_boundary
  obtain ⟨-, -, -, -, hext⟩ := firstChild_eq_some.mp h₁
  have hval : boundary.val = (r.origin axis).val + (r₁.extent axis).val := by omega
  exact ⟨boundary, _, hlow, hhigh, hval, halves_of_children hr hval h₁ h₂⟩

theorem Halves.size_le {k : ℕ} (h : Halves axis k r r₁ r₂) (hlt : k < r.room axis) :
    r₁.size ≤ r.size ∧ r₂.size ≤ r.size := by
  have hroom := r.room_le axis
  rw [h.first, h.second]
  exact ⟨update_le_self_iff.mpr (by omega), update_le_self_iff.mpr (by omega)⟩

/-! ### Limits from the room each side needs -/

variable {first second : ℕ}

theorem boundaryLimits_offsets (hr : r.EdgeFits axis) (h₁ : first ≤ r.room axis) (h₂ : second ≤ r.room axis) :
    Offsets r axis (boundaryLimits r axis first second) first (r.room axis - second) := by
  have hroom := r.room_le axis
  have hmax := r.room_le_max axis
  have hedge : (r.origin axis).val + r.size axis ≤ 2147483647 := hr
  have := (r.origin axis).property
  refine ⟨?_, ?_, by omega, by omega⟩
  · simp only [boundaryLimits, I32.saturatingAdd, I32.sat_val, U32.toI32_val, toU32_val (by omega : first ≤ 4294967295)]
    omega
  · simp only [boundaryLimits, I32.saturatingSub, I32.sat_val, U32.toI32_val, hr.far_val,
      toU32_val (by omega : second ≤ 4294967295)]
    omega

theorem boundaryLimits_between (hr : r.EdgeFits axis) {first second k : ℕ}
    (hlow : (boundaryLimits r axis first second).1.val ≤ (r.origin axis).val + k)
    (hhigh : (r.origin axis).val + k ≤ (boundaryLimits r axis first second).2.val) (hpos : 1 ≤ k)
    (hlt : k < r.room axis) : first ≤ k ∧ second ≤ r.room axis - k := by
  have hroom := r.room_le axis
  have hmax := r.room_le_max axis
  have hedge : (r.origin axis).val + r.size axis ≤ 2147483647 := hr
  have := (r.origin axis).property
  simp only [boundaryLimits, I32.saturatingAdd, I32.sat_val, U32.toI32_val, toU32] at hlow
  simp only [boundaryLimits, I32.saturatingSub, I32.sat_val, U32.toI32_val, hr.far_val, toU32] at hhigh
  omega

theorem SplitsInto.room (hr : r.EdgeFits axis)
    (hs : SplitsInto axis preferred (boundaryLimits r axis first second) r r₁ r₂) :
    first + second ≤ r.room axis := by
  obtain ⟨boundary, k, hlow, hhigh, hval, hpos, hlt, -⟩ := hs.exists_halves hr
  rw [hval] at hlow hhigh
  have := boundaryLimits_between hr hlow hhigh hpos hlt
  omega

structure Inside (r : LayoutRect) (axis : SplitAxis) (limits : I32 × I32) : Prop where
  low : (r.origin axis).val < limits.1.val
  high : limits.2.val < (r.origin axis).val + r.room axis

theorem boundaryLimits_inside (hr : r.EdgeFits axis) (h₁ : 1 ≤ first) (h₂ : 1 ≤ second) :
    Inside r axis (boundaryLimits r axis first second) := by
  have hedge : (r.origin axis).val + r.size axis ≤ 2147483647 := hr
  have hpos := r.size_pos axis
  have := (r.origin axis).property
  constructor
  · simp only [boundaryLimits, I32.saturatingAdd, I32.sat_val, U32.toI32_val, toU32]
    omega
  · simp only [boundaryLimits, I32.saturatingSub, I32.sat_val, U32.toI32_val, hr.far_val, toU32, room]
    omega

section Lawful
variable {F : Type} [Float64 F] [LawfulFloat64 F]

theorem SplitRatio.accepts_ends : accepts (SplitRatio.min : F) = true ∧ accepts (SplitRatio.max : F) = true := by
  obtain ⟨-, hlow, hhigh⟩ := Float64.half_between (F := F)
  obtain ⟨hmin, hmax⟩ := LawfulFloat64.finite_twentieths (F := F)
  simp only [accepts, SplitRatio.min, SplitRatio.max, hmin, hmax, LawfulFloat64.le_left hlow,
    LawfulFloat64.le_right hhigh, LawfulFloat64.le_trans hlow hhigh, Bool.and_self, and_self]

omit [LawfulFloat64 F] in
theorem SplitRatio.new_of_accepts {value : F} (h : accepts value = true) : new value = some ⟨value, h⟩ := dif_pos h

theorem SplitRatioRange.new_lawful {ε : Type} {low high : F} (hlow : Float64.le low low = true)
    (hhigh : Float64.le high high = true) :
    (SplitRatioRange.new low high : Run ε _) = .ok none ∨ ∃ range : SplitRatioRange F,
      (SplitRatioRange.new low high : Run ε _) = .ok (some range) ∧
      Float64.le range.min.value range.max.value = true ∧ Float64.le low high = true := by
  obtain ⟨hmin, hmax⟩ := SplitRatio.accepts_ends (F := F)
  simp only [SplitRatio.accepts, Bool.and_eq_true] at hmin hmax
  obtain ⟨hlow', hmin'⟩ := Float64.le_max hlow hmin.1.2
  obtain ⟨hhigh', hmax'⟩ := Float64.min_le hhigh hmax.2
  rw [SplitRatioRange.new]
  split_ifs with hle
  · have haccepts : SplitRatio.accepts (Float64.max low SplitRatio.min) = true ∧
        SplitRatio.accepts (Float64.min high SplitRatio.max) = true := by
      have h₁ := LawfulFloat64.le_trans hle hmax'
      have h₂ := LawfulFloat64.le_trans hmin' hle
      simp only [SplitRatio.accepts, Bool.and_eq_true]
      exact ⟨⟨⟨LawfulFloat64.finite_between hmin.1.1 hmax.1.1 hmin' h₁, hmin'⟩, h₁⟩,
        ⟨LawfulFloat64.finite_between hmin.1.1 hmax.1.1 h₂ hmax', h₂⟩, hmax'⟩
    refine .inr ⟨⟨⟨_, haccepts.1⟩, ⟨_, haccepts.2⟩⟩, ?_, hle,
      LawfulFloat64.le_trans hlow' (LawfulFloat64.le_trans hle hhigh')⟩
    rw [SplitRatio.new_of_accepts haccepts.1, SplitRatio.new_of_accepts haccepts.2]
    rfl
  · exact .inl rfl

omit [LawfulFloat64 F] in
theorem SplitRatioRange.clamp_lawful {ε : Type} {range : SplitRatioRange F}
    (h : Float64.le range.min.value range.max.value = true) (preferred : SplitRatio F) :
    ∃ effective, (range.clamp preferred : Run ε _) = .ok effective := by
  rw [SplitRatioRange.clamp, Float64.clamp, if_pos h, Run.ok_bind]
  split_ifs
  · exact ⟨_, by rw [SplitRatio.new_value]; rfl⟩
  · exact ⟨_, by rw [SplitRatio.new_value]; rfl⟩
  · exact ⟨_, by rw [SplitRatio.new_value]; rfl⟩

theorem Inside.splits_or_none (hr : r.EdgeFits axis) (h : Inside r axis limits) (preferred : SplitRatio F) :
    (∃ r₁ r₂, SplitsInto axis preferred limits r r₁ r₂) ∨ (SplitRatioRange.new
        (Float64.div (Float64.ofInt (limits.1.saturatingSub (r.origin axis)).val)
          (Float64.ofNat (r.extent axis).val) : F)
        (Float64.div (Float64.ofInt (limits.2.saturatingSub (r.origin axis)).val)
          (Float64.ofNat (r.extent axis).val)) : Run LayoutError _) = .ok none := by
  have hroom := r.room_le_max axis
  have hlow := h.low
  have hhigh := h.high
  have hpos : 0 < (r.extent axis).val := r.extent_pos axis
  obtain hnone | ⟨range, hrange, hle, hquotient⟩ := SplitRatioRange.new_lawful (ε := LayoutError)
    (LawfulFloat64.quotient_number (F := F) (limits.1.saturatingSub (r.origin axis)) (r.extent axis) hpos)
    (LawfulFloat64.quotient_number (limits.2.saturatingSub (r.origin axis)) (r.extent axis) hpos)
  · exact .inr hnone
  · left
    have hlimits := LawfulFloat64.le_of_quotient_le _ _ _ hpos hquotient
    simp only [I32.saturatingSub, I32.sat_val] at hlimits
    obtain ⟨effective, heffective⟩ := SplitRatioRange.clamp_lawful (ε := LayoutError) hle preferred
    obtain ⟨boundary, hboundary⟩ : ∃ boundary : I32,
        ((r.splitBoundary axis effective).clamp limits.1 limits.2 : Run LayoutError I32) = .ok boundary := by
      refine ⟨⟨max limits.1.val (min (r.splitBoundary axis effective).val limits.2.val), ?_⟩, ?_⟩
      · have := limits.1.property
        have := limits.2.property
        omega
      · rw [I32.clamp_eq_ok]
        exact ⟨by omega, rfl⟩
    have hmem := I32.clamp_eq_ok.mp hboundary
    have := (r.origin axis).property
    obtain ⟨k, hk⟩ := Int.eq_ofNat_of_zero_le (show 0 ≤ boundary.val - (r.origin axis).val by omega)
    obtain ⟨r₁, r₂, h₁, h₂⟩ := exists_children hr (by omega : boundary.val = (r.origin axis).val + k) (by omega)
      (by omega)
    exact ⟨r₁, r₂, range, effective, boundary, hrange, heffective, hboundary, h₁, h₂⟩

end Lawful

end Split

end Typhon.Layout
