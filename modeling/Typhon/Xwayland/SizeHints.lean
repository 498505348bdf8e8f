import Typhon.Foundation.Word

/-! The size hints of an X11 window and the geometry a configure request gets: clamped to the bounds, rounded down to
the increments, and then corrected for the aspect. The aspects are exact quotients. -/

namespace Typhon.Xwayland
open Foundation

structure WindowConstraints where
  minWidth : Option U32
  minHeight : Option U32
  maxWidth : Option U32
  maxHeight : Option U32
  baseWidth : Option U32
  baseHeight : Option U32
  widthIncrement : Option U32
  heightIncrement : Option U32
  minAspect : Option ℚ
  maxAspect : Option ℚ

def nonzero (value : U32) : Option U32 := if value.val ≠ 0 then some value else none

def ratio (numerator denominator : U32) : Option ℚ :=
  if denominator.val ≠ 0 then some ((numerator.val : ℚ) / denominator.val) else none

def flagged {α : Type} (flags : U32) (bit : ℕ) (value : Option α) : Option α :=
  if flags.val.testBit bit then value else none

def parseNormalHints : List U32 → Option WindowConstraints
  | flags :: _ :: _ :: _ :: _ :: minWidth :: minHeight :: maxWidth :: maxHeight :: widthIncrement :: heightIncrement ::
      minNumerator :: minDenominator :: maxNumerator :: maxDenominator :: baseWidth :: baseHeight :: _ :: _ =>
    some
      { minWidth := flagged flags 4 (nonzero minWidth)
        minHeight := flagged flags 4 (nonzero minHeight)
        maxWidth := flagged flags 5 (nonzero maxWidth)
        maxHeight := flagged flags 5 (nonzero maxHeight)
        widthIncrement := flagged flags 6 (nonzero widthIncrement)
        heightIncrement := flagged flags 6 (nonzero heightIncrement)
        minAspect := flagged flags 7 (ratio minNumerator minDenominator)
        maxAspect := flagged flags 7 (ratio maxNumerator maxDenominator)
        baseWidth := flagged flags 8 (nonzero baseWidth)
        baseHeight := flagged flags 8 (nonzero baseHeight) }
  | _ => none

structure X11Geometry where
  x : I32
  y : I32
  width : U32
  height : U32
  deriving DecidableEq

structure X11ConfigureFlags where
  x : Bool
  y : Bool
  width : Bool
  height : Bool

def one : U32 := ⟨1, U32.one_mem⟩

def constrainDimension (value : U32) (min max : Option U32) : U32 :=
  let raised := U32.max value (min.getD one)
  ⟨Min.min raised.val ((max.map Subtype.val).getD 4294967295), (min_le_left _ _).trans raised.property⟩

def applyIncrement (value : U32) (base increment : Option U32) : U32 :=
  match increment.filter fun increment => 0 < increment.val with
  | none => value
  | some increment =>
    let base : U32 := base.getD ⟨0, U32.zero_mem⟩
    base.saturatingAdd ⟨(value.val - base.val) / increment.val * increment.val,
      ((Nat.div_mul_le_self _ _).trans (Nat.sub_le _ _)).trans value.property⟩

def ceilAsU32 (q : ℚ) : U32 := ⟨min ⌈q⌉₊ 4294967295, min_le_right _ _⟩

def correctMinAspect (aspect : Option ℚ) (width height : U32) : U32 :=
  match aspect with
  | some aspect =>
    if 0 < aspect ∧ (width.val : ℚ) < aspect * height.val then ceilAsU32 (height.val * aspect) else width
  | none => width

def correctMaxAspect (aspect : Option ℚ) (width height : U32) : U32 :=
  match aspect with
  | some aspect =>
    if 0 < aspect ∧ aspect * height.val < (width.val : ℚ) then ceilAsU32 (width.val / aspect) else height
  | none => height

def applyConfigureRequest (current requested : X11Geometry) (flags : X11ConfigureFlags)
    (constraints : WindowConstraints) : X11Geometry :=
  let width := if flags.width then U32.max requested.width one else current.width
  let height := if flags.height then U32.max requested.height one else current.height
  let width := constrainDimension width constraints.minWidth constraints.maxWidth
  let height := constrainDimension height constraints.minHeight constraints.maxHeight
  let width := applyIncrement width constraints.baseWidth constraints.widthIncrement
  let height := applyIncrement height constraints.baseHeight constraints.heightIncrement
  let width := correctMinAspect constraints.minAspect width height
  let height := correctMaxAspect constraints.maxAspect width height
  { x := if flags.x then requested.x else current.x
    y := if flags.y then requested.y else current.y
    width := width
    height := height }

/-! ### One dimension -/

structure SizeHints where
  min : Option U32
  max : Option U32
  base : Option U32
  increment : Option U32
  min_pos : ∀ v ∈ min, 0 < v.val
  max_pos : ∀ v ∈ max, 0 < v.val
  increment_pos : ∀ v ∈ increment, 0 < v.val

namespace SizeHints
variable (s : SizeHints)

def lower : ℕ := (s.min.map Subtype.val).getD 1

def upper : ℕ := (s.max.map Subtype.val).getD 4294967295

def origin : ℕ := (s.base.map Subtype.val).getD 0

def Aligned (v : ℕ) : Prop := ∀ i ∈ s.increment, ∃ k, v = s.origin + k * i.val

def Legal (v : ℕ) : Prop := s.lower ≤ v ∧ v ≤ s.upper ∧ s.Aligned v

def Allows : Prop := ∃ v, s.Legal v

structure Honours (v : ℕ) : Prop where
  positive : 1 ≤ v
  aligned : s.Aligned v
  bounded : s.Allows → s.lower ≤ v ∧ v ≤ s.upper

/-- The smallest bound is on the increments, if the hints allow a size; otherwise one increment fits into it. -/
def Grounded : Prop :=
  ∀ i ∈ s.increment,
    (s.Allows → s.lower ≤ s.origin ∨ i.val ∣ s.lower - s.origin) ∧
    (¬s.Allows → 1 ≤ s.origin ∨ i.val ≤ Min.min s.lower s.upper)

def settled (v : U32) : U32 := applyIncrement (constrainDimension v s.min s.max) s.base s.increment

def round (v : ℕ) : ℕ :=
  match s.increment with
  | none => v
  | some i => s.origin + (v - s.origin) / i.val * i.val

def Reached (v : ℕ) : Prop := ∃ x, Min.min s.lower s.upper ≤ x ∧ x ≤ s.upper ∧ v = s.round x

def least : ℕ := s.round (Min.min s.lower s.upper)

theorem one_le_lower : 1 ≤ s.lower := by
  unfold lower
  cases h : s.min with
  | none => exact le_refl 1
  | some v => exact s.min_pos v h

theorem one_le_upper : 1 ≤ s.upper := by
  unfold upper
  cases h : s.max with
  | none => exact Nat.le_of_ble_eq_true rfl
  | some v => exact s.max_pos v h

theorem constrainDimension_val (v : U32) :
    (constrainDimension v s.min s.max).val = Min.min (Max.max v.val s.lower) s.upper := by
  unfold constrainDimension lower upper
  dsimp only
  rw [U32.max_val]
  cases s.min <;> rfl

theorem applyIncrement_val (v : U32) : (applyIncrement v s.base s.increment).val = s.round v.val := by
  unfold applyIncrement round
  cases h : s.increment with
  | none => rfl
  | some i =>
    have hpos : 0 < i.val := s.increment_pos i h
    have horigin : (s.base.getD ⟨0, U32.zero_mem⟩ : U32).val = s.origin := by
      unfold origin
      cases s.base <;> rfl
    simp only [Option.filter, hpos, decide_true, if_true, U32.saturatingAdd_val, horigin]
    have hdown := Nat.div_mul_le_self (v.val - s.origin) i.val
    have hbase := (s.base.getD ⟨0, U32.zero_mem⟩ : U32).property
    have hv := v.property
    omega

theorem settled_val (v : U32) : (s.settled v).val = s.round (Min.min (Max.max v.val s.lower) s.upper) := by
  rw [settled, applyIncrement_val, constrainDimension_val]

theorem reached_settled (v : U32) : s.Reached (s.settled v).val :=
  ⟨_, by omega, min_le_right _ _, s.settled_val v⟩

variable {s}

theorem Reached.exists_settled {v : ℕ} (h : s.Reached v) :
    ∃ request : U32, 1 ≤ request.val ∧ (s.settled request).val = v := by
  obtain ⟨x, hlow, hup, rfl⟩ := h
  have hlower := s.one_le_lower
  have hupper := s.one_le_upper
  have htop : s.upper ≤ 4294967295 := by
    unfold upper
    cases s.max with
    | none => exact le_refl _
    | some v => exact v.property
  refine ⟨⟨x, by omega⟩, by dsimp only; omega, ?_⟩
  rw [settled_val]
  congr 1
  dsimp only
  omega

theorem reached_least : s.Reached s.least := ⟨_, le_refl _, min_le_right _ _, rfl⟩

theorem round_mono {x y : ℕ} (h : x ≤ y) : s.round x ≤ s.round y := by
  unfold round
  cases s.increment with
  | none => exact h
  | some i => exact Nat.add_le_add_left (Nat.mul_le_mul_right _ (Nat.div_le_div_right (by omega))) _

theorem Reached.least_le {v : ℕ} (h : s.Reached v) : s.least ≤ v := by
  obtain ⟨x, hlow, -, rfl⟩ := h
  exact round_mono hlow

theorem aligned_round (x : ℕ) : s.Aligned (s.round x) := by
  intro i hi
  rw [round, Option.mem_def.mp hi]
  exact ⟨_, rfl⟩

theorem Allows.lower_le (h : s.Allows) : s.lower ≤ s.upper := by
  obtain ⟨legal, hlegal⟩ := h
  exact hlegal.1.trans hlegal.2.1

theorem Allows.round_le (h : s.Allows) {x : ℕ} (hx : x ≤ s.upper) : s.round x ≤ s.upper := by
  obtain ⟨legal, -, hup, haligned⟩ := h
  unfold round
  cases hi : s.increment with
  | none => exact hx
  | some i =>
    -- a base above the request is still below the legal size
    obtain ⟨k, rfl⟩ := haligned i hi
    have hdown := Nat.div_mul_le_self (x - s.origin) i.val
    have := Nat.zero_le (k * i.val)
    dsimp only
    omega

theorem Reached.honours_of_ne {v : ℕ} (h : s.Reached v) (hne : v ≠ s.least) : s.Honours v := by
  have hleast := h.least_le
  obtain ⟨x, hlow, hup, rfl⟩ := h
  have hlower := s.one_le_lower
  have hupper := s.one_le_upper
  have habove : Min.min s.lower s.upper ≤ s.round x := by
    have haligned := s.aligned_round x
    unfold least at hleast hne
    unfold round at *
    cases hi : s.increment with
    | none => exact hlow
    | some i =>
      simp only [hi] at hleast hne ⊢
      have hpos := s.increment_pos i hi
      have hstep : (Min.min s.lower s.upper - s.origin) / i.val < (x - s.origin) / i.val :=
        lt_of_le_of_ne (Nat.div_le_div_right (by omega)) fun heq => hne (by rw [heq])
      have hnext := Nat.lt_mul_of_div_lt hstep hpos
      omega
  exact ⟨by omega, aligned_round x, fun hallows => ⟨by have := hallows.lower_le; omega, hallows.round_le hup⟩⟩

theorem honours_least_iff : s.Honours s.least ↔ s.Grounded := by
  have hlower := s.one_le_lower
  have hupper := s.one_le_upper
  constructor
  · intro hfirst i hi
    have hleast : s.least = s.origin + (Min.min s.lower s.upper - s.origin) / i.val * i.val := by
      rw [least, round, Option.mem_def.mp hi]
    have hdown := Nat.div_mul_le_self (Min.min s.lower s.upper - s.origin) i.val
    refine ⟨fun hallows => ?_, fun _ => ?_⟩
    · have hlow := hallows.lower_le
      have hreach := (hfirst.bounded hallows).1
      rcases Nat.le_total s.lower s.origin with hbase | hbase
      · exact .inl hbase
      · have hexact : (Min.min s.lower s.upper - s.origin) / i.val * i.val = s.lower - s.origin := by omega
        exact .inr ⟨_, by rw [← hexact, Nat.mul_comm]⟩
    · have hpositive := hfirst.positive
      rcases Nat.eq_zero_or_pos s.origin with hzero | hbase
      · refine .inr ?_
        by_contra hlong
        rw [hleast, Nat.div_eq_of_lt (by omega)] at hpositive
        omega
      · exact .inl hbase
  · intro hgrounded
    cases hi : s.increment with
    | none =>
      have hleast : s.least = Min.min s.lower s.upper := by rw [least, round, hi]
      exact ⟨by omega, aligned_round _, fun hallows => by have := hallows.lower_le; omega⟩
    | some i =>
      have hleast : s.least = s.origin + (Min.min s.lower s.upper - s.origin) / i.val * i.val := by
        rw [least, round, hi]
      obtain ⟨hlegal, hsmall⟩ := hgrounded i hi
      by_cases hallows : s.Allows
      · have hlow := hallows.lower_le
        have hbound : s.lower ≤ s.least := by
          rcases hlegal hallows with hbase | hdvd
          · omega
          · have hexact := Nat.div_mul_cancel hdvd
            rw [hleast, min_eq_left hlow, hexact]
            omega
        exact ⟨by omega, aligned_round _, fun _ => ⟨hbound, hallows.round_le (min_le_right _ _)⟩⟩
      · refine ⟨?_, aligned_round _, fun h => absurd h hallows⟩
        rcases Nat.eq_zero_or_pos s.origin with hzero | hbase
        · have hfits : i.val ≤ Min.min s.lower s.upper := (hsmall hallows).resolve_left (by omega)
          have hone : 1 ≤ (Min.min s.lower s.upper - s.origin) / i.val :=
            (Nat.le_div_iff_mul_le (s.increment_pos i hi)).mpr (by omega)
          have hpos := s.increment_pos i hi
          have := Nat.mul_le_mul hone (le_refl i.val)
          omega
        · omega

theorem Reached.honours {v : ℕ} (h : s.Reached v) (hleast : v = s.least → s.Grounded) : s.Honours v := by
  by_cases hv : v = s.least
  · rw [hv]
    exact honours_least_iff.mpr (hleast hv)
  · exact h.honours_of_ne hv

end SizeHints

/-! ### Both dimensions -/

theorem pos_of_flagged_nonzero {flags value v : U32} {bit : ℕ} (h : v ∈ flagged flags bit (nonzero value)) :
    0 < v.val := by
  unfold flagged nonzero at h
  split_ifs at h with hbit hzero
  · obtain rfl := Option.mem_some_iff.mp h
    exact Nat.pos_of_ne_zero hzero
  · cases h
  · cases h

structure WindowConstraints.Parsed (c : WindowConstraints) : Prop where
  minWidth : ∀ v ∈ c.minWidth, 0 < v.val
  minHeight : ∀ v ∈ c.minHeight, 0 < v.val
  maxWidth : ∀ v ∈ c.maxWidth, 0 < v.val
  maxHeight : ∀ v ∈ c.maxHeight, 0 < v.val
  widthIncrement : ∀ v ∈ c.widthIncrement, 0 < v.val
  heightIncrement : ∀ v ∈ c.heightIncrement, 0 < v.val

theorem parseNormalHints_parsed {values : List U32} {c : WindowConstraints} (h : parseNormalHints values = some c) :
    c.Parsed := by
  unfold parseNormalHints at h
  split at h
  · cases h
    exact ⟨fun _ => pos_of_flagged_nonzero, fun _ => pos_of_flagged_nonzero, fun _ => pos_of_flagged_nonzero,
      fun _ => pos_of_flagged_nonzero, fun _ => pos_of_flagged_nonzero, fun _ => pos_of_flagged_nonzero⟩
  · cases h

namespace WindowConstraints
variable {c : WindowConstraints}

def Parsed.widthHints (h : c.Parsed) : SizeHints :=
  ⟨c.minWidth, c.maxWidth, c.baseWidth, c.widthIncrement, h.minWidth, h.maxWidth, h.widthIncrement⟩

def Parsed.heightHints (h : c.Parsed) : SizeHints :=
  ⟨c.minHeight, c.maxHeight, c.baseHeight, c.heightIncrement, h.minHeight, h.maxHeight, h.heightIncrement⟩

structure Parsed.Answers (h : c.Parsed) (current requested : X11Geometry) (flags : X11ConfigureFlags)
    (result : X11Geometry) : Prop where
  width : h.widthHints.Honours result.width.val
  height : h.heightHints.Honours result.height.val
  x : result.x = if flags.x then requested.x else current.x
  y : result.y = if flags.y then requested.y else current.y

def Parsed.AlwaysAnswers (h : c.Parsed) : Prop :=
  ∀ current requested flags, h.Answers current requested flags (applyConfigureRequest current requested flags c)

def AspectFree (c : WindowConstraints) : Prop :=
  (∀ a ∈ c.minAspect, ¬0 < a) ∧ ∀ a ∈ c.maxAspect, ¬0 < a

def Parsed.Wide (h : c.Parsed) (height width : ℕ) : Prop :=
  (h.widthHints.Reached width ∧ ∀ a ∈ c.minAspect, 0 < a → a * height ≤ width) ∨
    ∃ a ∈ c.minAspect, 0 < a ∧ h.widthHints.least < a * height ∧ width = (ceilAsU32 (height * a)).val

/-- In each dimension the least size is on the increments, or the aspect always replaces it; and where an aspect
replaces a size, its quotient rounded up is one that the hints admit. -/
structure Parsed.AspectsFit (h : c.Parsed) : Prop where
  leastWidth : h.widthHints.Grounded ∨
    ∃ a ∈ c.minAspect, 0 < a ∧ h.widthHints.least < a * h.heightHints.least
  width : ∀ a ∈ c.minAspect, 0 < a → ∀ height, h.heightHints.Reached height →
    h.widthHints.least < a * height → h.widthHints.Honours (ceilAsU32 (height * a)).val
  leastHeight : h.heightHints.Grounded ∨ ∃ b ∈ c.maxAspect, 0 < b ∧
    (b * h.heightHints.least < h.widthHints.least ∨
      ∃ a ∈ c.minAspect, 0 < a ∧ h.widthHints.least < a * h.heightHints.least ∧
        b * h.heightHints.least < (ceilAsU32 (h.heightHints.least * a)).val)
  height : ∀ b ∈ c.maxAspect, 0 < b → ∀ height, h.heightHints.Reached height → ∀ width, h.Wide height width →
    b * height < width → h.heightHints.Honours (ceilAsU32 (width / b)).val

theorem correctMinAspect_replaced {aspect : Option ℚ} {a : ℚ} (ha : a ∈ aspect) (hpos : 0 < a) {width height : U32}
    (h : width.val < a * height.val) : correctMinAspect aspect width height = ceilAsU32 (height.val * a) := by
  obtain rfl := Option.mem_def.mp ha
  exact if_pos ⟨hpos, h⟩

theorem correctMinAspect_kept {aspect : Option ℚ} {width height : U32}
    (h : ∀ a ∈ aspect, 0 < a → a * height.val ≤ width.val) : correctMinAspect aspect width height = width := by
  cases aspect with
  | none => rfl
  | some a => exact if_neg fun ⟨hpos, hlt⟩ => absurd hlt (not_lt.mpr (h a rfl hpos))

theorem correctMaxAspect_replaced {aspect : Option ℚ} {b : ℚ} (hb : b ∈ aspect) (hpos : 0 < b) {width height : U32}
    (h : b * height.val < width.val) : correctMaxAspect aspect width height = ceilAsU32 (width.val / b) := by
  obtain rfl := Option.mem_def.mp hb
  exact if_pos ⟨hpos, h⟩

theorem correctMaxAspect_kept {aspect : Option ℚ} {width height : U32}
    (h : ∀ b ∈ aspect, 0 < b → width.val ≤ b * height.val) : correctMaxAspect aspect width height = height := by
  cases aspect with
  | none => rfl
  | some b => exact if_neg fun ⟨hpos, hlt⟩ => absurd hlt (not_lt.mpr (h b rfl hpos))

def sized (width height : U32) : X11Geometry := ⟨⟨0, I32.zero_mem⟩, ⟨0, I32.zero_mem⟩, width, height⟩

theorem max_one {v : U32} (h : 1 ≤ v.val) : U32.max v one = v :=
  Subtype.ext (by rw [U32.max_val]; exact max_eq_left h)

theorem Parsed.request_sizes (h : c.Parsed) {width height : U32} (hwidth : 1 ≤ width.val) (hheight : 1 ≤ height.val) :
    applyConfigureRequest (sized width height) (sized width height) ⟨true, true, true, true⟩ c =
      sized (correctMinAspect c.minAspect (h.widthHints.settled width) (h.heightHints.settled height))
        (correctMaxAspect c.maxAspect
          (correctMinAspect c.minAspect (h.widthHints.settled width) (h.heightHints.settled height))
          (h.heightHints.settled height)) := by
  unfold applyConfigureRequest
  have hw : (if (⟨true, true, true, true⟩ : X11ConfigureFlags).width then U32.max (sized width height).width one
      else (sized width height).width) = width := max_one hwidth
  have hh : (if (⟨true, true, true, true⟩ : X11ConfigureFlags).height then U32.max (sized width height).height one
      else (sized width height).height) = height := max_one hheight
  rw [hw, hh]
  rfl

theorem Parsed.alwaysAnswers_iff_sizes (h : c.Parsed) :
    h.AlwaysAnswers ↔ ∀ width height : U32, h.widthHints.Reached width.val → h.heightHints.Reached height.val →
      h.widthHints.Honours (correctMinAspect c.minAspect width height).val ∧
      h.heightHints.Honours (correctMaxAspect c.maxAspect (correctMinAspect c.minAspect width height) height).val := by
  constructor
  · intro hall width height hw hh
    obtain ⟨width', hone, hwidth⟩ := hw.exists_settled
    obtain ⟨height', hone', hheight⟩ := hh.exists_settled
    have hanswers := hall (sized width' height') (sized width' height') ⟨true, true, true, true⟩
    rw [h.request_sizes hone hone', Subtype.ext hwidth, Subtype.ext hheight] at hanswers
    exact ⟨hanswers.width, hanswers.height⟩
  · intro hsizes current requested flags
    obtain ⟨hwidth, hheight⟩ := hsizes _ _
      (h.widthHints.reached_settled (if flags.width then U32.max requested.width one else current.width))
      (h.heightHints.reached_settled (if flags.height then U32.max requested.height one else current.height))
    exact ⟨hwidth, hheight, rfl, rfl⟩

section Wide
variable (h : c.Parsed) {width height : U32}

theorem Parsed.wide_correct (hw : h.widthHints.Reached width.val) :
    h.Wide height.val (correctMinAspect c.minAspect width height).val := by
  by_cases hkept : ∀ a ∈ c.minAspect, 0 < a → a * height.val ≤ width.val
  · rw [correctMinAspect_kept hkept]
    exact .inl ⟨hw, hkept⟩
  · push Not at hkept
    obtain ⟨a, ha, hpos, hlt⟩ := hkept
    rw [correctMinAspect_replaced ha hpos hlt]
    exact .inr ⟨a, ha, hpos, lt_of_le_of_lt (by exact_mod_cast hw.least_le) hlt, rfl⟩

theorem Parsed.exists_wide {v : ℕ} (hwide : h.Wide height.val v) :
    ∃ width : U32, h.widthHints.Reached width.val ∧ (correctMinAspect c.minAspect width height).val = v := by
  obtain ⟨hreached, hkept⟩ | ⟨a, ha, hpos, hlt, rfl⟩ := hwide
  · obtain ⟨request, -, rfl⟩ := hreached.exists_settled
    exact ⟨_, hreached, congrArg _ (correctMinAspect_kept hkept)⟩
  · obtain ⟨request, -, hleast⟩ := SizeHints.reached_least.exists_settled
    rw [← hleast] at hlt
    exact ⟨_, h.widthHints.reached_settled request, congrArg _ (correctMinAspect_replaced ha hpos hlt)⟩

theorem ceilAsU32_le {q : ℚ} {v : ℕ} (h : q ≤ v) : (ceilAsU32 q).val ≤ v :=
  (min_le_left _ _).trans (Nat.ceil_le.mpr h)

theorem Parsed.least_le_of_wide {v : ℕ} (hwide : h.Wide height.val v) :
    h.widthHints.least ≤ v ∧ ∀ a ∈ c.minAspect, 0 < a → (ceilAsU32 (height.val * a)).val ≤ v := by
  obtain ⟨hreached, hkept⟩ | ⟨a, ha, hpos, hlt, rfl⟩ := hwide
  · exact ⟨hreached.least_le, fun a ha hpos => ceilAsU32_le (by rw [mul_comm]; exact hkept a ha hpos)⟩
  · refine ⟨le_min ?_ ?_, fun a' ha' _ => ?_⟩
    · rw [mul_comm] at hlt
      exact_mod_cast hlt.le.trans (Nat.le_ceil _)
    · obtain ⟨request, -, hleast⟩ := (SizeHints.reached_least (s := h.widthHints)).exists_settled
      rw [← hleast]
      exact (h.widthHints.settled request).property
    · rw [Option.mem_unique ha ha']

end Wide

theorem Parsed.alwaysAnswers_iff_aspectsFit (h : c.Parsed) : h.AlwaysAnswers ↔ h.AspectsFit := by
  rw [h.alwaysAnswers_iff_sizes]
  obtain ⟨w₀, -, hw₀⟩ := (SizeHints.reached_least (s := h.widthHints)).exists_settled
  obtain ⟨h₀, -, hh₀⟩ := (SizeHints.reached_least (s := h.heightHints)).exists_settled
  have hrw := h.widthHints.reached_settled w₀
  have hrh := h.heightHints.reached_settled h₀
  generalize h.widthHints.settled w₀ = w₀ at hw₀ hrw
  generalize h.heightHints.settled h₀ = h₀ at hh₀ hrh
  constructor
  · intro hsizes
    refine ⟨?_, fun a ha hpos height hh hlt => ?_, ?_, fun b hb hpos height hh width hwide hlt => ?_⟩
    · by_contra hnot
      push Not at hnot
      obtain ⟨hground, hkept⟩ := hnot
      rw [← hw₀, ← hh₀] at hkept
      have hwidth := (hsizes w₀ h₀ hrw hrh).1
      rw [correctMinAspect_kept hkept, hw₀] at hwidth
      exact hground (SizeHints.honours_least_iff.mp hwidth)
    · obtain ⟨request, -, rfl⟩ := hh.exists_settled
      rw [← hw₀] at hlt
      have hwidth := (hsizes w₀ _ hrw hh).1
      rwa [correctMinAspect_replaced ha hpos hlt] at hwidth
    · by_contra hnot
      push Not at hnot
      obtain ⟨hground, hkept⟩ := hnot
      rw [← hw₀, ← hh₀] at hkept
      have hheight := (hsizes w₀ h₀ hrw hrh).2
      rw [correctMaxAspect_kept, hh₀] at hheight
      · exact hground (SizeHints.honours_least_iff.mp hheight)
      · intro b hb hpos
        obtain ⟨hleast, hraised⟩ := hkept b hb hpos
        by_cases hmin : ∀ a ∈ c.minAspect, 0 < a → a * h₀.val ≤ w₀.val
        · rwa [correctMinAspect_kept hmin]
        · push Not at hmin
          obtain ⟨a, ha, hapos, hlt⟩ := hmin
          rw [correctMinAspect_replaced ha hapos hlt]
          exact hraised a ha hapos hlt
    · obtain ⟨request, -, rfl⟩ := hh.exists_settled
      obtain ⟨w, hw, rfl⟩ := h.exists_wide hwide
      have hheight := (hsizes w _ hw hh).2
      rwa [correctMaxAspect_replaced hb hpos hlt] at hheight
  · intro hfit width height hw hh
    have hwide : h.Wide height.val (correctMinAspect c.minAspect width height).val := h.wide_correct hw
    refine ⟨?_, ?_⟩
    · by_cases hkept : ∀ a ∈ c.minAspect, 0 < a → a * height.val ≤ width.val
      · rw [correctMinAspect_kept hkept]
        refine hw.honours fun hleast => hfit.leastWidth.resolve_right ?_
        rintro ⟨a, ha, hpos, hlt⟩
        refine absurd (hkept a ha hpos) (not_le.mpr ?_)
        rw [hleast]
        exact hlt.trans_le (mul_le_mul_of_nonneg_left (by exact_mod_cast hh.least_le) hpos.le)
      · push Not at hkept
        obtain ⟨a, ha, hpos, hlt⟩ := hkept
        rw [correctMinAspect_replaced ha hpos hlt]
        exact hfit.width a ha hpos _ hh (lt_of_le_of_lt (by exact_mod_cast hw.least_le) hlt)
    · generalize correctMinAspect c.minAspect width height = wide at hwide
      by_cases hkept : ∀ b ∈ c.maxAspect, 0 < b → wide.val ≤ b * height.val
      · rw [correctMaxAspect_kept hkept]
        refine hh.honours fun hleast => hfit.leastHeight.resolve_right ?_
        rintro ⟨b, hb, hpos, hlow⟩
        refine absurd (hkept b hb hpos) (not_le.mpr ?_)
        obtain ⟨hw, hraised⟩ := h.least_le_of_wide hwide
        rw [← hleast] at hlow
        obtain hlow | ⟨a, ha, hapos, -, hlow⟩ := hlow
        · exact hlow.trans_le (by exact_mod_cast hw)
        · exact hlow.trans_le (by exact_mod_cast hraised a ha hapos)
      · push Not at hkept
        obtain ⟨b, hb, hpos, hlt⟩ := hkept
        rw [correctMaxAspect_replaced hb hpos hlt]
        exact hfit.height b hb hpos _ hh _ hwide hlt

theorem Parsed.aspectsFit_free (h : c.Parsed) (hfree : c.AspectFree) :
    h.AspectsFit ↔ h.widthHints.Grounded ∧ h.heightHints.Grounded := by
  constructor
  · intro hfit
    exact ⟨hfit.leastWidth.resolve_right fun ⟨a, ha, hpos, _⟩ => hfree.1 a ha hpos,
      hfit.leastHeight.resolve_right fun ⟨b, hb, hpos, _⟩ => hfree.2 b hb hpos⟩
  · rintro ⟨hwidth, hheight⟩
    exact ⟨.inl hwidth, fun a ha hpos => absurd hpos (hfree.1 a ha), .inl hheight,
      fun b hb hpos => absurd hpos (hfree.2 b hb)⟩

end WindowConstraints

def word (n : ℕ) : U32 := ⟨n % 4294967296, by omega⟩

def cellHints : List U32 := [64, 0, 0, 0, 0, 0, 0, 0, 0, 8, 8, 0, 0, 0, 0, 0, 0, 0].map word

def stripHints : List U32 := [224, 0, 0, 0, 0, 0, 0, 0, 1000, 8, 0, 8, 1, 0, 0, 0, 0, 0].map word

def stripConstraints : WindowConstraints :=
  ⟨none, none, none, some (word 1000), none, none, some (word 8), none, some (8 / 1), none⟩

def terminalHints : List U32 := [336, 0, 0, 0, 0, 100, 0, 0, 0, 7, 0, 0, 0, 0, 0, 20, 0, 0].map word

def bannerHints : List U32 := [160, 0, 0, 0, 0, 0, 0, 100, 0, 0, 0, 2, 1, 0, 0, 0, 0, 0].map word

end Typhon.Xwayland
