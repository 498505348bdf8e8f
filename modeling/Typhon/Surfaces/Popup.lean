import Typhon.Foundation.Word

/-! Popup placement: a popup is put where its positioner says and, where it leaves the target rectangle, flipped, slid
or resized. The horizontal and the vertical data are two values of one type, and each line of the source that comes
once per axis is one definition. -/

namespace Typhon.Surfaces
open Foundation

inductive PopupEdge where
  | near
  | center
  | far
  deriving DecidableEq

def PopupEdge.flip : PopupEdge → PopupEdge
  | near => far
  | center => center
  | far => near

structure PopupSpan where
  position : I32
  size : I32
  size_pos : 0 < size.val

structure PopupRect where
  horizontal : PopupSpan
  vertical : PopupSpan

def PopupSpan.new (position size : I32) : PopupSpan := ⟨position, I32.max size (I32.sat 1), by simp⟩

def PopupSpan.constraintOffsets (target popup : PopupSpan) : I32 × I32 :=
  (target.position.saturatingSub popup.position,
    (popup.position.saturatingAdd popup.size).saturatingSub (target.position.saturatingAdd target.size))

/-- What a positioner says about one axis; the requests that set its sizes refuse negative ones. -/
structure PopupAxis where
  size : I32
  anchorPosition : I32
  anchorSize : I32
  anchor : PopupEdge
  gravity : PopupEdge
  offset : I32
  flip : Bool
  slide : Bool
  resize : Bool
  size_nonneg : 0 ≤ size.val
  anchorSize_nonneg : 0 ≤ anchorSize.val

structure XdgPositionerState where
  horizontal : PopupAxis
  vertical : PopupAxis

namespace PopupAxis

variable (a : PopupAxis)

def place : I32 :=
  let anchor := match a.anchor with
    | .near => a.anchorPosition
    | .center => a.anchorPosition.saturatingAdd (I32.sat (a.anchorSize.val / 2))
    | .far => a.anchorPosition.saturatingAdd a.anchorSize
  let gravity := match a.gravity with
    | .near => I32.sat (-a.size.val)
    | .center => I32.sat (-(a.size.val / 2))
    | .far => I32.sat 0
  (anchor.saturatingAdd a.offset).saturatingAdd gravity

def geometry : PopupSpan := .new a.place a.size

def flipped : PopupAxis := { a with anchor := a.anchor.flip, gravity := a.gravity.flip }

def isComplete : Bool := 0 < a.size.val && 0 < a.anchorSize.val

end PopupAxis

variable (p : XdgPositionerState)

def XdgPositionerState.isComplete : Bool := p.horizontal.isComplete && p.vertical.isComplete

def XdgPositionerState.geometry : PopupRect := ⟨p.horizontal.geometry, p.vertical.geometry⟩

def Overflows (off : I32 × I32) : Prop := 0 < off.1.val ∨ 0 < off.2.val

instance (off : I32 × I32) : Decidable (Overflows off) := inferInstanceAs (Decidable (_ ∨ _))

def negate (value : I32) : Run Empty I32 :=
  if h : -2147483648 < value.val then .ok ⟨-value.val, by have := value.property; omega⟩
  else Run.panic "attempt to negate with overflow"

def slidePosition (position : I32) (off : I32 × I32) : Run Empty I32 :=
  if 0 < off.1.val then .ok (position.saturatingAdd off.1)
  else if 0 < off.2.val then do .ok (position.saturatingSub (I32.min off.2 (← negate off.1)))
  else .ok position

def slideSpan (slide : Bool) (target geometry : PopupSpan) (off : I32 × I32) : Run Empty (PopupSpan × I32 × I32) :=
  if Overflows off ∧ slide = true then do
    let geometry := { geometry with position := ← slidePosition geometry.position off }
    .ok (geometry, target.constraintOffsets geometry)
  else .ok (geometry, off)

def resizeSpan (resize : Bool) (geometry : PopupSpan) (off : I32 × I32) : PopupSpan :=
  if resize then
    let geometry := if 0 < off.1.val ∧ off.1.val < geometry.size.val then
      .new (geometry.position.saturatingAdd off.1) (geometry.size.saturatingSub off.1) else geometry
    if 0 < off.2.val ∧ off.2.val < geometry.size.val then
      .new geometry.position (geometry.size.saturatingSub off.2) else geometry
  else geometry

def XdgPositionerState.constrainedGeometry (target : PopupRect) : Run Empty PopupRect := do
  let geometry := p.geometry
  let offX := target.horizontal.constraintOffsets geometry.horizontal
  let offY := target.vertical.constraintOffsets geometry.vertical
  let flipped := { p with horizontal := p.horizontal.flipped }
  let (adjusted, geometry, offX) :=
    if Overflows offX ∧ p.horizontal.flip = true ∧
        ¬Overflows (target.horizontal.constraintOffsets flipped.geometry.horizontal) then
      (flipped, flipped.geometry, (I32.sat 0, I32.sat 0))
    else (p, geometry, offX)
  let flipped := { adjusted with vertical := adjusted.vertical.flipped }
  let (geometry, offY) :=
    if Overflows offY ∧ p.vertical.flip = true ∧
        ¬Overflows (target.vertical.constraintOffsets flipped.geometry.vertical) then
      (flipped.geometry, (I32.sat 0, I32.sat 0))
    else (geometry, offY)
  let (horizontal, offX) ← slideSpan p.horizontal.slide target.horizontal geometry.horizontal offX
  let (vertical, offY) ← slideSpan p.vertical.slide target.vertical geometry.vertical offY
  .ok ⟨resizeSpan p.horizontal.resize horizontal offX, resizeSpan p.vertical.resize vertical offY⟩

/-! ### One axis -/

namespace PopupAxis

def constrained (a : PopupAxis) (target : PopupSpan) : Run Empty PopupSpan := do
  let flips := Overflows (target.constraintOffsets a.geometry) ∧ a.flip = true ∧
    ¬Overflows (target.constraintOffsets a.flipped.geometry)
  let (geometry, off) ← slideSpan a.slide target (if flips then a.flipped.geometry else a.geometry)
    (if flips then (I32.sat 0, I32.sat 0) else target.constraintOffsets a.geometry)
  .ok (resizeSpan a.resize geometry off)

end PopupAxis

theorem XdgPositionerState.constrainedGeometry_eq (target : PopupRect) :
    p.constrainedGeometry target = p.horizontal.constrained target.horizontal >>= fun horizontal =>
      p.vertical.constrained target.vertical >>= fun vertical => .ok ⟨horizontal, vertical⟩ := by
  unfold XdgPositionerState.constrainedGeometry PopupAxis.constrained XdgPositionerState.geometry
  have hassoc : ∀ {α β γ : Type} (x : Run Empty α) (f : α → Run Empty β) (g : β → Run Empty γ),
      x >>= f >>= g = x >>= fun a => f a >>= g := fun x f g => by cases x <;> rfl
  by_cases hx : Overflows (target.horizontal.constraintOffsets p.horizontal.geometry) ∧ p.horizontal.flip = true ∧
      ¬Overflows (target.horizontal.constraintOffsets p.horizontal.flipped.geometry) <;>
  by_cases hy : Overflows (target.vertical.constraintOffsets p.vertical.geometry) ∧ p.vertical.flip = true ∧
      ¬Overflows (target.vertical.constraintOffsets p.vertical.flipped.geometry) <;>
    simp [hx, hy, hassoc]

namespace PopupAxis
variable {a : PopupAxis} {target span : PopupSpan} {off : I32 × I32}

def InI32 (z : ℤ) : Prop := -2147483648 ≤ z ∧ z ≤ 2147483647

instance (z : ℤ) : Decidable (InI32 z) := inferInstanceAs (Decidable (_ ∧ _))

def anchorPoint (a : PopupAxis) : ℤ :=
  match a.anchor with
  | .near => a.anchorPosition.val
  | .center => a.anchorPosition.val + a.anchorSize.val / 2
  | .far => a.anchorPosition.val + a.anchorSize.val

def exactPlace (a : PopupAxis) : ℤ :=
  match a.gravity with
  | .near => a.anchorPoint + a.offset.val - a.size.val
  | .center => a.anchorPoint + a.offset.val - a.size.val / 2
  | .far => a.anchorPoint + a.offset.val

def Fits (target : PopupSpan) (position size : ℤ) : Prop :=
  target.position.val ≤ position ∧ position + size ≤ target.position.val + target.size.val

def Comparable (target : PopupSpan) (position size : ℤ) : Prop :=
  InI32 position ∧ InI32 (position + size) ∧ InI32 (target.position.val + target.size.val) ∧
    InI32 (target.position.val - position) ∧ InI32 (position + size - (target.position.val + target.size.val))

def Exact (a : PopupAxis) (target : PopupSpan) : Prop :=
  InI32 a.anchorPoint ∧ InI32 (a.anchorPoint + a.offset.val) ∧ Comparable target a.exactPlace a.size.val

def NoOverflow (a : PopupAxis) (target : PopupSpan) : Prop :=
  a.Exact target ∧ (a.flip = true → a.flipped.Exact target) ∧
    (a.slide = true → InI32 (target.position.val + a.size.val))

def Negatable (a : PopupAxis) (target : PopupSpan) : Prop :=
  a.slide = true → target.position.val - a.exactPlace ≠ -2147483648

def slidPlace (a : PopupAxis) (target : PopupSpan) : ℤ := if a.slide then target.position.val else a.exactPlace

def Flips (a : PopupAxis) (target : PopupSpan) : Prop := a.flip = true ∧ Fits target a.flipped.exactPlace a.size.val

def Slides (a : PopupAxis) (target : PopupSpan) : Prop := a.slide = true ∧ a.size.val ≤ target.size.val

def Resizes (a : PopupAxis) (target : PopupSpan) : Prop :=
  a.resize = true ∧ a.slidPlace target < target.position.val + target.size.val ∧
    target.position.val < a.slidPlace target + a.size.val

structure Placed (a : PopupAxis) (target result : PopupSpan) : Prop where
  unconstrained : Fits target a.exactPlace a.size.val →
    result.position.val = a.exactPlace ∧ result.size.val = a.size.val
  flipped : ¬Fits target a.exactPlace a.size.val → a.Flips target →
    result.position.val = a.flipped.exactPlace ∧ result.size.val = a.size.val
  slid : ¬Fits target a.exactPlace a.size.val → ¬a.Flips target → a.Slides target →
    result.size.val = a.size.val ∧ Fits target result.position.val a.size.val ∧
      ∀ q, Fits target q a.size.val → (result.position.val - a.exactPlace).natAbs ≤ (q - a.exactPlace).natAbs
  resized : ¬Fits target a.exactPlace a.size.val → ¬a.Flips target → ¬a.Slides target → a.Resizes target →
    result.position.val = max (a.slidPlace target) target.position.val ∧
      result.position.val + result.size.val =
        min (a.slidPlace target + a.size.val) (target.position.val + target.size.val)
  kept : ¬a.Resizes target → result.size.val = a.size.val

theorem geometry_val (hsize : 0 < a.size.val) (h : a.Exact target) :
    a.geometry.position.val = a.exactPlace ∧ a.geometry.size.val = a.size.val := by
  obtain ⟨h₁, h₂, h₃, -⟩ := h
  have hs := a.size_nonneg
  have hsize' := a.size.property
  have ha := a.anchorSize_nonneg
  have ha' := a.anchorSize.property
  refine ⟨?_, by simp [geometry, PopupSpan.new]; omega⟩
  simp only [geometry, PopupSpan.new, place, exactPlace, anchorPoint, InI32, I32.saturatingAdd] at *
  rcases hanchor : a.anchor <;> rcases hgravity : a.gravity <;> simp only
    [hanchor, hgravity, I32.sat_val] at * <;> omega

theorem offsets_val (span : PopupSpan) {position size : ℤ} (hp : span.position.val = position)
    (hs : span.size.val = size)
    (h : Comparable target position size) : (target.constraintOffsets span).1.val = target.position.val - position ∧
      (target.constraintOffsets span).2.val = position + size - (target.position.val + target.size.val) := by
  subst hp hs
  simp only [Comparable, InI32, PopupSpan.constraintOffsets, I32.saturatingSub, I32.saturatingAdd, I32.sat_val] at *
  omega

theorem resizeSpan_val (resize : Bool) {p s t T : ℤ} (hp : span.position.val = p) (hs : span.size.val = s)
    (h₁ : off.1.val = t - p) (h₂ : off.2.val = p + s - (t + T)) (hT : 0 < T) (ht : InI32 t) :
    (resize = true ∧ p < t + T ∧ t < p + s → (resizeSpan resize span off).position.val = max p t ∧
        (resizeSpan resize span off).position.val + (resizeSpan resize span off).size.val = min (p + s) (t + T)) ∧
    (¬(resize = true ∧ p < t + T ∧ t < p + s) ∨ (t ≤ p ∧ p + s ≤ t + T) →
      (resizeSpan resize span off).position.val = p ∧ (resizeSpan resize span off).size.val = s) := by
  subst hp hs
  have hpos := span.size_pos
  have hprop := span.size.property
  unfold InI32 at ht
  cases resize with
  | false => simp [resizeSpan]
  | true =>
    simp only [resizeSpan, if_true, true_and]
    split_ifs <;> refine ⟨fun h => ?_, fun h => ?_⟩ <;> first
      | omega
      | simp only [PopupSpan.new, I32.saturatingAdd, I32.saturatingSub, I32.max_val, I32.sat_val] at *; omega

theorem slideSpan_val {slide : Bool} {p s : ℤ} (hp : span.position.val = p) (hs : span.size.val = s)
    (h : Comparable target p s) (hoff : off = target.constraintOffsets span)
    (hroom : slide = true → InI32 (target.position.val + s))
    (hneg : slide = true → target.position.val - p ≠ -2147483648) :
    ∃ span' off', slideSpan slide target span off = .ok (span', off') ∧ span'.size.val = s ∧
      off'.1.val = target.position.val - span'.position.val ∧
      off'.2.val = span'.position.val + s - (target.position.val + target.size.val) ∧
      (Fits target p s ∨ slide = false → span'.position.val = p) ∧
      (¬Fits target p s → slide = true → span'.position.val =
        if p < target.position.val ∨ target.size.val < s then target.position.val
        else target.position.val + target.size.val - s) := by
  obtain ⟨h₁, h₂⟩ := offsets_val _ hp hs h
  rw [← hoff] at h₁ h₂
  unfold slideSpan
  by_cases hslide : Overflows off ∧ slide = true
  · obtain ⟨hover, rfl⟩ := hslide
    have hroom := hroom rfl
    have hneg := hneg rfl
    have ht := target.position.property
    have hT := target.size_pos
    have hsize := span.size.property
    unfold Comparable InI32 at h
    unfold InI32 at hroom
    unfold Overflows at hover
    have key : ∃ position, slidePosition span.position off = .ok position ∧ position.val =
        if p < target.position.val ∨ target.size.val < s then target.position.val
        else target.position.val + target.size.val - s := by
      unfold slidePosition
      by_cases hbefore : 0 < off.1.val
      · rw [if_pos hbefore, if_pos (by omega)]
        refine ⟨_, rfl, ?_⟩
        rw [I32.saturatingAdd, I32.sat_val]
        omega
      · rw [if_neg hbefore, if_pos (by omega), negate, dif_pos (by omega)]
        refine ⟨_, rfl, ?_⟩
        simp only [I32.saturatingSub, I32.sat_val, I32.min_val]
        split_ifs <;> omega
    obtain ⟨position, hposition, hval⟩ := key
    have hslid : Comparable target position.val s := by
      unfold Comparable InI32
      split_ifs at hval <;> omega
    have hoff' := offsets_val ⟨position, span.size, span.size_pos⟩ rfl hs hslid
    rw [if_pos ⟨hover, rfl⟩]
    refine ⟨⟨position, span.size, span.size_pos⟩, _, ?_, hs, hoff'.1, hoff'.2, fun hstay => ?_, fun _ _ => hval⟩
    · rw [hposition]
      rfl
    · unfold Fits at hstay
      simp at hstay
      omega
  · rw [if_neg hslide]
    refine ⟨span, off, rfl, hs, hp ▸ h₁, hp ▸ h₂, fun _ => hp, fun hfits hslide' => absurd ⟨?_, hslide'⟩ hslide⟩
    unfold Overflows
    unfold Fits at hfits
    omega

theorem constrained_placed (hsize : 0 < a.size.val) (h : a.NoOverflow target) (hneg : a.Negatable target) :
    ∃ result, a.constrained target = .ok result ∧ a.Placed target result := by
  obtain ⟨hexact, hflipped, hroom⟩ := h
  have hT := target.size_pos
  obtain ⟨hp, hs⟩ := geometry_val hsize hexact
  have hoff := offsets_val _ hp hs hexact.2.2
  have hover : Overflows (target.constraintOffsets a.geometry) ↔ ¬Fits target a.exactPlace a.size.val := by
    unfold Overflows Fits
    omega
  have hflips : (Overflows (target.constraintOffsets a.geometry) ∧ a.flip = true ∧
      ¬Overflows (target.constraintOffsets a.flipped.geometry)) ↔
      ¬Fits target a.exactPlace a.size.val ∧ a.Flips target := by
    rw [hover, Flips]
    refine and_congr_right fun _ => and_congr_right fun hflip => ?_
    obtain ⟨hp', hs'⟩ := geometry_val (a := a.flipped) hsize (hflipped hflip)
    have hoff' := offsets_val _ hp' hs' (hflipped hflip).2.2
    unfold Overflows Fits
    rw [show a.flipped.size = a.size from rfl] at hoff'
    omega
  unfold constrained
  dsimp only
  -- after a flip the offsets are zero, so sliding and resizing change nothing
  by_cases hcase : ¬Fits target a.exactPlace a.size.val ∧ a.Flips target
  · obtain ⟨hp', hs'⟩ := geometry_val (a := a.flipped) hsize (hflipped hcase.2.1)
    have hkeep : resizeSpan a.resize a.flipped.geometry (I32.sat 0, I32.sat 0) =
      a.flipped.geometry := by simp [resizeSpan]
    rw [if_pos (hflips.mpr hcase), if_pos (hflips.mpr hcase), slideSpan, if_neg (by simp [Overflows])]
    refine ⟨a.flipped.geometry, congrArg Except.ok hkeep, ⟨fun h => absurd h hcase.1, fun _ _ => ⟨hp', hs'⟩,
      fun _ h => absurd hcase.2 h, fun _ h => absurd hcase.2 h, fun _ => hs'⟩⟩
  rw [if_neg (mt hflips.mp hcase), if_neg (mt hflips.mp hcase)]
  obtain ⟨span, off, hslide, hsize', h₁, h₂, hstay, hmove⟩ := slideSpan_val hp hs hexact.2.2 rfl hroom hneg
  rw [hslide]
  obtain ⟨hcut, hkeep⟩ := resizeSpan_val a.resize rfl hsize' h₁ h₂ hT target.position.property
  have hinside : Fits target a.exactPlace a.size.val ∨ a.Slides target → Fits target span.position.val a.size.val := by
    intro h
    by_cases hfits : Fits target a.exactPlace a.size.val
    · rw [hstay (.inl hfits)]
      exact hfits
    · have hslides := h.resolve_left hfits
      have hspan := hmove hfits hslides.1
      unfold Slides at hslides
      unfold Fits at hfits ⊢
      split_ifs at hspan <;> omega
  have hslid : ¬Fits target a.exactPlace a.size.val → ¬a.Slides target → span.position.val = a.slidPlace target := by
    intro hfits hslides
    unfold slidPlace
    split_ifs with h
    · rw [hmove hfits h, if_pos (.inr (not_le.mp fun hle => hslides ⟨h, hle⟩))]
    · exact hstay (.inr (Bool.eq_false_iff.mpr h))
  refine ⟨_, rfl, ⟨fun hfits => ?_, fun hfits hflips => absurd ⟨hfits, hflips⟩ hcase, fun hfits _ hslides => ?_,
    fun hfits _ hslides hresizes => ?_, fun hresizes => ?_⟩⟩
  · rw [← hstay (.inl hfits)]
    exact hkeep (.inr (hinside (.inl hfits)))
  · obtain ⟨hposition, hkept⟩ := hkeep (.inr (hinside (.inr hslides)))
    have hspan := hmove hfits hslides.1
    have hin := hinside (.inr hslides)
    rw [hposition]
    refine ⟨hkept, hin, fun q hq => ?_⟩
    unfold Slides at hslides
    unfold Fits at hfits hq hin
    split_ifs at hspan <;> omega
  · rw [← hslid hfits hslides]
    exact hcut (by rw [hslid hfits hslides]; exact hresizes)
  · by_cases hin : Fits target a.exactPlace a.size.val ∨ a.Slides target
    · exact (hkeep (.inr (hinside hin))).2
    · refine (hkeep (.inl ?_)).2
      rw [hslid (fun h => hin (.inl h)) fun h => hin (.inr h)]
      exact hresizes

end PopupAxis

def XdgPositionerState.NoOverflow (target : PopupRect) : Prop :=
  p.horizontal.NoOverflow target.horizontal ∧ p.vertical.NoOverflow target.vertical

/-- On each axis the popup is placed as the positioner allows, and the other axis plays no part. -/
theorem popup_placed_per_axis (target : PopupRect) (hcomplete : p.isComplete = true)
    (hsums : p.NoOverflow target) (hx : p.horizontal.Negatable target.horizontal)
    (hy : p.vertical.Negatable target.vertical) : ∃ result, p.constrainedGeometry target = .ok result ∧
      p.horizontal.Placed target.horizontal result.horizontal ∧ p.vertical.Placed target.vertical result.vertical ∧
      ∀ (p' : XdgPositionerState) (target' result' : PopupRect), p'.constrainedGeometry target' = .ok result' →
        (p'.horizontal = p.horizontal → target'.horizontal = target.horizontal → result'.horizontal =
          result.horizontal) ∧
        (p'.vertical = p.vertical → target'.vertical = target.vertical → result'.vertical = result.vertical) := by
  simp only [XdgPositionerState.isComplete, PopupAxis.isComplete, Bool.and_eq_true, decide_eq_true_eq] at hcomplete
  obtain ⟨x, hrunx, hplacedx⟩ := PopupAxis.constrained_placed hcomplete.1.1 hsums.1 hx
  obtain ⟨y, hruny, hplacedy⟩ := PopupAxis.constrained_placed hcomplete.2.1 hsums.2 hy
  refine ⟨⟨x, y⟩, ?_, hplacedx, hplacedy, fun p' target' result' hrun => ?_⟩
  · rw [XdgPositionerState.constrainedGeometry_eq, hrunx, hruny]
    rfl
  · rw [XdgPositionerState.constrainedGeometry_eq] at hrun
    obtain ⟨x', hx', hrun⟩ := Run.bind_eq_ok.mp hrun
    obtain ⟨y', hy', hrun⟩ := Run.bind_eq_ok.mp hrun
    cases hrun
    constructor
    · intro hp ht
      rw [hp, ht, hrunx] at hx'
      exact (Except.ok.inj hx').symm
    · intro hp ht
      rw [hp, ht, hruny] at hy'
      exact (Except.ok.inj hy').symm

def slidingAxis (offset : ℤ) : PopupAxis where
  size := I32.sat 500
  anchorPosition := I32.sat 0
  anchorSize := I32.sat 1
  anchor := .near
  gravity := .far
  offset := I32.sat offset
  flip := false
  slide := true
  resize := false
  size_nonneg := by decide
  anchorSize_nonneg := by decide

def screen (position : ℤ) : PopupSpan := .new (I32.sat position) (I32.sat 1920)

theorem popup_placed_per_axis_slid :
    ∃ result, (XdgPositionerState.mk (slidingAxis 1800) (slidingAxis 0)).constrainedGeometry
    ⟨screen 0, screen 0⟩ = .ok result ∧ (slidingAxis 1800).Placed (screen 0) result.horizontal := by
  obtain ⟨result, hrun, hplaced, -⟩ := popup_placed_per_axis ⟨slidingAxis 1800, slidingAxis 0⟩ ⟨screen 0, screen 0⟩
    (by decide)
    (by unfold XdgPositionerState.NoOverflow PopupAxis.NoOverflow PopupAxis.Exact PopupAxis.Comparable; decide)
    (by unfold PopupAxis.Negatable; decide) (by unfold PopupAxis.Negatable; decide)
  exact ⟨result, hrun, hplaced⟩

theorem popup_offset_not_negatable :
    (XdgPositionerState.mk (slidingAxis 2147482648) (slidingAxis 0)).isComplete = true ∧
    (XdgPositionerState.mk (slidingAxis 2147482648) (slidingAxis 0)).NoOverflow ⟨screen (-1000), screen 0⟩ ∧
    (XdgPositionerState.mk (slidingAxis 2147482648) (slidingAxis 0)).constrainedGeometry ⟨screen (-1000), screen 0⟩ =
      .error (.panic "attempt to negate with overflow") := by
  refine ⟨by decide, ?_, by rfl⟩
  unfold XdgPositionerState.NoOverflow PopupAxis.NoOverflow PopupAxis.Exact PopupAxis.Comparable
  decide

end Typhon.Surfaces
