import Typhon.Foundation.Word

/-! Damage of effects that sample around a pixel: regions as bounded lists of rectangles, and the part of an effect's
output that has to be drawn again when a part of its source changes. -/

namespace Typhon.Effects
open Foundation

def maxEffectRegionRects : ℕ := 128

structure EffectRect where
  x : I32
  y : I32
  width : U32
  height : U32
  width_pos : 0 < width.val
  height_pos : 0 < height.val
  right_le : x.val + width.val ≤ 2147483647
  bottom_le : y.val + height.val ≤ 2147483647
  deriving DecidableEq

namespace EffectRect

def new (x y : I32) (width height : U32) : Option EffectRect :=
  if h : (0 < width.val ∧ 0 < height.val) ∧ x.val + width.val ≤ 2147483647 ∧ y.val + height.val ≤ 2147483647 then
    some ⟨x, y, width, height, h.1.1, h.1.2, h.2.1, h.2.2⟩
  else none

def right (r : EffectRect) : ℤ := r.x.val + r.width.val

def bottom (r : EffectRect) : ℤ := r.y.val + r.height.val

def containsPoint (r : EffectRect) (p : ℤ × ℤ) : Prop :=
  r.x.val ≤ p.1 ∧ p.1 < r.right ∧ r.y.val ≤ p.2 ∧ p.2 < r.bottom

def ofEdges (left top right bottom : ℤ) (hx : -2147483648 ≤ left ∧ left < right ∧ right ≤ 2147483647)
    (hy : -2147483648 ≤ top ∧ top < bottom ∧ bottom ≤ 2147483647) : EffectRect where
  x := ⟨left, by omega⟩
  y := ⟨top, by omega⟩
  width := ⟨(right - left).toNat, by omega⟩
  height := ⟨(bottom - top).toNat, by omega⟩
  width_pos := by dsimp only; omega
  height_pos := by dsimp only; omega
  right_le := by dsimp only; omega
  bottom_le := by dsimp only; omega

variable {r r' : EffectRect} {p : ℤ × ℤ}

theorem x_lt_right (r : EffectRect) : r.x.val < r.right := by
  have := r.width_pos
  unfold right
  omega

theorem y_lt_bottom (r : EffectRect) : r.y.val < r.bottom := by
  have := r.height_pos
  unfold bottom
  omega

theorem containsPoint_ofEdges {left top right bottom : ℤ} {hx hy} :
    (ofEdges left top right bottom hx hy).containsPoint p ↔
      left ≤ p.1 ∧ p.1 < right ∧ top ≤ p.2 ∧ p.2 < bottom := by
  simp only [containsPoint, ofEdges, EffectRect.right, EffectRect.bottom]
  omega

def intersect (r r' : EffectRect) : Option EffectRect :=
  if h : max r.x.val r'.x.val < min r.right r'.right ∧ max r.y.val r'.y.val < min r.bottom r'.bottom then
    some (ofEdges (max r.x.val r'.x.val) (max r.y.val r'.y.val) (min r.right r'.right) (min r.bottom r'.bottom)
      ⟨le_max_of_le_left r.x.2.1, h.1, min_le_of_left_le r.right_le⟩
      ⟨le_max_of_le_left r.y.2.1, h.2, min_le_of_left_le r.bottom_le⟩)
  else none

def union (r r' : EffectRect) : Option EffectRect :=
  let left := I32.min r.x r'.x
  let top := I32.min r.y r'.y
  let width := max r.right r'.right - left.val
  let height := max r.bottom r'.bottom - top.val
  if h : 0 < width ∧ 0 < height ∧ width ≤ 4294967295 ∧ height ≤ 4294967295 then
    EffectRect.new left top ⟨width.toNat, by omega⟩ ⟨height.toNat, by omega⟩
  else none

def expanded (r : EffectRect) (radiusX radiusY : U32) (bounds : EffectRect) : Option EffectRect :=
  if h : max (r.x.val - radiusX.val) bounds.x.val < min (r.right + radiusX.val) bounds.right ∧
      max (r.y.val - radiusY.val) bounds.y.val < min (r.bottom + radiusY.val) bounds.bottom then
    some (ofEdges (max (r.x.val - radiusX.val) bounds.x.val) (max (r.y.val - radiusY.val) bounds.y.val)
      (min (r.right + radiusX.val) bounds.right) (min (r.bottom + radiusY.val) bounds.bottom)
      ⟨le_max_of_le_right bounds.x.2.1, h.1, min_le_of_right_le bounds.right_le⟩
      ⟨le_max_of_le_right bounds.y.2.1, h.2, min_le_of_right_le bounds.bottom_le⟩)
  else none

def rightEdge (r : EffectRect) : I32 :=
  ⟨r.right, by have := r.x.2; have := r.right_le; unfold right; omega⟩

def bottomEdge (r : EffectRect) : I32 :=
  ⟨r.bottom, by have := r.y.2; have := r.bottom_le; unfold bottom; omega⟩

end EffectRect

def subAsU32 (a b : I32) : Run Empty U32 := do
  let difference ← Run.expect "attempt to subtract with overflow" (a.checkedSub b)
  return ⟨(difference.val % 4294967296).toNat, by omega⟩

def piece (present : Bool) (x y : I32) (width height : Run Empty U32) : Run Empty (List EffectRect) :=
  if present then do
    let rect ← Run.expect "called `Option::unwrap()` on a `None` value" (EffectRect.new x y (← width) (← height))
    return [rect]
  else return []

def subtractEffectRect (source excluded : EffectRect) : Run Empty (List EffectRect) :=
  match source.intersect excluded with
  | none => .ok [source]
  | some overlap => do
    let above ← piece (source.y.val < overlap.y.val) source.x source.y (.ok source.width) (subAsU32 overlap.y source.y)
    let below ← piece (overlap.bottom < source.bottom) source.x overlap.bottomEdge (.ok source.width)
      (subAsU32 source.bottomEdge overlap.bottomEdge)
    let left ← piece (source.x.val < overlap.x.val) source.x overlap.y (subAsU32 overlap.x source.x)
      (.ok overlap.height)
    let right ← piece (overlap.right < source.right) overlap.rightEdge overlap.y
      (subAsU32 source.rightEdge overlap.rightEdge) (.ok overlap.height)
    return above ++ below ++ left ++ right

structure EffectRegion where
  rects : List EffectRect
  conservativeFull : Bool
  rects_le : rects.length ≤ maxEffectRegionRects
  deriving DecidableEq

namespace EffectRegion

def empty : EffectRegion := ⟨[], false, by decide⟩

def full : EffectRegion := ⟨[], true, by decide⟩

def fromRect (rect : EffectRect) : EffectRegion := ⟨[rect], false, Nat.succ_le_succ (Nat.zero_le _)⟩

variable (region : EffectRegion)

theorem push_length_le (rect : EffectRect) (h : ¬region.rects.length = maxEffectRegionRects) :
    (region.rects ++ [rect]).length ≤ maxEffectRegionRects := by
  rw [List.length_append]
  exact Nat.lt_of_le_of_ne region.rects_le h

def push (rect : EffectRect) : EffectRegion :=
  if region.conservativeFull then region
  else if rect ∈ region.rects then region
  else if h : region.rects.length < maxEffectRegionRects then
    ⟨region.rects ++ [rect], region.conservativeFull, by rw [List.length_append]; exact h⟩
  else
    match region.rects.foldlM (fun bounds existing => bounds.union existing) rect with
    | some bounds => fromRect bounds
    | none => full

def containsPoint (p : ℤ × ℤ) : Prop :=
  region.conservativeFull = true ∨ ∃ rect ∈ region.rects, rect.containsPoint p

def expandClampedXy (radiusX radiusY : U32) (bounds : EffectRect) : EffectRegion :=
  if region.conservativeFull then fromRect bounds
  else
    region.rects.foldl (fun result rect =>
      match rect.expanded radiusX radiusY bounds with
      | some expanded => result.push expanded
      | none => result) empty

def isEmpty : Bool := region.rects.isEmpty && !region.conservativeFull

def union (region other : EffectRegion) : EffectRegion :=
  if region.conservativeFull || other.conservativeFull then full else other.rects.foldl push region

def intersect (region other : EffectRegion) : EffectRegion :=
  if region.conservativeFull then other
  else if other.conservativeFull then region
  else
    (region.rects ×ˢ other.rects).foldl (fun result pair =>
      match pair.1.intersect pair.2 with
      | some intersection => result.push intersection
      | none => result) empty

def subtractRects (remaining : EffectRegion) : List EffectRect → Run Empty EffectRegion
  | [] => .ok remaining
  | excluded :: others =>
    if remaining.isEmpty then .ok remaining
    else do
      let next ← remaining.rects.foldlM (fun next candidate => do
        return (← subtractEffectRect candidate excluded).foldl push next) empty
      subtractRects next others

def subtract (region excluded : EffectRegion) : Run Empty EffectRegion :=
  if region.isEmpty || excluded.conservativeFull then .ok empty
  else if excluded.isEmpty || region.conservativeFull then .ok region
  else
    region.rects.foldlM (fun result source => do
      return (← subtractRects (fromRect source) excluded.rects).rects.foldl push result) empty

structure BoundedRegionIntersection where
  region : EffectRegion
  overflowed : Bool
  inputRectCount : ℕ
  clipRectCount : ℕ
  duplicateRectsRemoved : ℕ

def intersectPairs (clip : EffectRegion) (inputRectCount : ℕ) :
    List (EffectRect × EffectRect) → (collected : EffectRegion) → (duplicates : ℕ) → BoundedRegionIntersection
  | [], collected, duplicates => ⟨collected, false, inputRectCount, clip.rects.length, duplicates⟩
  | (left, right) :: pairs, collected, duplicates =>
    match left.intersect right with
    | none => intersectPairs clip inputRectCount pairs collected duplicates
    | some intersection =>
      if intersection ∈ collected.rects then intersectPairs clip inputRectCount pairs collected (duplicates + 1)
      else if h : collected.rects.length = maxEffectRegionRects then
        ⟨clip, true, inputRectCount, clip.rects.length, duplicates⟩
      else
        intersectPairs clip inputRectCount pairs
          ⟨collected.rects ++ [intersection], collected.conservativeFull,
            collected.push_length_le intersection h⟩ duplicates

def intersectBoundedWithinResult (region clip : EffectRegion) : BoundedRegionIntersection :=
  if region.conservativeFull then ⟨clip, false, region.rects.length, clip.rects.length, 0⟩
  else if clip.conservativeFull then ⟨region, false, region.rects.length, clip.rects.length, 0⟩
  else intersectPairs clip region.rects.length (region.rects ×ˢ clip.rects) empty 0

end EffectRegion

structure EffectOutsets where
  top : U32
  right : U32
  bottom : U32
  left : U32

structure EffectFootprint where
  sampleRadiusX : U32
  sampleRadiusY : U32
  outputOutsets : EffectOutsets

structure EffectRegionClipFallback where
  inputRectCount : ℕ
  clipRectCount : ℕ

structure EffectDamagePlan where
  outputDamage : EffectRegion
  sourceQueryRegion : EffectRegion
  dependencyRegion : EffectRegion
  captureRegion : EffectRegion
  outputClipFallback : Option EffectRegionClipFallback

def effectOutputInfluenceRegion (footprint : EffectFootprint) (visibleRegion : EffectRegion)
    (outputBounds : EffectRect) : EffectRegion :=
  visibleRegion.expandClampedXy (U32.max footprint.outputOutsets.left footprint.outputOutsets.right)
    (U32.max footprint.outputOutsets.top footprint.outputOutsets.bottom) outputBounds

def planEffectDamage (footprint : EffectFootprint) (visibleRegion sourceDamage : EffectRegion)
    (outputBounds : EffectRect) : EffectDamagePlan :=
  let captureRegion := visibleRegion.expandClampedXy
    (footprint.sampleRadiusX.saturatingAdd (U32.max footprint.outputOutsets.left footprint.outputOutsets.right))
    (footprint.sampleRadiusY.saturatingAdd (U32.max footprint.outputOutsets.top footprint.outputOutsets.bottom))
    outputBounds
  let influence := effectOutputInfluenceRegion footprint visibleRegion outputBounds
  let result := (sourceDamage.expandClampedXy footprint.sampleRadiusX footprint.sampleRadiusY
    outputBounds).intersectBoundedWithinResult influence
  { outputDamage := result.region
    sourceQueryRegion := captureRegion
    dependencyRegion := influence
    captureRegion := captureRegion
    outputClipFallback :=
      if result.overflowed then some ⟨result.inputRectCount, result.clipRectCount⟩ else none }

def Within (radiusX radiusY : U32) (p q : ℤ × ℤ) : Prop :=
  |p.1 - q.1| ≤ radiusX.val ∧ |p.2 - q.2| ≤ radiusY.val

end Typhon.Effects
