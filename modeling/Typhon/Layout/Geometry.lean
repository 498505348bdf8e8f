import Typhon.Foundation.Float64

/-! Logical rectangles, split axes and split ratios of the tiling algorithm. -/

namespace Typhon.Layout
open Foundation

structure WindowId where
  raw : ℕ
  deriving DecidableEq

inductive SplitAxis where
  /-- A left/right split. -/
  | horizontal
  /-- A top/bottom split. -/
  | vertical
  deriving DecidableEq

structure LayoutPoint where
  x : I32
  y : I32
  deriving DecidableEq

@[ext]
structure LayoutRect where
  x : I32
  y : I32
  width : U32
  height : U32
  width_pos : 0 < width.val
  height_pos : 0 < height.val

instance : DecidableEq LayoutRect := fun _ _ => decidable_of_iff' _ LayoutRect.ext_iff

namespace LayoutRect

def new (x y : I32) (width height : U32) : Option LayoutRect :=
  if h : 0 < width.val ∧ 0 < height.val then some ⟨x, y, width, height, h.1, h.2⟩ else none

variable (r : LayoutRect)

def right : I32 := r.x.saturatingAdd r.width.minI32

def bottom : I32 := r.y.saturatingAdd r.height.minI32

def origin : SplitAxis → I32
  | .horizontal => r.x
  | .vertical => r.y

def crossOrigin : SplitAxis → I32
  | .horizontal => r.y
  | .vertical => r.x

def extent : SplitAxis → U32
  | .horizontal => r.width
  | .vertical => r.height

def cross : SplitAxis → U32
  | .horizontal => r.height
  | .vertical => r.width

def far : SplitAxis → I32
  | .horizontal => r.right
  | .vertical => r.bottom

theorem new_eq_some {x y : I32} {width height : U32} {r : LayoutRect} : new x y width height = some r ↔
      r.x = x ∧ r.y = y ∧ r.width = width ∧ r.height = height := by
  unfold new
  split_ifs with h
  · rw [Option.some.injEq]
    cases r
    simp only [mk.injEq]
    constructor
    · rintro ⟨rfl, rfl, rfl, rfl⟩
      exact ⟨rfl, rfl, rfl, rfl⟩
    · rintro ⟨rfl, rfl, rfl, rfl⟩
      exact ⟨rfl, rfl, rfl, rfl⟩
  · simp only [false_iff]
    rintro ⟨-, -, rfl, rfl⟩
    exact h ⟨r.width_pos, r.height_pos⟩

theorem extent_pos (axis : SplitAxis) : 0 < (r.extent axis).val := by
  cases axis
  · exact r.width_pos
  · exact r.height_pos

theorem cross_pos (axis : SplitAxis) : 0 < (r.cross axis).val := by
  cases axis
  · exact r.height_pos
  · exact r.width_pos

theorem far_eq (axis : SplitAxis) : r.far axis = (r.origin axis).saturatingAdd (r.extent axis).minI32 := by
  cases axis <;> rfl

end LayoutRect

section Ratio
variable {F : Type} [Float64 F]

def SplitRatio.min : F := Float64.ofRat (1 / 20)

def SplitRatio.max : F := Float64.ofRat (19 / 20)

def SplitRatio.accepts (value : F) : Bool :=
  Float64.isFinite value && Float64.le SplitRatio.min value && Float64.le value SplitRatio.max

structure SplitRatio (F : Type) [Float64 F] where
  value : F
  accepted : SplitRatio.accepts value = true

namespace SplitRatio

def new (value : F) : Option (SplitRatio F) :=
  if h : accepts value = true then some ⟨value, h⟩ else none

def default : SplitRatio F :=
  ⟨Float64.ofRat (1 / 2), by
    obtain ⟨h₁, h₂, h₃⟩ := Float64.half_between (F := F)
    rw [accepts, SplitRatio.min, SplitRatio.max, h₁, h₂, h₃]
    rfl⟩

theorem new_value (ratio : SplitRatio F) : new ratio.value = some ratio := by
  simp [new, ratio.accepted]

end SplitRatio

def LayoutRect.splitBoundary (r : LayoutRect) (axis : SplitAxis) (ratio : SplitRatio F) : I32 :=
  let offset := Float64.round (Float64.mul (Float64.ofNat (r.extent axis).val) ratio.value)
  -- the `i64` sum saturates only far outside the `i32` range it is clamped to
  I32.sat ((r.origin axis).val + Float64.asI64 offset)

end Ratio

namespace LayoutRect

def firstChild (r : LayoutRect) (axis : SplitAxis) (boundary : I32) : Option LayoutRect :=
  match axis with
  | .horizontal => do
    let width ← (I32.checkedSub boundary r.x).bind I32.toU32
    new r.x r.y width r.height
  | .vertical => do
    let height ← (I32.checkedSub boundary r.y).bind I32.toU32
    new r.x r.y r.width height

def secondChild (r : LayoutRect) (axis : SplitAxis) (boundary : I32) : Option LayoutRect :=
  match axis with
  | .horizontal => do
    let width ← (I32.checkedSub r.right boundary).bind I32.toU32
    new boundary r.y width r.height
  | .vertical => do
    let height ← (I32.checkedSub r.bottom boundary).bind I32.toU32
    new r.x boundary r.width height

theorem firstChild_eq_some {r r' : LayoutRect} {axis : SplitAxis} {boundary : I32} :
    r.firstChild axis boundary = some r' ↔
      r'.origin axis = r.origin axis ∧ r'.crossOrigin axis = r.crossOrigin axis ∧
        r'.cross axis = r.cross axis ∧ (r'.extent axis).val ≤ 2147483647 ∧
        ((r'.extent axis).val : ℤ) = boundary.val - (r.origin axis).val := by
  cases axis <;> rw [firstChild, Option.bind_eq_bind, Option.bind_eq_some_iff] <;>
    simp only [I32.checkedSub_bind_toU32, new_eq_some, origin, crossOrigin, cross, extent]
  · constructor
    · rintro ⟨size, ⟨hle, hs⟩, hx, hy, rfl, hh⟩
      exact ⟨hx, hy, hh, hle, hs⟩
    · rintro ⟨hx, hy, hh, hle, hs⟩
      exact ⟨_, ⟨hle, hs⟩, hx, hy, rfl, hh⟩
  · constructor
    · rintro ⟨size, ⟨hle, hs⟩, hx, hy, hw, rfl⟩
      exact ⟨hy, hx, hw, hle, hs⟩
    · rintro ⟨hy, hx, hw, hle, hs⟩
      exact ⟨_, ⟨hle, hs⟩, hx, hy, hw, rfl⟩

theorem secondChild_eq_some {r r' : LayoutRect} {axis : SplitAxis} {boundary : I32} :
    r.secondChild axis boundary = some r' ↔ r'.origin axis = boundary ∧ r'.crossOrigin axis = r.crossOrigin axis ∧
        r'.cross axis = r.cross axis ∧ (r'.extent axis).val ≤ 2147483647 ∧
        ((r'.extent axis).val : ℤ) = (r.far axis).val - boundary.val := by
  cases axis <;> rw [secondChild, Option.bind_eq_bind, Option.bind_eq_some_iff] <;>
    simp only [I32.checkedSub_bind_toU32, new_eq_some, origin, crossOrigin, cross, extent, far]
  · constructor
    · rintro ⟨size, ⟨hle, hs⟩, hx, hy, rfl, hh⟩
      exact ⟨hx, hy, hh, hle, hs⟩
    · rintro ⟨hx, hy, hh, hle, hs⟩
      exact ⟨_, ⟨hle, hs⟩, hx, hy, rfl, hh⟩
  · constructor
    · rintro ⟨size, ⟨hle, hs⟩, hx, hy, hw, rfl⟩
      exact ⟨hy, hx, hw, hle, hs⟩
    · rintro ⟨hy, hx, hw, hle, hs⟩
      exact ⟨_, ⟨hle, hs⟩, hx, hy, hw, rfl⟩

end LayoutRect
end Typhon.Layout
