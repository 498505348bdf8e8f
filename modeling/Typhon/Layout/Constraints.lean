import Typhon.Layout.ExactAspect
import Typhon.Layout.Geometry

/-! Size constraints of a window and the client rectangle they allow inside a tile. -/

namespace Typhon.Layout
open Foundation

structure LayoutConstraints (F : Type) where
  minWidth : Option U32
  minHeight : Option U32
  maxWidth : Option U32
  maxHeight : Option U32
  baseWidth : Option U32
  baseHeight : Option U32
  widthIncrement : Option U32
  heightIncrement : Option U32
  minAspect : Option F
  maxAspect : Option F

inductive ConstraintValidationError where
  | widthBounds
  | heightBounds
  | zeroWidthIncrement
  | zeroHeightIncrement
  | invalidMinAspect
  | invalidMaxAspect
  | reversedAspectRange
  deriving DecidableEq

inductive ClientRectError where
  | invalidConstraints (error : ConstraintValidationError)
  | infeasible
  deriving DecidableEq

variable {F : Type} [Float64 F]

def LayoutConstraints.unconstrained : LayoutConstraints F :=
  ⟨none, none, none, none, none, none, none, none, none, none⟩

def sizesReversed (min max : Option U32) : Bool :=
  match min, max with
  | some min, some max => decide (max.val < min.val)
  | _, _ => false

def aspectInvalid (aspect : Option F) : Bool :=
  aspect.any fun aspect => !Float64.isFinite aspect || Float64.le aspect (Float64.ofRat 0)

def aspectsReversed (min max : Option F) : Bool :=
  match min, max with
  | some min, some max => Float64.lt max min
  | _, _ => false

namespace LayoutConstraints

variable (c : LayoutConstraints F)

def normalized : LayoutConstraints F :=
  let minAspect := if aspectInvalid c.minAspect then none else c.minAspect
  let maxAspect := if aspectInvalid c.maxAspect then none else c.maxAspect
  { c with
    maxWidth := if sizesReversed c.minWidth c.maxWidth then none else c.maxWidth
    maxHeight := if sizesReversed c.minHeight c.maxHeight then none else c.maxHeight
    widthIncrement := c.widthIncrement.filter fun step => 0 < step.val
    heightIncrement := c.heightIncrement.filter fun step => 0 < step.val
    minAspect := if aspectsReversed minAspect maxAspect then none else minAspect
    maxAspect := if aspectsReversed minAspect maxAspect then none else maxAspect }

def validate : Except ConstraintValidationError Unit :=
  if sizesReversed c.minWidth c.maxWidth then .error .widthBounds
  else if sizesReversed c.minHeight c.maxHeight then .error .heightBounds
  else if c.widthIncrement.any fun step => step.val = 0 then .error .zeroWidthIncrement
  else if c.heightIncrement.any fun step => step.val = 0 then .error .zeroHeightIncrement
  else if aspectInvalid c.minAspect then .error .invalidMinAspect
  else if aspectInvalid c.maxAspect then .error .invalidMaxAspect
  else if aspectsReversed c.minAspect c.maxAspect then .error .reversedAspectRange
  else .ok ()

def widthLattice : Option LegalDimensionLattice :=
  LegalDimensionLattice.new c.minWidth c.maxWidth c.baseWidth c.widthIncrement

def heightLattice : Option LegalDimensionLattice :=
  LegalDimensionLattice.new c.minHeight c.maxHeight c.baseHeight c.heightIncrement

end LayoutConstraints

def minimumDimension (lattice : Option LegalDimensionLattice) : Option ℕ := do
  let lattice ← lattice
  lattice.alignUp lattice.lower

def maximumDimension (limit : ℕ) (lattice : Option LegalDimensionLattice) : Option ℕ := do
  let lattice ← lattice
  lattice.alignDown limit

variable (c : LayoutConstraints F)

def LayoutConstraints.independentLowerBounds :
    Except ClientRectError (ℕ × ℕ) :=
  match c.validate with
  | .error e => .error (.invalidConstraints e)
  | .ok () =>
    match minimumDimension c.widthLattice, minimumDimension c.heightLattice with
    | some width, some height => .ok (width, height)
    | _, _ => .error .infeasible

/-! ### Aspect arithmetic -/

def aspectOf (width height : ℕ) : F := Float64.div (Float64.ofNat width) (Float64.ofNat height)

def aspectIsLegal (width height : ℕ) : Bool :=
  (c.minAspect.all fun min => Float64.le min (aspectOf width height)) &&
    c.maxAspect.all fun max => Float64.le (aspectOf width height) max

def clampDimension {ε : Type} (value : F) : Run ε ℕ := do
  let value ← Float64.clamp value (Float64.ofRat 1) (Float64.ofNat 4294967295)
  .ok (Float64.asU32 value).val

variable (value : ℕ)

def ceilAspectRatio {ε : Type} (aspect : F) : Run ε ℕ :=
  clampDimension (Float64.ceil (Float64.div (Float64.ofNat value) aspect))

def floorAspectRatio {ε : Type} (aspect : F) : Run ε ℕ :=
  clampDimension (Float64.floor (Float64.div (Float64.ofNat value) aspect))

def ceilAspectProduct {ε : Type} (aspect : F) : Run ε ℕ :=
  clampDimension (Float64.ceil (Float64.mul (Float64.ofNat value) aspect))

def floorAspectProduct {ε : Type} (aspect : F) : Run ε ℕ :=
  clampDimension (Float64.floor (Float64.mul (Float64.ofNat value) aspect))

def tighten {ε : Type} (combine : ℕ → ℕ → ℕ) (bound : ℕ) (aspect : Option F)
    (limit : F → Run ε ℕ) : Run ε ℕ :=
  match aspect with
  | none => .ok bound
  | some aspect => do
    let limit ← limit aspect
    .ok (combine bound limit)

/-! ### The search -/

def nextCandidate (l : LegalDimensionLattice) (goUp : ℕ → Bool) (candidate : ℕ) : Option ℕ :=
  if goUp candidate then l.alignUp (min (candidate + 1) 4294967295)
  else l.alignDown (candidate - 1)

/-- Step through the lattice from `candidate` until it is legal or leaves the range. A run of
`2 ^ 32 + 1` steps has met a candidate twice, and then never ends. -/
def candidateLoop {ε : Type} (l : LegalDimensionLattice) (lower upper : ℕ) (legal goUp : ℕ → Bool) :
    ℕ → ℕ → Run ε (Option ℕ)
  | 0, _ => Run.diverge
  | fuel + 1, candidate =>
    if candidate < lower then .ok none
    else if legal candidate then .ok (some candidate)
    else
      match nextCandidate l goUp candidate with
      | none => .ok none
      | some next =>
        if next < lower ∨ upper < next then .ok none
        else candidateLoop l lower upper legal goUp fuel next

def candidateFuel : ℕ := 4294967297

def largestFrom {ε : Type} (l : LegalDimensionLattice) (lower upper : ℕ) (legal goUp : ℕ → Bool) :
    Run ε (Option ℕ) :=
  match l.alignDown upper with
  | none => .ok none
  | some candidate => candidateLoop l lower upper legal goUp candidateFuel candidate

def largestHeightForWidth {ε : Type} (heights : LegalDimensionLattice)
    (width : ℕ) : Run ε (Option ℕ) := do
  let lower ← tighten max heights.lower c.maxAspect (ceilAspectRatio width)
  let upper ← tighten min heights.upper c.minAspect (floorAspectRatio width)
  largestFrom heights lower upper (aspectIsLegal c width)
    fun height => c.maxAspect.any fun max => Float64.lt max (aspectOf width height)

def largestWidthForHeight {ε : Type} (widths : LegalDimensionLattice)
    (height : ℕ) : Run ε (Option ℕ) := do
  let lower ← tighten max widths.lower c.minAspect (ceilAspectProduct height)
  let upper ← tighten min widths.upper c.maxAspect (floorAspectProduct height)
  largestFrom widths lower upper (fun width => aspectIsLegal c width height)
    fun width => c.minAspect.any fun min => Float64.lt (aspectOf width height) min

def directLatticeCandidates : ℕ := 100000

def scanLattice {ε : Type} (l : LegalDimensionLattice) (largest : ℕ → Run ε (Option ℕ)) (first : ℕ) :
    ℕ → Run ε (Option (ℕ × ℕ))
  | 0 => .ok none
  | count + 1 =>
    match l.valueAt (first + count) with
    | none => .ok none
    | some value => do
      match ← largest value with
      | some other => .ok (some (value, other))
      | none => scanLattice l largest first count

/-- The search over the members `first..=last` of `l`, largest first; `largest` completes a member
to a pair. Every level halves the interval, so 64 levels are enough for any `u64` interval. -/
def searchLattice {ε : Type} (l : LegalDimensionLattice) (canIntersect : ℕ → ℕ → Bool)
    (largest : ℕ → Run ε (Option ℕ)) : ℕ → ℕ → ℕ → Run ε (Option (ℕ × ℕ))
  | 0, _, _ => Run.diverge
  | levels + 1, first, last =>
    if last < first then .ok none
    else
      match l.valueAt last, l.valueAt first with
      | some high, some low =>
        if !canIntersect low high then .ok none
        else do
          match ← largest high with
          | some other => .ok (some (high, other))
          | none =>
            if first = last then .ok none
            else if last - first + 1 ≤ directLatticeCandidates then
              scanLattice l largest first (last - first + 1)
            else do
              let middle := first + (last - first) / 2
              match ← searchLattice l canIntersect largest levels (middle + 1) last with
              | some pair => .ok (some pair)
              | none => searchLattice l canIntersect largest levels first middle
      | _, _ => .ok none

def continuousWidthIntervalCanIntersect (heights : LegalDimensionLattice)
    (low high : ℕ) : Bool :=
  !(c.maxAspect.any fun max => Float64.lt max (aspectOf low heights.upper)) &&
    !(c.minAspect.any fun min => Float64.lt (aspectOf high heights.lower) min)

def continuousHeightIntervalCanIntersect (widths : LegalDimensionLattice)
    (low high : ℕ) : Bool :=
  !(c.maxAspect.any fun max => Float64.lt max (aspectOf widths.lower high)) &&
    !(c.minAspect.any fun min => Float64.lt (aspectOf widths.upper low) min)

def searchWidths {ε : Type} (widths heights : LegalDimensionLattice)
    (first last : ℕ) : Run ε (Option (ℕ × ℕ)) :=
  searchLattice widths (continuousWidthIntervalCanIntersect c heights)
    (largestHeightForWidth c heights) 64 first last

def searchHeights {ε : Type} (heights widths : LegalDimensionLattice)
    (first last : ℕ) : Run ε (Option (ℕ × ℕ)) := do
  let pair ← searchLattice heights (continuousHeightIntervalCanIntersect c widths)
    (largestWidthForHeight c widths) 64 first last
  .ok (pair.map Prod.swap)

def findBestLatticePairWithStats {ε : Type}
    (widths heights : LegalDimensionLattice) : Run ε (Option (ℕ × ℕ)) :=
  if widths.cardinality ≤ heights.cardinality then
    searchWidths c widths heights 0 (widths.cardinality - 1)
  else searchHeights c heights widths 0 (heights.cardinality - 1)

def LayoutConstraints.exactAspect : Option ExactAspectRatio :=
  match c.minAspect, c.maxAspect with
  | some min, some max => if Float64.sameBits min max then ExactAspectRatio.fromF64 min else none
  | _, _ => none

def findBestLatticePair {ε : Type}
    (widths heights : LegalDimensionLattice) : Run ε (Option (ℕ × ℕ)) :=
  match c.exactAspect with
  | some ratio => largestExactAspectPair widths heights ratio
  | none => findBestLatticePairWithStats c widths heights

def toU32 (n : ℕ) : U32 := ⟨min n 4294967295, by omega⟩

theorem toU32_pos (n : ℕ) : 0 < (toU32 (max n 1)).val := by simp [toU32]

def rectOf (x y : ℤ) (width height : ℕ) : LayoutRect :=
  ⟨I32.sat x, I32.sat y, toU32 (max width 1), toU32 (max height 1), toU32_pos width, toU32_pos height⟩

def tileLattices (tile : LayoutRect) :
    Option (LegalDimensionLattice × LegalDimensionLattice) := do
  let widthMin ← minimumDimension c.widthLattice
  let heightMin ← minimumDimension c.heightLattice
  let widthMax ← maximumDimension tile.width.val c.widthLattice
  let heightMax ← maximumDimension tile.height.val c.heightLattice
  let widths ← LegalDimensionLattice.new (some (toU32 widthMin)) (some (toU32 widthMax))
    c.baseWidth c.widthIncrement
  let heights ← LegalDimensionLattice.new (some (toU32 heightMin)) (some (toU32 heightMax))
    c.baseHeight c.heightIncrement
  some (widths, heights)

def centred (origin : I32) (offset : ℕ) : I32 := origin.saturatingAdd (toU32 offset).toI32

def resolveClientRectWithinTile (tile : LayoutRect) (c : LayoutConstraints F) :
    Run ClientRectError LayoutRect :=
  match c.validate with
  | .error e => Run.fail (.invalidConstraints e)
  | .ok () => do
    let (widths, heights) ← Run.okOr .infeasible (tileLattices c tile)
    let best ← findBestLatticePair c widths heights
    let (width, height) ← Run.okOr .infeasible best
    -- both sizes are members of lattices that end at the tile's size
    let xOffset := (tile.width.val - width) / 2
    let yOffset := (tile.height.val - height) / 2
    Run.okOr .infeasible
      (LayoutRect.new (centred tile.x xOffset) (centred tile.y yOffset) (toU32 width) (toU32 height))

end Typhon.Layout
