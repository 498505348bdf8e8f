import Typhon.Foundation.Query
import Typhon.Layout.Constraints
import Typhon.Layout.Dwindle

/-! The layout solver: lower bounds, the feasibility context with its two caches, and the resolution
of every split to one pixel boundary. Recursion over the arena carries a depth bound; a recursion
deeper than the slot vector runs in a cycle. -/

namespace Typhon.Layout
open Foundation

structure LayoutWindowSnapshot (F : Type) where
  window : WindowId
  minimized : Bool
  constraints : LayoutConstraints F

structure TiledWindowTarget where
  window : WindowId
  tile : LayoutRect
  client : LayoutRect
  deriving DecidableEq

structure SubtreeLowerBounds where
  minWidth : ℕ
  minHeight : ℕ
  deriving DecidableEq

structure ConstraintInfeasibility where
  node : Option DwindleNodeId
  axis : Option SplitAxis
  requiredWidth : ℕ
  requiredHeight : ℕ
  availableWidth : ℕ
  availableHeight : ℕ
  windows : List WindowId
  deriving DecidableEq

inductive LayoutError where
  | missingSnapshot (window : WindowId)
  | duplicateSnapshot (window : WindowId)
  | invalidTree
  | invalidConstraints (window : WindowId)
  | constraintInfeasible (infeasibility : ConstraintInfeasibility)
  | invalidSplit (axis : SplitAxis)
  deriving DecidableEq

abbrev Snapshots (F : Type) := HashMap WindowId (LayoutWindowSnapshot F)

abbrev Requirements := HashMap DwindleNodeId SubtreeLowerBounds

variable {F : Type} [Float64 F]

structure SplitRatioRange (F : Type) [Float64 F] where
  min : SplitRatio F
  max : SplitRatio F

namespace SplitRatioRange

def new {ε : Type} (min max : F) : Run ε (Option (SplitRatioRange F)) :=
  let min := Float64.max min SplitRatio.min
  let max := Float64.min max SplitRatio.max
  if Float64.le min max then do
    let min ← Run.expect "safety-clamped minimum ratio" (SplitRatio.new min)
    let max ← Run.expect "safety-clamped maximum ratio" (SplitRatio.new max)
    .ok (some ⟨min, max⟩)
  else .ok none

def clamp {ε : Type} (range : SplitRatioRange F) (ratio : SplitRatio F) : Run ε (SplitRatio F) := do
  let value ← Float64.clamp ratio.value range.min.value range.max.value
  Run.expect "range always contains valid ratios" (SplitRatio.new value)

end SplitRatioRange

structure RatioOverride (F : Type) [Float64 F] where
  split : DwindleNodeId
  ratio : SplitRatio F

structure ResolvedSplit (F : Type) [Float64 F] where
  node : DwindleNodeId
  parentRect : LayoutRect
  preferredRatio : SplitRatio F
  effectiveRatio : SplitRatio F
  feasibleRange : SplitRatioRange F
  boundary : I32

structure TiledLayoutSolution (F : Type) [Float64 F] where
  updates : List TiledWindowTarget
  splits : List (ResolvedSplit F)
  requirements : Requirements
  nodeVisits : ℕ

def addVisits (visits more : ℕ) : ℕ := min (visits + more) 18446744073709551615

def DwindleTree.depthBound (t : DwindleTree F) : ℕ := t.nodes.slots.length + 1

/-! ### Snapshots and lower bounds -/

def snapshotMapFrom (map : Snapshots F) :
    List (LayoutWindowSnapshot F) → Run LayoutError (Snapshots F)
  | [] => .ok map
  | snapshot :: rest =>
    match snapshot.constraints.validate with
    | .error _ => Run.fail (.invalidConstraints snapshot.window)
    | .ok () =>
      if snapshot.window ∈ map then Run.fail (.duplicateSnapshot snapshot.window)
      else snapshotMapFrom (map.insert snapshot.window snapshot) rest

def snapshotMap (snapshots : List (LayoutWindowSnapshot F)) : Run LayoutError (Snapshots F) :=
  snapshotMapFrom ∅ snapshots

def combineBounds (axis : SplitAxis) :
    Option SubtreeLowerBounds → Option SubtreeLowerBounds → Option SubtreeLowerBounds
  | none, none => none
  | some value, none | none, some value => some value
  | some first, some second =>
    match axis with
    | .horizontal => some ⟨min (first.minWidth + second.minWidth) 4294967295,
        max first.minHeight second.minHeight⟩
    | .vertical => some ⟨max first.minWidth second.minWidth,
        min (first.minHeight + second.minHeight) 4294967295⟩

def leafInfeasible (id : DwindleNodeId) (window : WindowId) (constraints : LayoutConstraints F) :
    LayoutError :=
  .constraintInfeasible
    { node := some id
      axis := none
      requiredWidth := (constraints.minWidth.map Subtype.val).getD 1
      requiredHeight := (constraints.minHeight.map Subtype.val).getD 1
      availableWidth := 0
      availableHeight := 0
      windows := [window] }

structure BoundsState where
  requirements : Requirements
  nodeVisits : ℕ

def aggregateLowerBounds (t : DwindleTree F) (snapshots : Snapshots F) :
    ℕ → DwindleNodeId → BoundsState → Run LayoutError (Option SubtreeLowerBounds × BoundsState)
  | 0, _, _ => Run.diverge
  | depth + 1, id, s => do
    let s := { s with nodeVisits := addVisits s.nodeVisits 1 }
    let kind ← Run.okOr .invalidTree (t.nodeKind id)
    let (result, s) ← match kind with
      | .leaf window => do
        let snapshot ← Run.okOr (.missingSnapshot window) (snapshots.lookup window)
        if snapshot.minimized then .ok (none, s)
        else
          match snapshot.constraints.independentLowerBounds with
          | .error _ => Run.fail (leafInfeasible id window snapshot.constraints)
          | .ok (minWidth, minHeight) => .ok (some ⟨minWidth, minHeight⟩, s)
      | .split axis _ first second => do
        let (first, s) ← aggregateLowerBounds t snapshots depth first s
        let (second, s) ← aggregateLowerBounds t snapshots depth second s
        .ok (combineBounds axis first second, s)
    match result with
    | none => .ok (none, s)
    | some value => .ok (some value, { s with requirements := s.requirements.insert id value })

def collectActiveWindows (t : DwindleTree F) (snapshots : Snapshots F) :
    ℕ → DwindleNodeId → Run LayoutError (List WindowId)
  | 0, _ => Run.diverge
  | depth + 1, id => do
    let kind ← Run.okOr .invalidTree (t.nodeKind id)
    match kind with
    | .leaf window => do
      let snapshot ← Run.okOr (.missingSnapshot window) (snapshots.lookup window)
      .ok (if snapshot.minimized then [] else [window])
    | .split _ _ first second => do
      let first ← collectActiveWindows t snapshots depth first
      let second ← collectActiveWindows t snapshots depth second
      .ok (first ++ second)

def activeWindows (t : DwindleTree F) (snapshots : Snapshots F) (id : DwindleNodeId) :
    Run LayoutError (List WindowId) := do
  let windows ← Run.dropError (collectActiveWindows t snapshots t.depthBound id)
  .ok (windows.getD [])

/-! ### Feasibility -/

/-- `FeasibilityContext` without its references: the two caches, one for each axis along which a
least extent is asked for, and the counter. Only least extents that exist are cached. -/
structure Feasibility where
  cache : SplitAxis → HashMap (DwindleNodeId × ℕ) ℕ
  nodeVisits : ℕ

def Feasibility.new : Feasibility := ⟨fun _ => ∅, 0⟩

def rectWithSize (axis : SplitAxis) (extent cross : ℕ) : LayoutRect :=
  let size (n : ℕ) : U32 := ⟨min (max n 1) 4294967295, by omega⟩
  match axis with
  | .horizontal => ⟨⟨0, I32.zero_mem⟩, ⟨0, I32.zero_mem⟩, size extent, size cross, by simp [size], by simp [size]⟩
  | .vertical => ⟨⟨0, I32.zero_mem⟩, ⟨0, I32.zero_mem⟩, size cross, size extent, by simp [size], by simp [size]⟩

/-- `minimum_width_for_height` along the horizontal axis, `minimum_height_for_width` along the
vertical one; `fit` answers `can_fit` for a node. -/
def minimumExtent (fit : DwindleNodeId → LayoutRect → RunS Feasibility LayoutError Bool)
    (axis : SplitAxis) (id : DwindleNodeId) (cross cap : ℕ) :
    RunS Feasibility LayoutError (Option ℕ) := do
  let s ← get
  match (s.cache axis).lookup (id, cross) with
  | some value => pure (if value ≤ cap then some value else none)
  | none =>
    let high := max cap 1
    let low ← Query.bisect (fun extent => fit id (rectWithSize axis extent cross)) (high - 1) 1 high
    if ← fit id (rectWithSize axis low cross) then
      modify fun s => { s with cache := Function.update s.cache axis ((s.cache axis).insert (id, cross) low) }
      pure (some low)
    else pure none

def safeRatio {ε : Type} (value : F) : Run ε (SplitRatio F) :=
  Run.expect "safe ratio" (SplitRatio.new value)

def boundaryLimits (rect : LayoutRect) (axis : SplitAxis) (first second : ℕ) : I32 × I32 :=
  ((rect.origin axis).saturatingAdd (toU32 first).toI32,
    (rect.far axis).saturatingSub (toU32 second).toI32)

def feasibleBoundaryRange (F : Type) [Float64 F]
    (minimum : SplitAxis → DwindleNodeId → ℕ → ℕ → RunS Feasibility LayoutError (Option ℕ))
    (axis : SplitAxis) (first second : DwindleNodeId) (rect : LayoutRect) :
    RunS Feasibility LayoutError (Option (I32 × I32)) := do
  let first ← minimum axis first (rect.cross axis).val (rect.extent axis).val
  let second ← minimum axis second (rect.cross axis).val (rect.extent axis).val
  match first, second with
  | some first, some second =>
    let limits := boundaryLimits rect axis first second
    let origin := rect.origin axis
    let lowest ← (safeRatio SplitRatio.min : Run LayoutError (SplitRatio F))
    let safetyMin := I32.max (rect.splitBoundary axis lowest) (origin.saturatingAdd ⟨1, by decide⟩)
    let highest ← (safeRatio SplitRatio.max : Run LayoutError (SplitRatio F))
    let safetyMax := I32.min (rect.splitBoundary axis highest)
      (origin.saturatingAdd ((rect.extent axis).toI32.saturatingSub ⟨1, by decide⟩))
    let minimum := I32.max limits.1 safetyMin
    let maximum := I32.min limits.2 safetyMax
    pure (if minimum.val ≤ maximum.val then some (minimum, maximum) else none)
  | _, _ => pure none

structure SolveContext (F : Type) [Float64 F] where
  tree : DwindleTree F
  snapshots : Snapshots F
  exact : Bool

def leafFits (ctx : SolveContext F) (window : WindowId) (rect : LayoutRect) : Run LayoutError Bool := do
  let snapshot ← Run.okOr (.missingSnapshot window) (ctx.snapshots.lookup window)
  if snapshot.minimized then .ok true
  else if !ctx.exact then
    match snapshot.constraints.independentLowerBounds with
    | .ok (width, height) => .ok (decide (width ≤ rect.width.val) && decide (height ≤ rect.height.val))
    | .error _ => .ok false
  else do
    let client ← Run.dropError (resolveClientRectWithinTile rect snapshot.constraints)
    .ok client.isSome

def canFit (ctx : SolveContext F) :
    ℕ → DwindleNodeId → LayoutRect → RunS Feasibility LayoutError Bool
  | 0, _, _ => (Run.diverge : Run LayoutError Bool)
  | depth + 1, id, rect => do
    modify fun s => { s with nodeVisits := addVisits s.nodeVisits 1 }
    let kind ← (Run.okOr .invalidTree (ctx.tree.nodeKind id) : Run LayoutError _)
    match kind with
    | .leaf window => (leafFits ctx window rect : Run LayoutError Bool)
    | .split axis _ first second =>
      if !ctx.exact then pure true
      else do
        let range ← feasibleBoundaryRange F (minimumExtent (canFit ctx depth)) axis first second rect
        pure range.isSome

def leastExtent (ctx : SolveContext F) : SplitAxis → DwindleNodeId → ℕ → ℕ →
    RunS Feasibility LayoutError (Option ℕ) :=
  minimumExtent (canFit ctx ctx.tree.depthBound)

def boundaryRange (ctx : SolveContext F) (axis : SplitAxis) (first second : DwindleNodeId)
    (rect : LayoutRect) : RunS Feasibility LayoutError (Option (I32 × I32)) :=
  feasibleBoundaryRange F (leastExtent ctx) axis first second rect

/-- `query.ok().flatten().unwrap_or(available.saturating_add(1))`. A failed query keeps the state
it started from. -/
def requiredExtent (query : RunS Feasibility LayoutError (Option ℕ)) (available : ℕ) :
    RunS Feasibility LayoutError ℕ := fun s => do
  match ← Run.dropError (query.run s) with
  | some (some value, s) => .ok (value, s)
  | some (none, s) => .ok (min (available + 1) 4294967295, s)
  | none => .ok (min (available + 1) 4294967295, s)

def axisOf (ctx : SolveContext F) (id : DwindleNodeId) : Option SplitAxis :=
  match ctx.tree.nodeKind id with
  | some (.split axis _ _ _) => some axis
  | _ => none

def infeasible (ctx : SolveContext F) (root : DwindleNodeId) (rect : LayoutRect) :
    RunS Feasibility LayoutError LayoutError := do
  let width ← requiredExtent (leastExtent ctx .horizontal root rect.height.val rect.width.val) rect.width.val
  let height ← requiredExtent (leastExtent ctx .vertical root rect.width.val rect.height.val) rect.height.val
  let windows ← (activeWindows ctx.tree ctx.snapshots root : Run LayoutError _)
  pure (.constraintInfeasible
    { node := some root
      axis := axisOf ctx root
      requiredWidth := width
      requiredHeight := height
      availableWidth := rect.width.val
      availableHeight := rect.height.val
      windows := windows })

def infeasibleSplit (ctx : SolveContext F) (node : DwindleNodeId) (axis : SplitAxis)
    (rect : LayoutRect) : Run LayoutError LayoutError := do
  let windows ← activeWindows ctx.tree ctx.snapshots node
  .ok (.constraintInfeasible
    { node := some node
      axis := some axis
      requiredWidth := 0
      requiredHeight := 0
      availableWidth := rect.width.val
      availableHeight := rect.height.val
      windows := windows })

/-! ### Resolution -/

structure SolveState (F : Type) [Float64 F] where
  feasibility : Feasibility
  updates : List TiledWindowTarget
  splits : List (ResolvedSplit F)
  nodeVisits : ℕ

structure ResolveInput (F : Type) [Float64 F] extends SolveContext F where
  requirements : Requirements
  overrides : HashMap DwindleNodeId (SplitRatio F)

def onFeasibility {α : Type} (query : RunS Feasibility LayoutError α) :
    RunS (SolveState F) LayoutError α := fun s => do
  let (a, feasibility) ← query.run s.feasibility
  .ok (a, { s with feasibility := feasibility })

def boundFor (bounds : SubtreeLowerBounds) : SplitAxis → ℕ
  | .horizontal => bounds.minWidth
  | .vertical => bounds.minHeight

def resolveLeaf (input : ResolveInput F) (id : DwindleNodeId) (window : WindowId) (rect : LayoutRect) :
    RunS (SolveState F) LayoutError Bool := do
  let snapshot ← (Run.okOr (.missingSnapshot window) (input.snapshots.lookup window) : Run LayoutError _)
  if snapshot.minimized then pure false
  else
    match resolveClientRectWithinTile rect snapshot.constraints with
    | .ok client =>
      modify fun s => { s with updates := s.updates ++ [⟨window, rect, client⟩] }
      pure true
    | .error (.error (.invalidConstraints _)) =>
      (Run.fail (.invalidConstraints window) : Run LayoutError Bool)
    | .error (.error .infeasible) =>
      (Run.fail (.constraintInfeasible
        { node := some id
          axis := none
          requiredWidth := ((input.requirements.lookup id).map SubtreeLowerBounds.minWidth).getD 0
          requiredHeight := ((input.requirements.lookup id).map SubtreeLowerBounds.minHeight).getD 0
          availableWidth := rect.width.val
          availableHeight := rect.height.val
          windows := [window] }) : Run LayoutError Bool)
    | .error (.panic message) => (Run.panic message : Run LayoutError Bool)
    | .error .diverge => (Run.diverge : Run LayoutError Bool)

def splitLimits (input : ResolveInput F) (id : DwindleNodeId) (axis : SplitAxis)
    (first second : DwindleNodeId) (firstBounds secondBounds : SubtreeLowerBounds)
    (rect : LayoutRect) : RunS (SolveState F) LayoutError (I32 × I32) :=
  if input.exact then do
    match ← onFeasibility (boundaryRange input.toSolveContext axis first second rect) with
    | some range => pure range
    | none => do
      let error ← onFeasibility (infeasible input.toSolveContext id rect)
      (Run.fail error : Run LayoutError _)
  else pure (boundaryLimits rect axis (boundFor firstBounds axis) (boundFor secondBounds axis))

def resolveSplit (input : ResolveInput F) (id : DwindleNodeId) (axis : SplitAxis)
    (ratio : SplitRatio F) (limits : I32 × I32) (rect : LayoutRect) :
    RunS (SolveState F) LayoutError (LayoutRect × LayoutRect) := do
  let origin := rect.origin axis
  let extent : F := Float64.ofNat (rect.extent axis).val
  let range ← (SplitRatioRange.new
    (Float64.div (Float64.ofInt (limits.1.saturatingSub origin).val) extent)
    (Float64.div (Float64.ofInt (limits.2.saturatingSub origin).val) extent) : Run LayoutError _)
  match range with
  | none => do
    let error ← (infeasibleSplit input.toSolveContext id axis rect : Run LayoutError _)
    (Run.fail error : Run LayoutError _)
  | some range => do
    let preferred := (input.overrides.lookup id).getD ratio
    let effective ← (range.clamp preferred : Run LayoutError _)
    let boundary ← ((rect.splitBoundary axis effective).clamp limits.1 limits.2 : Run LayoutError _)
    let firstRect ← (Run.okOr (.invalidSplit axis) (rect.firstChild axis boundary) : Run LayoutError _)
    let secondRect ← (Run.okOr (.invalidSplit axis) (rect.secondChild axis boundary) : Run LayoutError _)
    modify fun s => { s with splits := s.splits ++ [⟨id, rect, preferred, effective, range, boundary⟩] }
    pure (firstRect, secondRect)

def resolveNode (input : ResolveInput F) :
    ℕ → DwindleNodeId → LayoutRect → RunS (SolveState F) LayoutError Bool
  | 0, _, _ => (Run.diverge : Run LayoutError Bool)
  | depth + 1, id, rect => do
    modify fun s => { s with nodeVisits := addVisits s.nodeVisits 1 }
    let kind ← (Run.okOr .invalidTree (input.tree.nodeKind id) : Run LayoutError _)
    match kind with
    | .leaf window => resolveLeaf input id window rect
    | .split axis ratio first second =>
      match input.requirements.lookup first, input.requirements.lookup second with
      | none, none => pure false
      | some _, none => resolveNode input depth first rect
      | none, some _ => resolveNode input depth second rect
      | some firstBounds, some secondBounds => do
        let limits ← splitLimits input id axis first second firstBounds secondBounds rect
        let (firstRect, secondRect) ← resolveSplit input id axis ratio limits rect
        let _ ← resolveNode input depth first firstRect
        let _ ← resolveNode input depth second secondRect
        pure true

/-! ### Entry points -/

def needsExact (snapshots : Snapshots F) : Bool :=
  snapshots.anyValue fun snapshot => !snapshot.minimized &&
    (snapshot.constraints.minAspect.isSome || snapshot.constraints.maxAspect.isSome)

def overrideMap (overrides : List (RatioOverride F)) : HashMap DwindleNodeId (SplitRatio F) :=
  overrides.foldl (fun map override => map.insert override.split override.ratio) ∅

def solveTreeWithRatioOverrides (t : DwindleTree F) (root : LayoutRect)
    (snapshots : List (LayoutWindowSnapshot F)) (overrides : List (RatioOverride F)) :
    Run LayoutError (TiledLayoutSolution F) := do
  let snapshots ← snapshotMap snapshots
  match t.root with
  | none => .ok ⟨[], [], ∅, 0⟩
  | some rootId => do
    let (bounds, s) ← aggregateLowerBounds t snapshots t.depthBound rootId ⟨∅, 0⟩
    match bounds with
    | none => .ok ⟨[], [], s.requirements, s.nodeVisits⟩
    | some _ => do
      let ctx : SolveContext F := ⟨t, snapshots, needsExact snapshots⟩
      let fits ← if ctx.exact then (canFit ctx t.depthBound rootId root).run Feasibility.new
        else .ok (true, Feasibility.new)
      if !fits.1 then do
        let error ← (infeasible ctx rootId root).run fits.2
        Run.fail error.1
      else do
        let input : ResolveInput F := ⟨ctx, s.requirements, overrideMap overrides⟩
        let (_, state) ← (resolveNode input t.depthBound rootId root).run ⟨fits.2, [], [], s.nodeVisits⟩
        .ok ⟨state.updates, state.splits, s.requirements,
          addVisits state.nodeVisits state.feasibility.nodeVisits⟩

def solveTree (t : DwindleTree F) (root : LayoutRect) (snapshots : List (LayoutWindowSnapshot F)) :
    Run LayoutError (TiledLayoutSolution F) :=
  solveTreeWithRatioOverrides t root snapshots []

def subtreeFits (t : DwindleTree F) (node : DwindleNodeId) (rect : LayoutRect)
    (snapshots : List (LayoutWindowSnapshot F)) : Run LayoutError Bool := do
  let snapshots ← snapshotMap snapshots
  let (fits, _) ← (canFit ⟨t, snapshots, true⟩ t.depthBound node rect).run Feasibility.new
  .ok fits

end Typhon.Layout
