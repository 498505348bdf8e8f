import Typhon.Foundation.Collect
import Typhon.Foundation.SwapRemove
import Typhon.Foundation.Trim
import Typhon.Effects.Damage
import Typhon.Layout.Geometry

/-! The damage of a frame: the part of the output in which the scene of the frame differs from the scene
presented last, found from snapshots of both. -/

namespace Typhon.Output
open Foundation Layout

/-! ### Rectangles -/

structure NativeDamageRect where
  x : I32
  y : I32
  width : U32
  height : U32
  deriving DecidableEq

def asI32 (z : ℤ) : I32 := ⟨(z + 2147483648) % 4294967296 - 2147483648, by omega⟩

def asU32 (z : ℤ) : U32 := ⟨(z % 4294967296).toNat, by omega⟩

def toU32OrMax (z : ℤ) : U32 :=
  if h : 0 ≤ z ∧ z ≤ 4294967295 then ⟨z.toNat, by omega⟩ else ⟨4294967295, U32.max_mem⟩

namespace NativeDamageRect

variable (r : NativeDamageRect)

def left : ℤ := r.x.val

def top : ℤ := r.y.val

def right : ℤ := r.left + r.width.val

def bottom : ℤ := r.top + r.height.val

def containsPoint (p : ℤ × ℤ) : Prop :=
  r.left ≤ p.1 ∧ p.1 < r.right ∧ r.top ≤ p.2 ∧ p.2 < r.bottom

instance (r : NativeDamageRect) (p : ℤ × ℤ) : Decidable (r.containsPoint p) :=
  inferInstanceAs (Decidable (_ ∧ _ ∧ _ ∧ _))

def pixels : ℕ := min (r.width.val * r.height.val) 18446744073709551615

def clippedToOutput (outputWidth outputHeight : U32) : Option NativeDamageRect :=
  let left := max 0 (min r.left outputWidth.val)
  let top := max 0 (min r.top outputHeight.val)
  let right := max 0 (min r.right outputWidth.val)
  let bottom := max 0 (min r.bottom outputHeight.val)
  if left < right ∧ top < bottom then
    some ⟨asI32 left, asI32 top, asU32 (right - left), asU32 (bottom - top)⟩
  else none

def union (r other : NativeDamageRect) : NativeDamageRect :=
  let left := I32.min r.x other.x
  let top := I32.min r.y other.y
  ⟨left, top, toU32OrMax (max r.right other.right - left.val),
    toU32OrMax (max r.bottom other.bottom - top.val)⟩

end NativeDamageRect

/-- The inner loop of `coalesce_native_damage_rects`: what `pending` has become, `none` when the list has
it already, and what is left of the list. -/
def absorb (pending : NativeDamageRect) (coalesced : List NativeDamageRect) (index : ℕ) :
    Option NativeDamageRect × List NativeDamageRect :=
  if h : index < coalesced.length then
    let existing := coalesced[index]
    let union := existing.union pending
    if union.pixels ≤ min (existing.pixels + pending.pixels) 18446744073709551615 then
      absorb union (swapRemove coalesced index) 0
    else if existing = pending then (none, coalesced)
    else absorb pending coalesced (index + 1)
  else (some pending, coalesced)
termination_by (coalesced.length, coalesced.length - index)
decreasing_by
  · refine Prod.Lex.left _ _ ?_
    rw [(swapRemove_perm h).length_eq, List.length_eraseIdx_of_lt h]
    omega
  · exact Prod.Lex.right _ (by omega)

def coalesceNativeDamageRects (rects : List NativeDamageRect) : List NativeDamageRect :=
  rects.foldl (fun coalesced rect =>
    if rect.width.val = 0 ∨ rect.height.val = 0 then coalesced
    else
      match absorb rect coalesced 0 with
      | (none, coalesced) => coalesced
      | (some pending, coalesced) => coalesced ++ [pending]) []

/-! ### Output damage -/

inductive NativeDamageKind where
  | empty | surfaceDamage | fullOutput
  deriving DecidableEq

structure NativeOutputDamage where
  kind : NativeDamageKind
  rects : List NativeDamageRect
  pixels : ℕ

namespace NativeOutputDamage

def empty : NativeOutputDamage := ⟨.empty, [], 0⟩

def fullOutput (width height : U32) : NativeOutputDamage :=
  ⟨.fullOutput,
    if 0 < width.val ∧ 0 < height.val then [⟨⟨0, I32.zero_mem⟩, ⟨0, I32.zero_mem⟩, width, height⟩] else [],
    min (width.val * height.val) 18446744073709551615⟩

def countPixels (rects : List NativeDamageRect) : ℕ :=
  rects.foldl (fun pixels rect => min (pixels + rect.pixels) 18446744073709551615) 0

def surfaceDamage (rects : List NativeDamageRect) : NativeOutputDamage :=
  let rects := coalesceNativeDamageRects rects
  if rects = [] then empty else ⟨.surfaceDamage, rects, countPixels rects⟩

def unionSurfaceRects (damage : NativeOutputDamage) (rects : List NativeDamageRect) : NativeOutputDamage :=
  if damage.kind = .fullOutput then damage
  else
    let rects := coalesceNativeDamageRects (damage.rects ++ rects)
    ⟨if rects = [] then .empty else .surfaceDamage, rects, countPixels rects⟩

end NativeOutputDamage

/-! ### Snapshots -/

inductive NativeSurfaceDamageEvidence where
  | authoritativeEmpty
  | known (rects : List NativeDamageRect)
  | historyLost
  deriving DecidableEq

structure NativeSceneSurfaceSnapshot where
  surfaceId : ℕ
  visualRootSurfaceId : ℕ
  bounds : Option NativeDamageRect
  damage : NativeSurfaceDamageEvidence
  deriving DecidableEq

structure DecorationSceneSnapshot where
  windowId : WindowId
  rootSurfaceId : ℕ
  bounds : NativeDamageRect
  visualSignature : ℕ
  deriving DecidableEq

def DecorationSceneSnapshot.identity (d : DecorationSceneSnapshot) : WindowId × ℕ := (d.windowId, d.rootSurfaceId)

structure NativeSceneSnapshot where
  surfaces : List NativeSceneSurfaceSnapshot
  decorations : List DecorationSceneSnapshot
  popupSurfaceIds : List ℕ
  externalOverlaySurfaceIds : List ℕ
  effectDamage : Effects.EffectRegion
  effectIdentitySignature : ℕ
  visibilitySignature : ℕ

structure NativeClientCursorDamageState where
  surfaceId : ℕ
  generation : ℕ
  hotspotX : I32
  hotspotY : I32
  rect : Option NativeDamageRect
  deriving DecidableEq

structure NativeCursorDamageBounds where
  previousClient : Option NativeClientCursorDamageState
  client : Option NativeClientCursorDamageState
  previousSoftware : Option NativeDamageRect
  software : Option NativeDamageRect

structure ScanOrders where
  previousSurfaces : HashMap.Order ℕ
  currentSurfaces : HashMap.Order ℕ
  membership : HashMap.Order ℕ
  previousDecorations : HashMap.Order (WindowId × ℕ)
  currentDecorations : HashMap.Order (WindowId × ℕ)

/-! ### Surfaces

The functions that push to the accumulator of the source return what they push. -/

def surfacesById (surfaces : List NativeSceneSurfaceSnapshot) : HashMap ℕ NativeSceneSurfaceSnapshot :=
  HashMap.collect (surfaces.map fun surface => (surface.surfaceId, surface))

section Output
variable (outputWidth outputHeight : U32)

def clippedSceneRect (rect : Option NativeDamageRect) : List NativeDamageRect :=
  (rect.bind fun rect => rect.clippedToOutput outputWidth outputHeight).toList

def clippedSceneDamage (surface : NativeSceneSurfaceSnapshot) : List NativeDamageRect :=
  match surface.damage with
  | .authoritativeEmpty => []
  | .known damage => damage.flatMap fun rect => clippedSceneRect outputWidth outputHeight (some rect)
  | .historyLost => clippedSceneRect outputWidth outputHeight surface.bounds

def clippedBounds (surfaces : HashMap ℕ NativeSceneSurfaceSnapshot) (surfaceId : ℕ) : List NativeDamageRect :=
  clippedSceneRect outputWidth outputHeight
    ((surfaces.lookup surfaceId).bind NativeSceneSurfaceSnapshot.bounds)

def orderTransitionDamage (previous current : List NativeSceneSurfaceSnapshot)
    (previousDecorations currentDecorations : List DecorationSceneSnapshot) : List NativeDamageRect :=
  let previousIds := previous.map NativeSceneSurfaceSnapshot.surfaceId
  let currentIds := current.map NativeSceneSurfaceSnapshot.surfaceId
  if previousIds = currentIds then []
  else
    let front := commonFront previousIds currentIds
    let back := commonBack front previousIds currentIds
    let previousById := surfacesById previous
    let currentById := surfacesById current
    let changedPrevious := between front back previousIds
    let changedCurrent := between front back currentIds
    let affectedRoots :=
      (changedPrevious.filterMap fun id =>
        (previousById.lookup id).map NativeSceneSurfaceSnapshot.visualRootSurfaceId) ++
      changedCurrent.filterMap fun id =>
        (currentById.lookup id).map NativeSceneSurfaceSnapshot.visualRootSurfaceId
    changedPrevious.flatMap (clippedBounds outputWidth outputHeight previousById) ++
    changedCurrent.flatMap (clippedBounds outputWidth outputHeight currentById) ++
    ((previous ++ current).filter fun s => decide (s.visualRootSurfaceId ∈ affectedRoots)).flatMap
      (fun s => clippedSceneRect outputWidth outputHeight s.bounds) ++
    ((previousDecorations ++ currentDecorations).filter fun d => decide (d.identity.2 ∈ affectedRoots)).flatMap
      fun d => clippedSceneRect outputWidth outputHeight (some d.bounds)

def previousSurfaceDamage (currentById : HashMap ℕ NativeSceneSurfaceSnapshot)
    (previousSurface : NativeSceneSurfaceSnapshot) : List NativeDamageRect :=
  match currentById.lookup previousSurface.surfaceId with
  | none => clippedSceneRect outputWidth outputHeight previousSurface.bounds
  | some currentSurface =>
    if previousSurface.bounds ≠ currentSurface.bounds then
      clippedSceneRect outputWidth outputHeight previousSurface.bounds ++
      clippedSceneRect outputWidth outputHeight currentSurface.bounds ++
      clippedSceneDamage outputWidth outputHeight currentSurface
    else clippedSceneDamage outputWidth outputHeight currentSurface

variable (orders : ScanOrders)

def nativeSceneSurfaceTransitionDamage (previous current : List NativeSceneSurfaceSnapshot)
    (previousDecorations currentDecorations : List DecorationSceneSnapshot) : List NativeDamageRect :=
  let previousById := surfacesById previous
  let currentById := surfacesById current
  orderTransitionDamage outputWidth outputHeight previous current previousDecorations currentDecorations ++
  (orders.previousSurfaces.visit previousById.keys).flatMap (fun id =>
    ((previousById.lookup id).map (previousSurfaceDamage outputWidth outputHeight currentById)).getD []) ++
  (orders.currentSurfaces.visit currentById.keys).flatMap fun id =>
    if id ∈ previousById then []
    else ((currentById.lookup id).map fun surface =>
      clippedSceneRect outputWidth outputHeight surface.bounds ++
      clippedSceneDamage outputWidth outputHeight surface).getD []

def surfaceMembershipTransitionDamage (previousIds currentIds : List ℕ)
    (previousSurfaces currentSurfaces : List NativeSceneSurfaceSnapshot) : List NativeDamageRect :=
  (orders.membership.visit (symmDiff previousIds.toFinset currentIds.toFinset)).flatMap fun id =>
    clippedBounds outputWidth outputHeight (surfacesById previousSurfaces) id ++
    clippedBounds outputWidth outputHeight (surfacesById currentSurfaces) id

/-! ### Decorations -/

def nativeDecorationBoundsById (decorations : List DecorationSceneSnapshot) :
    HashMap (WindowId × ℕ) NativeDamageRect :=
  HashMap.collect ((decorations.filter fun d => decide (d.bounds.width.val ≠ 0 ∧ d.bounds.height.val ≠ 0)).map
    fun d => (d.identity, d.bounds))

def decorationSignatures (decorations : List DecorationSceneSnapshot) : HashMap (WindowId × ℕ) ℕ :=
  HashMap.collect (decorations.map fun d => (d.identity, d.visualSignature))

def decorationBoundsChanges (previous current : List DecorationSceneSnapshot) :
    List NativeDamageRect :=
  let previousBounds := nativeDecorationBoundsById previous
  let currentBounds := nativeDecorationBoundsById current
  let previousSignatures := decorationSignatures previous
  let currentSignatures := decorationSignatures current
  (orders.previousDecorations.visit previousBounds.keys).flatMap (fun identity =>
    if currentBounds.lookup identity ≠ previousBounds.lookup identity ∨
        currentSignatures.lookup identity ≠ previousSignatures.lookup identity then
      clippedSceneRect outputWidth outputHeight (previousBounds.lookup identity) ++
      clippedSceneRect outputWidth outputHeight (currentBounds.lookup identity)
    else []) ++
  (orders.currentDecorations.visit currentBounds.keys).flatMap fun identity =>
    if identity ∈ previousBounds then []
    else clippedSceneRect outputWidth outputHeight (currentBounds.lookup identity)

/-! ### Effects and cursors -/

def effectTransitionDamage (oldIdentity newIdentity : Option ℕ) (old new : Effects.EffectRegion) :
    Effects.EffectRegion :=
  if old = new ∧ oldIdentity = newIdentity then .empty
  else if old = new ∧ oldIdentity.isSome ∧ oldIdentity ≠ newIdentity then old
  else if oldIdentity.isSome ∧ oldIdentity = newIdentity ∧ old = new then .empty
  else old.union new

def boundingRect (region : Effects.EffectRegion) : Option Effects.EffectRect :=
  if region.conservativeFull then none
  else
    match region.rects with
    | [] => none
    | first :: rest => rest.foldlM Effects.EffectRect.union first

def ofEffectRect (rect : Effects.EffectRect) : NativeDamageRect := ⟨rect.x, rect.y, rect.width, rect.height⟩

def clientCursorDamageChanged : Option NativeClientCursorDamageState → Option NativeClientCursorDamageState → Bool
  | some previous, some current => !decide (previous = current)
  | none, none => false
  | _, _ => true

def nativeOutputDamageForSceneSnapshots (previous current : NativeSceneSnapshot)
    (cursor : NativeCursorDamageBounds) : NativeOutputDamage :=
  if previous.externalOverlaySurfaceIds ≠ current.externalOverlaySurfaceIds ∨
      previous.visibilitySignature ≠ current.visibilitySignature then
    .fullOutput outputWidth outputHeight
  else
    let damage := NativeOutputDamage.surfaceDamage
      (nativeSceneSurfaceTransitionDamage outputWidth outputHeight orders previous.surfaces current.surfaces
        previous.decorations current.decorations ++
      surfaceMembershipTransitionDamage outputWidth outputHeight orders previous.popupSurfaceIds
        current.popupSurfaceIds previous.surfaces current.surfaces ++
      decorationBoundsChanges outputWidth outputHeight orders previous.decorations current.decorations)
    let effects := effectTransitionDamage (some previous.effectIdentitySignature)
      (some current.effectIdentitySignature) previous.effectDamage current.effectDamage
    if !effects.isEmpty && (boundingRect effects).isNone then .fullOutput outputWidth outputHeight
    else
      let damage := if effects.isEmpty then damage
        else damage.unionSurfaceRects
          (effects.rects.filterMap fun rect => (ofEffectRect rect).clippedToOutput outputWidth outputHeight)
      if clientCursorDamageChanged cursor.previousClient cursor.client ||
          decide (cursor.previousSoftware ≠ cursor.software) then
        damage.unionSurfaceRects
          ((cursor.previousClient.bind NativeClientCursorDamageState.rect).toList ++
            (cursor.client.bind NativeClientCursorDamageState.rect).toList ++
            cursor.previousSoftware.toList ++ cursor.software.toList)
      else damage

end Output

end Typhon.Output
