import Typhon.Foundation.StableSort
import Typhon.Output.SceneDamage

/-! Layer surfaces. Panels reserve space along the edges of their output, each from what those before it left, and are
placed there; windows get the rest. -/

namespace Typhon.Output
open Foundation

inductive Layer where
  | background
  | bottom
  | top
  | overlay

def Layer.rank : Layer → ℕ
  | background => 0
  | bottom => 1
  | top => 2
  | overlay => 3

structure LayerAnchors where
  top : Bool
  bottom : Bool
  left : Bool
  right : Bool

inductive ExclusiveEdge where
  | top
  | bottom
  | left
  | right
  deriving DecidableEq

def LayerAnchors.exclusiveEdge (a : LayerAnchors) : Option ExclusiveEdge :=
  match a.top, a.bottom, a.left, a.right with
  | true, false, false, false | true, false, true, true => some .top
  | false, true, false, false | false, true, true, true => some .bottom
  | false, false, true, false | true, true, true, false => some .left
  | false, false, false, true | true, true, false, true => some .right
  | _, _, _, _ => none

structure LayerMargins where
  top : I32
  right : I32
  bottom : I32
  left : I32

structure LayerRequestedSize where
  width : U32
  height : U32

structure LayerSurfaceCommitState where
  layer : Layer
  anchors : LayerAnchors
  size : LayerRequestedSize
  margins : LayerMargins
  exclusiveZone : I32

namespace LayerSurfaceCommitState
variable (s : LayerSurfaceCommitState)

def exclusiveEdge : Option ExclusiveEdge := if 0 < s.exclusiveZone.val then s.anchors.exclusiveEdge else none

def edgeMargin : ExclusiveEdge → I32
  | .top => s.margins.top
  | .bottom => s.margins.bottom
  | .left => s.margins.left
  | .right => s.margins.right

def reservationExtent (edge : ExclusiveEdge) : U32 :=
  (s.exclusiveZone.toU32.getD ⟨0, U32.zero_mem⟩).saturatingAdd
    ((I32.max (s.edgeMargin edge) (.sat 0)).toU32.getD ⟨0, U32.zero_mem⟩)

end LayerSurfaceCommitState

structure LayerLayoutRect where
  x : I32
  y : I32
  width : U32
  height : U32

def LayerLayoutRect.fromOutput (outputSize : U32 × U32) : LayerLayoutRect :=
    ⟨.sat 0, .sat 0, outputSize.1, outputSize.2⟩

def LayerLayoutRect.reserve (r : LayerLayoutRect) (edge : ExclusiveEdge) (amount : U32) : LayerLayoutRect :=
  match edge with
  | .top =>
    let applied := min amount.val r.height.val
    { r with y := r.y.saturatingAdd (asI32 applied), height := asU32 (r.height.val - applied) }
  | .bottom => { r with height := asU32 (r.height.val - min amount.val r.height.val) }
  | .left =>
    let applied := min amount.val r.width.val
    { r with x := r.x.saturatingAdd (asI32 applied), width := asU32 (r.width.val - applied) }
  | .right => { r with width := asU32 (r.width.val - min amount.val r.width.val) }

structure LayerGeometry where
  x : I32
  y : I32
  width : U32
  height : U32

/-- What decides the placement along one axis; the sums are taken in `i64`, where they are exact. -/
structure LayerAxis where
  start : I32
  extent : U32
  size : U32
  before : I32
  after : I32
  anchoredBefore : Bool
  anchoredAfter : Bool

namespace LayerAxis
variable (a : LayerAxis)

def opposite : Bool := a.anchoredBefore && a.anchoredAfter

def stretch : Bool := a.size.val = 0 && a.opposite

def length : ℤ :=
  let available := max (a.extent.val - (a.before.val + a.after.val)) 1
  max 1 (min (if a.stretch then available else a.size.val) (max a.extent.val 1))

def position : ℤ :=
  if a.stretch then a.start.val + a.before.val
  else if a.opposite then a.start.val + (a.extent.val - a.length).tdiv 2
  else if a.anchoredBefore then a.start.val + a.before.val
  else if a.anchoredAfter then a.start.val + a.extent.val - a.length - a.after.val
  else a.start.val + (a.extent.val - a.length).tdiv 2

end LayerAxis

def LayerSurfaceCommitState.horizontal (s : LayerSurfaceCommitState) (rect : LayerLayoutRect) : LayerAxis :=
  ⟨rect.x, rect.width, s.size.width, s.margins.left, s.margins.right, s.anchors.left, s.anchors.right⟩

def LayerSurfaceCommitState.vertical (s : LayerSurfaceCommitState) (rect : LayerLayoutRect) : LayerAxis :=
  ⟨rect.y, rect.height, s.size.height, s.margins.top, s.margins.bottom, s.anchors.top, s.anchors.bottom⟩

def calculateLayerGeometryInRect (s : LayerSurfaceCommitState) (rect : LayerLayoutRect) : LayerGeometry :=
  { x := .sat (s.horizontal rect).position
    y := .sat (s.vertical rect).position
    width := asU32 (s.horizontal rect).length
    height := asU32 (s.vertical rect).length }

structure LayerSurfaceRole where
  output : Option ℕ
  mapped : Bool
  initialConfigureSent : Bool
  committed : LayerSurfaceCommitState
  order : ℕ

structure LogicalOutput where
  position : I32 × I32
  logicalSize : I32 × I32

def stackKey (state : LayerSurfaceCommitState) (order : ℕ) : ℕ ×ₗ ℕ := toLex (state.layer.rank, order)

/-- The entries of the map of layer surfaces come in the order in which it is walked. -/
structure LayerShell where
  outputSize : U32 × U32
  nativeOutputId : Option ℕ
  logicalOutputIds : Finset ℕ
  logicalOutputs : ℕ → Option LogicalOutput
  layerSurfaces : List (ℕ × LayerSurfaceRole)
  nodup : (layerSurfaces.map Prod.fst).Nodup

structure ExclusiveSurface where
  surfaceId : ℕ
  state : LayerSurfaceCommitState
  edge : ExclusiveEdge
  order : ℕ

def ExclusiveSurface.reserve (e : ExclusiveSurface) (rect : LayerLayoutRect) : LayerLayoutRect :=
  rect.reserve e.edge (e.state.reservationExtent e.edge)

def arrangeExclusive : LayerLayoutRect → List ExclusiveSurface → List (ℕ × LayerGeometry) × LayerLayoutRect
  | usable, [] => ([], usable)
  | usable, e :: rest =>
    let (geometries, usable') := arrangeExclusive (e.reserve usable) rest
    ((e.surfaceId, calculateLayerGeometryInRect e.state usable) :: geometries, usable')

namespace LayerShell
variable (s : LayerShell) (output : Option ℕ)

def outputLayoutRect : LayerLayoutRect :=
  match output with
  | none => .fromOutput s.outputSize
  | some id =>
    if some id = s.nativeOutputId then .fromOutput s.outputSize
    else match s.logicalOutputs id with
      | none => .fromOutput s.outputSize
      | some o => ⟨o.position.1, o.position.2, asU32 (max o.logicalSize.1.val 1), asU32 (max o.logicalSize.2.val 1)⟩

def layerRoleOutput (role : LayerSurfaceRole) : Option ℕ :=
  (role.output.filter (· ∈ s.logicalOutputIds)).or (s.nativeOutputId.filter (· ∈ s.logicalOutputIds))

def reservedUsableGeometryFor : LayerLayoutRect :=
  let roles := (s.layerSurfaces.map Prod.snd).filter fun role => s.layerRoleOutput role = output
  (sortByKey (fun role => stackKey role.committed role.order) roles).foldl (fun usable role =>
    if !role.mapped || role.committed.exclusiveZone.val ≤ 0 then usable
    else match role.committed.exclusiveEdge with
      | some edge => usable.reserve edge (role.committed.reservationExtent edge)
      | none => usable) (s.outputLayoutRect output)

def exclusiveEntry (entry : ℕ × LayerSurfaceRole) : Option ExclusiveSurface :=
  if !entry.2.mapped || s.layerRoleOutput entry.2 ≠ output then none
  else entry.2.committed.exclusiveEdge.map (⟨entry.1, entry.2.committed, ·, entry.2.order⟩)

def exclusive : List ExclusiveSurface :=
  sortByKey (fun e => stackKey e.state e.order) (s.layerSurfaces.filterMap (s.exclusiveEntry output))

def arrangedLayerGeometriesOn (includeUnmappedSurfaceId : Option ℕ) : HashMap ℕ LayerGeometry :=
  let full := s.outputLayoutRect output
  let (placed, usable) := arrangeExclusive full (s.exclusive output)
  let geometries := HashMap.collect placed
  let isActive := fun entry : ℕ × LayerSurfaceRole => entry.2.mapped || entry.2.initialConfigureSent ||
    includeUnmappedSurfaceId = some entry.1
  let remaining := s.layerSurfaces.filter fun entry => s.layerRoleOutput entry.2 = output && isActive entry &&
    (geometries.lookup entry.1).isNone
  (sortByKey (fun entry => stackKey entry.2.committed entry.2.order) remaining).foldl (fun geometries entry =>
    let rect := if entry.2.committed.exclusiveZone.val = -1 then full else usable
    geometries.insert entry.1 (calculateLayerGeometryInRect entry.2.committed rect)) geometries

end LayerShell

/-! ### Pixels -/

def area (x y width height : ℤ) : Set (ℤ × ℤ) := Set.Ico x (x + width) ×ˢ Set.Ico y (y + height)

theorem mem_area {x y width height : ℤ} {p : ℤ × ℤ} :
    p ∈ area x y width height ↔ (x ≤ p.1 ∧ p.1 < x + width) ∧ y ≤ p.2 ∧ p.2 < y + height := Iff.rfl

theorem area_subset_iff {x y w h x' y' w' h' : ℤ} (hw : 0 < w) (hh : 0 < h) :
    area x y w h ⊆ area x' y' w' h' ↔ (x' ≤ x ∧ x + w ≤ x' + w') ∧ y' ≤ y ∧ y + h ≤ y' + h' := by
  have hx : x < x + w := by omega
  have hy : y < y + h := by omega
  have hne : (Set.Ico x (x + w) ×ˢ Set.Ico y (y + h)).Nonempty := ⟨(x, y), ⟨le_rfl, hx⟩, le_rfl, hy⟩
  rw [area, area, Set.prod_subset_prod_iff' hne, Set.Ico_subset_Ico_iff hx, Set.Ico_subset_Ico_iff hy]

def LayerGeometry.pixels (g : LayerGeometry) : Set (ℤ × ℤ) := area g.x.val g.y.val g.width.val g.height.val

namespace LayerLayoutRect
variable (r : LayerLayoutRect)

def pixels : Set (ℤ × ℤ) := area r.x.val r.y.val r.width.val r.height.val

def strip (edge : ExclusiveEdge) (amount : U32) : Set (ℤ × ℤ) :=
  let deep : ℤ := min amount.val r.height.val
  let wide : ℤ := min amount.val r.width.val
  match edge with
  | .top => area r.x.val r.y.val r.width.val deep
  | .bottom => area r.x.val (r.y.val + r.height.val - deep) r.width.val deep
  | .left => area r.x.val r.y.val wide r.height.val
  | .right => area (r.x.val + r.width.val - wide) r.y.val wide r.height.val

structure InRange : Prop where
  width : r.width.val ≤ 2147483647
  height : r.height.val ≤ 2147483647
  right : r.x.val + r.width.val ≤ 2147483647
  bottom : r.y.val + r.height.val ≤ 2147483647

variable {r}

theorem InRange.reserve_spec (h : r.InRange) (edge : ExclusiveEdge) (amount : U32) :
    (r.reserve edge amount).InRange ∧ Disjoint (r.strip edge amount) (r.reserve edge amount).pixels ∧
      r.strip edge amount ∪ (r.reserve edge amount).pixels = r.pixels := by
  obtain ⟨hwidth, hheight, hright, hbottom⟩ := h
  have hx := r.x.property
  have hy := r.y.property
  refine ⟨?_, Set.disjoint_left.mpr fun p hstrip hrest => ?_, Set.ext fun p => ?_⟩
  · cases edge <;> constructor <;>
      simp only [reserve, I32.saturatingAdd, I32.sat_val, asI32, asU32] <;> omega
  · cases edge <;>
      simp only [strip, pixels, reserve, mem_area, I32.saturatingAdd, I32.sat_val, asI32, asU32] at hstrip hrest <;>
      omega
  · rw [Set.mem_union]
    cases edge <;>
      simp only [strip, pixels, reserve, mem_area, I32.saturatingAdd, I32.sat_val, asI32, asU32] <;>
      omega

end LayerLayoutRect

/-! ### Successive reservations -/

structure Placement where
  surface : ExclusiveSurface
  rect : LayerLayoutRect

namespace Placement
variable (p : Placement)

def geometry : LayerGeometry := calculateLayerGeometryInRect p.surface.state p.rect

def strip : Set (ℤ × ℤ) := p.rect.strip p.surface.edge (p.surface.state.reservationExtent p.surface.edge)

end Placement

def placements : LayerLayoutRect → List ExclusiveSurface → List Placement
  | _, [] => []
  | rect, e :: rest => ⟨e, rect⟩ :: placements (e.reserve rect) rest

def remainder (rect : LayerLayoutRect) (es : List ExclusiveSurface) : LayerLayoutRect :=
  es.foldl (fun usable e => e.reserve usable) rect

theorem arrangeExclusive_eq (rect : LayerLayoutRect) (es : List ExclusiveSurface) :
    arrangeExclusive rect es =
      ((placements rect es).map fun p => (p.surface.surfaceId, p.geometry), remainder rect es) := by
  induction es generalizing rect with
  | nil => rfl
  | cons e es ih =>
    rw [arrangeExclusive, ih]
    rfl

theorem map_placements (rect : LayerLayoutRect) (es : List ExclusiveSurface) :
    (placements rect es).map Placement.surface = es := by
  induction es generalizing rect with
  | nil => rfl
  | cons e es ih => rw [placements, List.map_cons, ih]

theorem placements_partition {rect : LayerLayoutRect} (h : rect.InRange) (es : List ExclusiveSurface) :
    (placements rect es).Pairwise (fun p q => Disjoint p.strip q.strip) ∧
      (∀ p ∈ placements rect es, p.rect.InRange ∧ Disjoint p.strip (remainder rect es).pixels) ∧
      (⋃ p ∈ placements rect es, p.strip) ∪ (remainder rect es).pixels = rect.pixels := by
  induction es generalizing rect with
  | nil => simp [placements, remainder]
  | cons e es ih =>
    obtain ⟨hrange, hapart, hunion⟩ := h.reserve_spec e.edge (e.state.reservationExtent e.edge)
    obtain ⟨hpairwise, hleft, hcover⟩ := ih (show (e.reserve rect).InRange from hrange)
    have hrest : ∀ p ∈ placements (e.reserve rect) es, p.strip ⊆ (e.reserve rect).pixels := by
      intro p hp
      rw [← hcover]
      exact fun _ hpixel => .inl (Set.mem_iUnion₂.mpr ⟨p, hp, hpixel⟩)
    refine ⟨List.pairwise_cons.mpr ⟨fun p hp => hapart.mono_right (hrest p hp), hpairwise⟩, ?_, ?_⟩
    · rintro p (_ | ⟨_, hp⟩)
      · exact ⟨h, hapart.mono_right (hcover ▸ Set.subset_union_right)⟩
      · exact hleft p hp
    · rw [← hunion, ← ExclusiveSurface.reserve, ← hcover, ← Set.union_assoc]
      simp only [placements, List.mem_cons, Set.iUnion_iUnion_eq_or_left]
      rfl

/-! ### Panels in their strips -/

namespace LayerAxis
variable {a : LayerAxis}

theorem length_bounds (a : LayerAxis) : 1 ≤ a.length ∧ a.length ≤ max (a.extent.val : ℤ) 1 := by
  simp only [length]
  omega

theorem asU32_length (a : LayerAxis) : ((asU32 a.length).val : ℤ) = a.length := by
  have := a.length_bounds
  have := a.extent.property
  simp only [asU32]
  omega

theorem within_iff (hend : a.start.val + a.extent.val ≤ 2147483647) (hbefore : 0 ≤ a.before.val)
    (hafter : 0 ≤ a.after.val) (hfit : a.before.val + a.after.val ≤ a.extent.val)
    (hanchored : a.anchoredBefore = a.anchoredAfter) :
    (a.start.val ≤ (I32.sat a.position).val ∧ (I32.sat a.position).val + a.length ≤ a.start.val + a.extent.val) ↔
      0 < a.extent.val ∧ (a.stretch = true → a.before.val < a.extent.val) := by
  have hstart := a.start.property
  have hlength := a.length_bounds
  by_cases hstretch : a.stretch = true
  · have hlen : a.length = max 1 (min (max (a.extent.val - (a.before.val + a.after.val)) 1) (max a.extent.val 1)) := by
      rw [length, if_pos hstretch]
    simp only [position, hstretch, if_true, I32.sat_val, forall_const]
    omega
  · have hposition : a.position = a.start.val + (a.extent.val - a.length).tdiv 2 := by
      unfold position
      rw [if_neg hstretch]
      split_ifs with hopposite h₁ h₂
      · rfl
      · exact absurd (by rw [opposite, ← hanchored, h₁]; rfl) hopposite
      · exact absurd (hanchored.trans h₂) h₁
      · rfl
    -- one pixel is centred in none without a shift
    have hhalf : 0 ≤ (a.extent.val - a.length).tdiv 2 ∧
        2 * (a.extent.val - a.length).tdiv 2 ≤ max (a.extent.val - a.length) 0 := by
      rcases le_or_gt 0 (a.extent.val - a.length) with h | h
      · rw [Int.tdiv_eq_ediv_of_nonneg h]
        omega
      · rw [show a.extent.val - a.length = -1 by omega]
        decide
    rw [hposition, and_iff_left fun h => absurd h hstretch, I32.sat_val]
    generalize (a.extent.val - a.length).tdiv 2 = half at hhalf
    omega

variable {zone : ℤ} (hend : a.start.val + a.extent.val ≤ 2147483647) (hzone : a.length ≤ zone)
include hend hzone

theorem near_within {amount : U32} (hamount : amount.val = zone + a.before.val) (hbefore : 0 ≤ a.before.val)
    (hnear : a.anchoredBefore = true) (hfar : a.anchoredAfter = false) (hfit : a.length + a.before.val ≤ a.extent.val) :
    a.start.val ≤ (I32.sat a.position).val ∧
      (I32.sat a.position).val + a.length ≤ a.start.val + min (amount.val : ℤ) a.extent.val := by
  have hstart := a.start.property
  have hlength := a.length_bounds
  have hopposite : a.opposite = false := by rw [opposite, hfar, Bool.and_false]
  simp only [position, stretch, hopposite, hnear, Bool.and_false, Bool.false_eq_true, if_false, if_true, I32.sat_val]
  omega

theorem far_within {amount : U32} (hamount : amount.val = zone + a.after.val) (hafter : 0 ≤ a.after.val)
    (hnear : a.anchoredBefore = false) (hfar : a.anchoredAfter = true) (hfit : a.length + a.after.val ≤ a.extent.val) :
    a.start.val + a.extent.val - min (amount.val : ℤ) a.extent.val ≤ (I32.sat a.position).val ∧
      (I32.sat a.position).val + a.length ≤
        a.start.val + a.extent.val - min (amount.val : ℤ) a.extent.val + min (amount.val : ℤ) a.extent.val := by
  have hstart := a.start.property
  have hlength := a.length_bounds
  have hopposite : a.opposite = false := by rw [opposite, hnear, Bool.false_and]
  simp only [position, stretch, hopposite, hnear, hfar, Bool.and_false, Bool.false_eq_true, if_false, if_true,
    I32.sat_val]
  omega

end LayerAxis

theorem LayerAnchors.exclusiveEdge_sides {a : LayerAnchors} {edge : ExclusiveEdge} (h : a.exclusiveEdge = some edge) :
    match edge with
    | .top => a.top = true ∧ a.bottom = false ∧ a.left = a.right
    | .bottom => a.top = false ∧ a.bottom = true ∧ a.left = a.right
    | .left => a.left = true ∧ a.right = false ∧ a.top = a.bottom
    | .right => a.left = false ∧ a.right = true ∧ a.top = a.bottom := by
  obtain ⟨_ | _, _ | _, _ | _, _ | _⟩ := a <;> cases edge <;>
    first | exact ⟨rfl, rfl, rfl⟩ | exact absurd h (by decide)

theorem LayerSurfaceCommitState.reservationExtent_val (s : LayerSurfaceCommitState) (edge : ExclusiveEdge)
    (hzone : 0 < s.exclusiveZone.val) (hmargin : 0 ≤ (s.edgeMargin edge).val) :
    ((s.reservationExtent edge).val : ℤ) = s.exclusiveZone.val + (s.edgeMargin edge).val := by
  have := s.exclusiveZone.property
  have := (s.edgeMargin edge).property
  have hval : ∀ a : I32, 0 ≤ a.val → ((a.toU32.getD ⟨0, U32.zero_mem⟩).val : ℤ) = a.val := by
    intro a ha
    rw [I32.toU32, if_pos ha]
    exact Int.toNat_of_nonneg ha
  have hzone := hval _ hzone.le
  have hmargin := hval (I32.max (s.edgeMargin edge) (.sat 0)) (by simp)
  rw [I32.max_val, I32.sat_val] at hmargin
  rw [reservationExtent, U32.saturatingAdd_val]
  omega

namespace Placement
variable (p : Placement)

def across : LayerAxis :=
  match p.surface.edge with
  | .top | .bottom => p.surface.state.vertical p.rect
  | .left | .right => p.surface.state.horizontal p.rect

def along : LayerAxis :=
  match p.surface.edge with
  | .top | .bottom => p.surface.state.horizontal p.rect
  | .left | .right => p.surface.state.vertical p.rect

structure Fits : Prop where
  top : 0 ≤ p.surface.state.margins.top.val
  right : 0 ≤ p.surface.state.margins.right.val
  bottom : 0 ≤ p.surface.state.margins.bottom.val
  left : 0 ≤ p.surface.state.margins.left.val
  zone : p.across.length ≤ p.surface.state.exclusiveZone.val
  across : p.across.length + (p.surface.state.edgeMargin p.surface.edge).val ≤ p.across.extent.val
  along : p.along.before.val + p.along.after.val ≤ p.along.extent.val

def Roomy : Prop := 0 < p.along.extent.val ∧ (p.along.stretch = true → p.along.before.val < p.along.extent.val)

variable {p}

theorem geometry_subset_iff {x y w h : ℤ} : p.geometry.pixels ⊆ area x y w h ↔
    (x ≤ p.geometry.x.val ∧ p.geometry.x.val + (p.surface.state.horizontal p.rect).length ≤ x + w) ∧
      y ≤ p.geometry.y.val ∧ p.geometry.y.val + (p.surface.state.vertical p.rect).length ≤ y + h := by
  have hh := LayerAxis.length_bounds (p.surface.state.horizontal p.rect)
  have hv := LayerAxis.length_bounds (p.surface.state.vertical p.rect)
  rw [LayerGeometry.pixels, geometry, calculateLayerGeometryInRect, LayerAxis.asU32_length, LayerAxis.asU32_length,
    area_subset_iff (by omega) (by omega)]

theorem geometry_subset_strip_iff (hrange : p.rect.InRange)
    (hedge : p.surface.state.exclusiveEdge = some p.surface.edge)
    (hfits : p.Fits) : p.geometry.pixels ⊆ p.strip ↔ p.Roomy := by
  obtain ⟨⟨id, s, edge, order⟩, rect⟩ := p
  obtain ⟨-, -, hright, hbottom⟩ := hrange
  obtain ⟨htop', hright', hbottom', hleft', hzone, hacross, halong⟩ := hfits
  rw [LayerSurfaceCommitState.exclusiveEdge] at hedge
  split_ifs at hedge with hpos
  have hsides := LayerAnchors.exclusiveEdge_sides hedge
  cases edge with
  | top =>
    obtain ⟨hnear, hfar, hsame⟩ := hsides
    refine geometry_subset_iff.trans ((and_iff_left ?_).trans (LayerAxis.within_iff hright hleft' hright' halong hsame))
    exact LayerAxis.near_within hbottom hzone (s.reservationExtent_val .top hpos htop') htop' hnear hfar hacross
  | bottom =>
    obtain ⟨hnear, hfar, hsame⟩ := hsides
    refine geometry_subset_iff.trans ((and_iff_left ?_).trans (LayerAxis.within_iff hright hleft' hright' halong hsame))
    exact LayerAxis.far_within hbottom hzone (s.reservationExtent_val .bottom hpos hbottom') hbottom' hnear hfar hacross
  | left =>
    obtain ⟨hnear, hfar, hsame⟩ := hsides
    refine geometry_subset_iff.trans
      ((and_iff_right ?_).trans (LayerAxis.within_iff hbottom htop' hbottom' halong hsame))
    exact LayerAxis.near_within hright hzone (s.reservationExtent_val .left hpos hleft') hleft' hnear hfar hacross
  | right =>
    obtain ⟨hnear, hfar, hsame⟩ := hsides
    refine geometry_subset_iff.trans
      ((and_iff_right ?_).trans (LayerAxis.within_iff hbottom htop' hbottom' halong hsame))
    exact LayerAxis.far_within hright hzone (s.reservationExtent_val .right hpos hright') hright' hnear hfar hacross

end Placement

/-! ### The two loops -/

namespace LayerShell
variable {s : LayerShell} {output : Option ℕ}

theorem exclusiveEntry_eq_some {entry : ℕ × LayerSurfaceRole} {e : ExclusiveSurface}
    (h : s.exclusiveEntry output entry = some e) :
    e.surfaceId = entry.1 ∧ e.state = entry.2.committed ∧ e.order = entry.2.order ∧ e.state.exclusiveEdge =
      some e.edge := by
  unfold exclusiveEntry at h
  split_ifs at h
  obtain ⟨edge, hedge, rfl⟩ := Option.map_eq_some_iff.mp h
  exact ⟨rfl, rfl, rfl, hedge⟩

theorem exclusive_edge {e : ExclusiveSurface} (h : e ∈ s.exclusive output) : e.state.exclusiveEdge = some e.edge := by
  rw [exclusive, sortByKey, List.mem_insertionSort] at h
  obtain ⟨entry, -, he⟩ := List.mem_filterMap.mp h
  exact (exclusiveEntry_eq_some he).2.2.2

theorem reservedUsableGeometryFor_eq (s : LayerShell) (output : Option ℕ) :
    s.reservedUsableGeometryFor output = remainder (s.outputLayoutRect output) (s.exclusive output) := by
  have hexclusive : s.exclusive output = (sortByKey (fun entry => stackKey entry.2.committed entry.2.order)
      s.layerSurfaces).filterMap (s.exclusiveEntry output) := by
    refine (filterMap_sortByKey (fun entry e he => ?_) _).symm
    rw [(exclusiveEntry_eq_some he).2.1, (exclusiveEntry_eq_some he).2.2.1]
  have hroles : sortByKey (fun role => stackKey role.committed role.order)
      ((s.layerSurfaces.map Prod.snd).filter fun role => s.layerRoleOutput role = output) =
      (sortByKey (fun entry => stackKey entry.2.committed entry.2.order) s.layerSurfaces).filterMap
        (Option.guard (fun role => s.layerRoleOutput role = output) ∘ Prod.snd) := by
    rw [← List.filterMap_eq_filter, List.filterMap_map]
    refine (filterMap_sortByKey (fun entry role hrole => ?_) _).symm
    rw [(Option.guard_eq_some_iff.mp hrole).1]
  rw [reservedUsableGeometryFor, hroles, remainder, hexclusive, List.foldl_filterMap, List.foldl_filterMap]
  congr 1
  funext usable entry
  by_cases hon : s.layerRoleOutput entry.2 = output
  · cases hmapped : entry.2.mapped with
    | false => simp [exclusiveEntry, Option.guard, hon, hmapped]
    | true =>
      by_cases hzone : entry.2.committed.exclusiveZone.val ≤ 0
      · simp [exclusiveEntry, Option.guard, hon, hmapped, hzone, hzone.not_gt, LayerSurfaceCommitState.exclusiveEdge]
      · cases hedge : entry.2.committed.exclusiveEdge <;>
          simp [exclusiveEntry, Option.guard, hon, hmapped, hzone, hedge, ExclusiveSurface.reserve]
  · simp [exclusiveEntry, Option.guard, hon]

theorem lookup_foldl_insert {α : Type} {key : α → ℕ} {value : α → LayerGeometry} {id : ℕ} {l : List α}
    (h : ∀ a ∈ l, key a ≠ id) (m : HashMap ℕ LayerGeometry) :
    (l.foldl (fun m a => m.insert (key a) (value a)) m).lookup id = m.lookup id := by
  induction l generalizing m with
  | nil => rfl
  | cons a l ih =>
    rw [List.foldl_cons, ih fun b hb => h b (List.mem_cons_of_mem _ hb), HashMap.lookup_insert,
      if_neg (h a List.mem_cons_self).symm]

def placed (s : LayerShell) (output : Option ℕ) : List Placement :=
  placements (s.outputLayoutRect output) (s.exclusive output)

theorem nodup_placed (s : LayerShell) (output : Option ℕ) :
    ((s.placed output).map fun p => p.surface.surfaceId).Nodup := by
  have hids : ((s.exclusive output).map ExclusiveSurface.surfaceId).Nodup := by
    rw [exclusive, sortByKey, ((List.perm_insertionSort _ _).map _).nodup_iff]
    refine List.pairwise_map.mpr ((List.pairwise_map.mp s.nodup).filterMap _ fun a b hab e he e' he' => ?_)
    rwa [(exclusiveEntry_eq_some he).1, (exclusiveEntry_eq_some he').1]
  rwa [← map_placements (s.outputLayoutRect output) (s.exclusive output), List.map_map] at hids

theorem lookup_arrangedLayerGeometriesOn (includeUnmappedSurfaceId : Option ℕ) {p : Placement}
    (h : p ∈ s.placed output) :
    (s.arrangedLayerGeometriesOn output includeUnmappedSurfaceId).lookup p.surface.surfaceId = some p.geometry := by
  have hplaced : (HashMap.collect ((s.placed output).map fun p => (p.surface.surfaceId, p.geometry))).lookup
      p.surface.surfaceId = some p.geometry :=
    (HashMap.lookup_collect (by rw [List.map_map]; exact s.nodup_placed output)).mpr (List.mem_map_of_mem h)
  rw [arrangedLayerGeometriesOn, arrangeExclusive_eq]
  dsimp only
  refine (lookup_foldl_insert (fun entry hentry hid => ?_) _).trans hplaced
  rw [sortByKey, List.mem_insertionSort, List.mem_filter, hid] at hentry
  rw [placed] at hplaced
  simp [hplaced] at hentry

theorem mem_exclusive {id : ℕ} {role : LayerSurfaceRole} {edge : ExclusiveEdge} (h : (id, role) ∈ s.layerSurfaces)
    (hmapped : role.mapped = true) (hon : s.layerRoleOutput role = output)
    (hedge : role.committed.exclusiveEdge = some edge) :
      ⟨id, role.committed, edge, role.order⟩ ∈ s.exclusive output := by
  rw [exclusive, sortByKey, List.mem_insertionSort]
  exact List.mem_filterMap.mpr ⟨_, h, by simp [exclusiveEntry, hmapped, hon, hedge]⟩

theorem panels_keep_apart (s : LayerShell) (output includeUnmappedSurfaceId : Option ℕ)
    (hrange : (s.outputLayoutRect output).InRange) : let usable := s.reservedUsableGeometryFor output
    usable = (arrangeExclusive (s.outputLayoutRect output) (s.exclusive output)).2 ∧
      (s.placed output).Pairwise (fun p q => Disjoint p.strip q.strip) ∧
      (∀ p ∈ s.placed output, Disjoint p.strip usable.pixels) ∧
      (⋃ p ∈ s.placed output, p.strip) ∪ usable.pixels = (s.outputLayoutRect output).pixels ∧
      (∀ id role edge, (id, role) ∈ s.layerSurfaces → role.mapped = true → s.layerRoleOutput role = output →
        role.committed.exclusiveEdge = some edge → ∃ p ∈ s.placed output, p.surface =
          ⟨id, role.committed, edge, role.order⟩) ∧
      (∀ p ∈ s.placed output,
        (s.arrangedLayerGeometriesOn output includeUnmappedSurfaceId).lookup p.surface.surfaceId = some p.geometry) ∧
      (∀ p ∈ s.placed output, p.Fits → (p.geometry.pixels ⊆ p.strip ↔ p.Roomy)) ∧
      (s.placed output).Pairwise (fun p q => p.Fits ∧ p.Roomy → q.Fits ∧ q.Roomy →
        Disjoint p.geometry.pixels q.geometry.pixels) ∧
      ∀ p ∈ s.placed output, p.Fits ∧ p.Roomy → Disjoint p.geometry.pixels usable.pixels := by
  obtain ⟨hpairwise, hleft, hcover⟩ := placements_partition hrange (s.exclusive output)
  have hsurface : ∀ {e}, (∃ p ∈ s.placed output, p.surface = e) ↔ e ∈ s.exclusive output := by
    intro e
    rw [← List.mem_map, placed, map_placements]
  have hiff : ∀ p ∈ s.placed output, p.Fits → (p.geometry.pixels ⊆ p.strip ↔ p.Roomy) := fun p hp =>
    Placement.geometry_subset_strip_iff (hleft p hp).1 (exclusive_edge (hsurface.mp ⟨p, hp, rfl⟩))
  have hin : ∀ p ∈ s.placed output, p.Fits ∧ p.Roomy → p.geometry.pixels ⊆ p.strip := fun p hp h =>
    (hiff p hp h.1).mpr h.2
  intro usable
  have husable : usable = remainder (s.outputLayoutRect output) (s.exclusive output) :=
    s.reservedUsableGeometryFor_eq output
  rw [husable]
  refine ⟨by rw [arrangeExclusive_eq], hpairwise, fun p hp => (hleft p hp).2, hcover,
    fun id role edge h hmapped hon hedge => hsurface.mpr (mem_exclusive h hmapped hon hedge),
    fun p hp => lookup_arrangedLayerGeometriesOn _ hp, hiff,
    hpairwise.imp_of_mem fun hp hq hapart h h' => hapart.mono (hin _ hp h) (hin _ hq h'),
    fun p hp h => (hleft p hp).2.mono_left (hin p hp h)⟩

end LayerShell

def bar (left : ℤ) : LayerSurfaceCommitState :=
  ⟨.top, ⟨true, false, true, true⟩, ⟨asU32 0, asU32 30⟩, ⟨.sat 0, .sat 0, .sat 0, .sat left⟩, .sat 30⟩

def barShell (left : ℤ) : LayerShell :=
  ⟨(asU32 100, asU32 80), none, ∅, fun _ => none, [(1, ⟨none, true, true, bar left, 0⟩)], List.nodup_singleton 1⟩

def barPlacement (left : ℤ) : Placement := ⟨⟨1, bar left, .top, 0⟩, .fromOutput (asU32 100, asU32 80)⟩

theorem placed_barShell (left : ℤ) : (barShell left).placed none = [barPlacement left] := rfl

theorem panels_keep_apart_bar : (barPlacement 20).geometry.pixels ⊆ (barPlacement 20).strip ∧
    Disjoint (barPlacement 20).geometry.pixels ((barShell 20).reservedUsableGeometryFor none).pixels := by
  obtain ⟨-, -, -, -, -, -, hiff, -, hleft⟩ := LayerShell.panels_keep_apart (barShell 20) none none
    ⟨by decide, by decide, by decide, by decide⟩
  have hmem : barPlacement 20 ∈ (barShell 20).placed none := by
    rw [placed_barShell]
    exact List.mem_singleton_self _
  have hfits : (barPlacement 20).Fits := ⟨by decide, by decide, by decide, by decide, by decide, by decide, by decide⟩
  have hroomy : (barPlacement 20).Roomy := ⟨by decide, by decide⟩
  exact ⟨(hiff _ hmem hfits).mpr hroomy, hleft _ hmem ⟨hfits, hroomy⟩⟩

theorem bar_leaves_output : barPlacement 100 ∈ (barShell 100).placed none ∧ (barPlacement 100).Fits ∧
    ¬(barPlacement 100).geometry.pixels ⊆ (barPlacement 100).strip := by
  have hfits : (barPlacement 100).Fits := ⟨by decide, by decide, by decide, by decide, by decide, by decide, by decide⟩
  refine ⟨by rw [placed_barShell]; exact List.mem_singleton_self _, hfits, fun hsubset => ?_⟩
  have hroomy := (Placement.geometry_subset_strip_iff ⟨by decide, by decide, by decide, by decide⟩ rfl hfits).mp hsubset
  exact absurd (hroomy.2 (by decide)) (by decide)

end Typhon.Output
