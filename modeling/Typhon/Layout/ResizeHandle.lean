import Typhon.Layout.Tiling

/-! The splits that an interactive resize moves: the handle of a tile edge is looked for upwards, over
the parent links of the whole tree, and its boundary in a solution, which only has the splits with
windows on both sides. -/

namespace Typhon.Layout
open Foundation LayoutRect TiledWindowTarget

structure ResizeEdges where
  top : Bool
  bottom : Bool
  left : Bool
  right : Bool
  deriving DecidableEq

structure TiledResizeAxis (F : Type) [Float64 F] where
  split : DwindleNodeId
  axis : SplitAxis
  startRatio : SplitRatio F
  parentRect : LayoutRect
  startBoundary : I32

structure TiledResizeHandle (F : Type) [Float64 F] where
  horizontal : Option (TiledResizeAxis F)
  vertical : Option (TiledResizeAxis F)

variable {F : Type} [Float64 F]

namespace TiledResizeHandle

def none : TiledResizeHandle F := ⟨.none, .none⟩

def onAxis (handle : TiledResizeHandle F) : SplitAxis → Option (TiledResizeAxis F)
  | .horizontal => handle.horizontal
  | .vertical => handle.vertical

def setAxis (handle : TiledResizeHandle F) (found : TiledResizeAxis F) : SplitAxis → TiledResizeHandle F
  | .horizontal => { handle with horizontal := some found }
  | .vertical => { handle with vertical := some found }

end TiledResizeHandle

def ResizeEdges.movedBy (edges : ResizeEdges) (axis : SplitAxis) (inFirst : Bool) : Bool :=
  match axis with
  | .horizontal => edges.right && inFirst || edges.left && !inFirst
  | .vertical => edges.bottom && inFirst || edges.top && !inFirst

def fromSolutionFrom (t : DwindleTree F) (solution : TiledLayoutSolution F) (edges : ResizeEdges) :
    ℕ → DwindleNodeId → TiledResizeHandle F → Run Empty (Option (TiledResizeHandle F))
  | 0, _, _ => Run.diverge
  | depth + 1, current, handle =>
    match t.parentOf current with
    | none => .ok none
    | some none =>
      .ok (if handle.horizontal.isSome || handle.vertical.isSome then some handle else none)
    | some (some parent) =>
      match t.nodeKind parent with
      | some (.split axis ratio first _) =>
        if edges.movedBy axis (decide (first = current)) && (handle.onAxis axis).isNone then
          match solution.splits.find? fun split => split.node = parent with
          | none => .ok none
          | some resolved =>
            fromSolutionFrom t solution edges depth parent
              (handle.setAxis ⟨parent, axis, ratio, resolved.parentRect, resolved.boundary⟩ axis)
        else fromSolutionFrom t solution edges depth parent handle
      | _ => .ok none

def TiledResizeHandle.fromSolution (t : DwindleTree F) (solution : TiledLayoutSolution F) (window : WindowId)
    (edges : ResizeEdges) : Run Empty (Option (TiledResizeHandle F)) :=
  match t.leafForWindow window with
  | .none => .ok .none
  | some leaf => fromSolutionFrom t solution edges t.depthBound leaf .none

/-! ### Single edges -/

inductive TileEdge where
  | left | right | top | bottom
  deriving DecidableEq

namespace TileEdge

def edges : TileEdge → ResizeEdges
  | left => ⟨false, false, true, false⟩
  | right => ⟨false, false, false, true⟩
  | top => ⟨true, false, false, false⟩
  | bottom => ⟨false, true, false, false⟩

def axis : TileEdge → SplitAxis
  | left | right => .horizontal
  | top | bottom => .vertical

def isFar : TileEdge → Bool
  | left | top => false
  | right | bottom => true

def position (edge : TileEdge) (r : LayoutRect) : I32 :=
  if edge.isFar then r.far edge.axis else r.origin edge.axis

theorem movedBy_iff (edge : TileEdge) (axis : SplitAxis) (inFirst : Bool) :
    edge.edges.movedBy axis inFirst = true ↔ axis = edge.axis ∧ inFirst = edge.isFar := by
  cases edge <;> cases axis <;> cases inFirst <;> decide

end TileEdge

variable {axis : SplitAxis}

theorem far_of_extent {r : LayoutRect} {far : I32} (hle : (r.extent axis).val ≤ 2147483647)
    (h : ((r.extent axis).val : ℤ) = far.val - (r.origin axis).val) : r.far axis = far := by
  have := far.property
  refine Subtype.ext ?_
  rw [far_eq, I32.saturatingAdd, I32.sat_val, U32.minI32_val]
  omega

theorem position_firstChild {r r' : LayoutRect} {boundary : I32}
    (h : r.firstChild axis boundary = some r') (edge : TileEdge) :
    edge.position r' = if axis = edge.axis ∧ true = edge.isFar then boundary else edge.position r := by
  obtain ⟨horigin, hcrossOrigin, hcross, hle, hextent⟩ := firstChild_eq_some.mp h
  have hfar : r'.far axis = boundary := far_of_extent hle (by rw [hextent, horigin])
  cases axis <;> cases edge <;>
    simp_all [TileEdge.position, TileEdge.isFar, TileEdge.axis, far, origin,
      crossOrigin, cross, right, bottom]

theorem position_secondChild {r r' : LayoutRect} {boundary : I32}
    (h : r.secondChild axis boundary = some r') (edge : TileEdge) :
    edge.position r' = if axis = edge.axis ∧ false = edge.isFar then boundary else edge.position r := by
  obtain ⟨horigin, hcrossOrigin, hcross, hle, hextent⟩ := secondChild_eq_some.mp h
  have hfar : r'.far axis = r.far axis := far_of_extent hle (by rw [hextent, horigin])
  cases axis <;> cases edge <;>
    simp_all [TileEdge.position, TileEdge.isFar, TileEdge.axis, far, origin,
      crossOrigin, cross, right, bottom]

/-! ### The splits of a solution -/

inductive Cuts (snapshots : Snapshots F) :
    Topology F → LayoutRect → List (WindowId × LayoutRect) → List (DwindleNodeId × I32) → Prop
  | minimized {T : Topology F} {rect : LayoutRect} (h : T.active snapshots = []) : Cuts snapshots T rect [] []
  | leaf {id : DwindleNodeId} {window : WindowId} {rect : LayoutRect} (h : isActive snapshots window = true) :
      Cuts snapshots (.leaf id window) rect [(window, rect)] []
  | first {id : DwindleNodeId} {axis : SplitAxis} {ratio : SplitRatio F} {first second : Topology F}
      {rect : LayoutRect} {tiles : List (WindowId × LayoutRect)} {cuts : List (DwindleNodeId × I32)}
      (h₂ : second.active snapshots = []) (h : Cuts snapshots first rect tiles cuts) :
      Cuts snapshots (.split id axis ratio first second) rect tiles cuts
  | second {id : DwindleNodeId} {axis : SplitAxis} {ratio : SplitRatio F} {first second : Topology F}
      {rect : LayoutRect} {tiles : List (WindowId × LayoutRect)} {cuts : List (DwindleNodeId × I32)}
      (h₁ : first.active snapshots = []) (h : Cuts snapshots second rect tiles cuts) :
      Cuts snapshots (.split id axis ratio first second) rect tiles cuts
  | both {id : DwindleNodeId} {axis : SplitAxis} {ratio : SplitRatio F} {first second : Topology F}
      {rect r₁ r₂ : LayoutRect} {boundary : I32} {tiles₁ tiles₂ : List (WindowId × LayoutRect)}
      {cuts₁ cuts₂ : List (DwindleNodeId × I32)}
      (h₁ : first.active snapshots ≠ []) (h₂ : second.active snapshots ≠ [])
      (hc₁ : rect.firstChild axis boundary = some r₁) (hc₂ : rect.secondChild axis boundary = some r₂)
      (hp₁ : Cuts snapshots first r₁ tiles₁ cuts₁) (hp₂ : Cuts snapshots second r₂ tiles₂ cuts₂) :
      Cuts snapshots (.split id axis ratio first second) rect (tiles₁ ++ tiles₂)
        ((id, boundary) :: (cuts₁ ++ cuts₂))

def TiledWindowTarget.placed (u : TiledWindowTarget) : WindowId × LayoutRect := (u.window, u.tile)

def ResolvedSplit.cut (s : ResolvedSplit F) : DwindleNodeId × I32 := (s.node, s.boundary)

variable {s s' : SolveState F} {input : ResolveInput F}

variable {rect : LayoutRect} {T : Topology F}

theorem resolveNode_cuts {depth : ℕ} {shown : Bool} (hT : Known input T)
    (h : (resolveNode input depth T.id rect).run s = .ok (shown, s')) :
    ∃ tiles cuts, Cuts input.snapshots T rect tiles cuts ∧ s'.updates.map placed = s.updates.map placed ++ tiles ∧
      s'.splits.map ResolvedSplit.cut = s.splits.map ResolvedSplit.cut ++ cuts := by
  induction T generalizing depth rect s s' shown with
  | leaf id window =>
    obtain ⟨parent, hden⟩ := hT.denotes
    cases depth with
    | zero => simp [resolveNode, Run.diverge] at h
    | succ depth =>
      rw [Topology.id, resolveNode_kind input depth hden.nodeKind_leaf, resolveLeaf_eq_ok] at h
      obtain ⟨snapshot, hs, ⟨hm, -, rfl⟩ | ⟨hm, -, client, hc, rfl⟩⟩ := h
      · refine ⟨[], [], .minimized ?_, by simp, by simp [SolveState.visit]⟩
        rw [Topology.active_leaf hs, if_pos hm]
      · exact ⟨_, [], .leaf (isActive_iff.mpr ⟨snapshot, hs, hm⟩), by simp [placed],
          by simp [SolveState.visit]⟩
  | split id axis ratio first second ih₁ ih₂ =>
    obtain ⟨parent, hden⟩ := hT.denotes
    cases depth with
    | zero => simp [resolveNode, Run.diverge] at h
    | succ depth =>
      have hactive₁ := hT.first.lookup_eq_none
      have hactive₂ := hT.second.lookup_eq_none
      rw [Topology.id, resolveNode_kind input depth hden.nodeKind_split] at h
      rcases hb₁ : input.requirements.lookup first.id with - | b₁ <;>
        rcases hb₂ : input.requirements.lookup second.id with - | b₂ <;>
        simp only [hb₁, hb₂, true_iff, reduceCtorEq, false_iff] at h hactive₁ hactive₂
      · cases h
        exact ⟨[], [], .minimized (by simp [hactive₁, hactive₂]), by simp, by simp [SolveState.visit]⟩
      · obtain ⟨tiles, cuts, hcuts, hup, hsp⟩ := ih₂ hT.second h
        exact ⟨tiles, cuts, .second hactive₁ hcuts, hup, hsp⟩
      · obtain ⟨tiles, cuts, hcuts, hup, hsp⟩ := ih₁ hT.first h
        exact ⟨tiles, cuts, .first hactive₂ hcuts, hup, hsp⟩
      · obtain ⟨pair, s₁, hpair, h⟩ := Run.runS_bind_eq_ok.mp h
        obtain ⟨⟨r₁, r₂⟩, s₂, hsplit, h⟩ := Run.runS_bind_eq_ok.mp h
        obtain ⟨a, s₃, hrun₁, h⟩ := Run.runS_bind_eq_ok.mp h
        obtain ⟨b, s₄, hrun₂, h⟩ := Run.runS_bind_eq_ok.mp h
        cases h
        obtain ⟨hup₁, hsp₁⟩ := splitLimits_keeps hpair
        obtain ⟨-, effective, range, boundary, hc₁, hc₂, rfl⟩ := resolveSplit_eq_ok hsplit
        obtain ⟨tiles₁, cuts₁, hcuts₁, hup₃, hsp₃⟩ := ih₁ hT.first hrun₁
        obtain ⟨tiles₂, cuts₂, hcuts₂, hup₄, hsp₄⟩ := ih₂ hT.second hrun₂
        refine ⟨_, _, .both hactive₁ hactive₂ hc₁ hc₂ hcuts₁ hcuts₂, ?_, ?_⟩
        · rw [hup₄, hup₃, hup₁, List.append_assoc]
          rfl
        · rw [hsp₄, hsp₃, hsp₁]
          simp [SolveState.visit, ResolvedSplit.cut]

variable {snapshots : List (LayoutWindowSnapshot F)}

theorem solve_cuts {t : DwindleTree F} {root : LayoutRect} {overrides : List (RatioOverride F)}
    {solution : TiledLayoutSolution F} (hT : t.Shape T)
    (h : solveTreeWithRatioOverrides t root snapshots overrides = .ok solution) :
    ∃ map, snapshotMap snapshots = .ok map ∧ Cuts map T root (solution.updates.map placed)
        (solution.splits.map ResolvedSplit.cut) := by
  obtain ⟨map, hmap, -, ⟨hnone, hup, hsp⟩ | ⟨input, _, _, shown, state, rfl, -, hknown, hrun, hup, hsp⟩⟩ :=
    solve_resolved hT h
  · exact ⟨map, hmap, by rw [hup, hsp]; exact .minimized hnone⟩
  · obtain ⟨tiles, cuts, hcuts, htiles, hsplits⟩ := resolveNode_cuts hknown hrun
    simp only [List.map_nil, List.nil_append] at htiles hsplits
    exact ⟨_, hmap, by rw [hup, hsp, htiles, hsplits]; exact hcuts⟩

variable {m : Snapshots F}

theorem Cuts.windows
    {tiles : List (WindowId × LayoutRect)} {cuts : List (DwindleNodeId × I32)} (h : Cuts m T rect tiles cuts) :
    tiles.map Prod.fst = T.active m := by
  induction h with
  | minimized h => exact h.symm
  | leaf h => simp [Topology.active, Topology.windows, h]
  | first h₂ h ih => rw [Topology.active_split, h₂, List.append_nil, ih]
  | second h₁ h ih => rw [Topology.active_split, h₁, List.nil_append, ih]
  | both h₁ h₂ hc₁ hc₂ hp₁ hp₂ ih₁ ih₂ => rw [Topology.active_split, List.map_append, ih₁, ih₂]

def Topology.shared (m : Snapshots F) : Topology F → List DwindleNodeId
  | .leaf _ _ => []
  | .split id _ _ first second =>
    (if first.active m ≠ [] ∧ second.active m ≠ [] then [id] else []) ++ (first.shared m ++ second.shared m)

theorem Topology.shared_minimized (h : T.active m = []) : T.shared m = [] := by
  induction T with
  | leaf id window => rfl
  | split id axis ratio first second ih₁ ih₂ =>
    rw [Topology.active_split, List.append_eq_nil_iff] at h
    simp [shared, h.1, ih₁ h.1, ih₂ h.2]

theorem Topology.shared_subset (m : Snapshots F) (T : Topology F) : T.shared m ⊆ T.ids := by
  induction T with
  | leaf id window => exact List.nil_subset _
  | split id axis ratio first second ih₁ ih₂ =>
    intro i hi
    simp only [shared, List.mem_append, List.mem_ite_nil_right, List.mem_singleton] at hi
    rw [ids, List.mem_cons, List.mem_append]
    exact hi.imp And.right (Or.imp (@ih₁ i) (@ih₂ i))

theorem Cuts.ids
    {tiles : List (WindowId × LayoutRect)} {cuts : List (DwindleNodeId × I32)} (h : Cuts m T rect tiles cuts) :
    cuts.map Prod.fst = T.shared m := by
  induction h with
  | minimized h => exact (Topology.shared_minimized h).symm
  | leaf h => rfl
  | first h₂ h ih => rw [Topology.shared, if_neg (fun hb => hb.2 h₂), Topology.shared_minimized h₂, ih]; simp
  | second h₁ h ih => rw [Topology.shared, if_neg (fun hb => hb.1 h₁), Topology.shared_minimized h₁, ih]; simp
  | both h₁ h₂ hc₁ hc₂ hp₁ hp₂ ih₁ ih₂ =>
    rw [Topology.shared, if_pos ⟨h₁, h₂⟩, List.map_cons, List.map_append, ih₁, ih₂]
    rfl

/-! ### From the root down to a leaf -/

namespace Frame

def moves (edge : TileEdge) (f : Frame F) : Bool := edge.edges.movedBy f.axis f.holeFirst

theorem moves_iff {edge : TileEdge} {f : Frame F} :
    f.moves edge = true ↔ f.axis = edge.axis ∧ f.holeFirst = edge.isFar := edge.movedBy_iff _ _

def bounds (m : Snapshots F) (edge : TileEdge) (f : Frame F) : Bool :=
  f.moves edge && !(f.sibling.active m).isEmpty

theorem bounds_iff {m : Snapshots F} {edge : TileEdge} {f : Frame F} :
    f.bounds m edge = true ↔ f.moves edge = true ∧ f.sibling.active m ≠ [] := by
  simp [bounds]

theorem active_fill (m : Snapshots F) (f : Frame F) (T : Topology F) :
    (f.fill T).active m = [] ↔ T.active m = [] ∧ f.sibling.active m = [] := by
  unfold fill
  split_ifs
  · rw [Topology.active_split, List.append_eq_nil_iff]
  · rw [Topology.active_split, List.append_eq_nil_iff, and_comm]

end Frame

section Descent
variable {m : Snapshots F} {f : Frame F} {c : List (Frame F)} {T : Topology F} {rect root : LayoutRect}
  {tiles : List (WindowId × LayoutRect)} {cuts : List (DwindleNodeId × I32)}

theorem Cuts.fill (h : Cuts m (f.fill T) rect tiles cuts) (hactive : T.active m ≠ []) :
    (f.sibling.active m = [] ∧ Cuts m T rect tiles cuts) ∨
    (f.sibling.active m ≠ [] ∧ ∃ boundary r tiles' cuts', Cuts m T r tiles' cuts' ∧ tiles' ⊆ tiles ∧
      cuts' ⊆ cuts ∧ (f.id, boundary) ∈ cuts ∧
      ∀ edge, edge.position r = if f.moves edge then boundary else edge.position rect) := by
  obtain ⟨id, axis, ratio, holeFirst, sibling⟩ := f
  cases holeFirst with
  | true =>
    have hmoves : ∀ edge, (Frame.moves edge ⟨id, axis, ratio, true, sibling⟩ = true) =
        (axis = edge.axis ∧ true = edge.isFar) := fun edge => propext Frame.moves_iff
    simp only [hmoves]
    cases h with
    | minimized h => exact absurd ((Frame.active_fill m _ T).mp h).1 hactive
    | first h₂ h => exact .inl ⟨h₂, h⟩
    | second h₁ h => exact absurd h₁ hactive
    | both h₁ h₂ hc₁ hc₂ hp₁ hp₂ =>
      exact .inr ⟨h₂, _, _, _, _, hp₁, List.subset_append_left _ _,
        List.Subset.trans (List.subset_append_left _ _) (List.subset_cons_self _ _), List.mem_cons_self,
        position_firstChild hc₁⟩
  | false =>
    have hmoves : ∀ edge, (Frame.moves edge ⟨id, axis, ratio, false, sibling⟩ = true) =
        (axis = edge.axis ∧ false = edge.isFar) := fun edge => propext Frame.moves_iff
    simp only [hmoves]
    cases h with
    | minimized h => exact absurd ((Frame.active_fill m _ T).mp h).1 hactive
    | first h₂ h => exact absurd h₂ hactive
    | second h₁ h => exact .inl ⟨h₁, h⟩
    | both h₁ h₂ hc₁ hc₂ hp₁ hp₂ =>
      exact .inr ⟨h₁, _, _, _, _, hp₂, List.subset_append_right _ _,
        List.Subset.trans (List.subset_append_right _ _) (List.subset_cons_self _ _), List.mem_cons_self,
        position_secondChild hc₂⟩

theorem Cuts.descend (h : Cuts m (plug c T) root tiles cuts) (hactive : T.active m ≠ []) :
    ∃ rect tiles' cuts', Cuts m T rect tiles' cuts' ∧ tiles' ⊆ tiles ∧ cuts' ⊆ cuts ∧
      ∀ edge : TileEdge, (c.find? (Frame.bounds m edge) = none → edge.position rect = edge.position root) ∧
        ∀ f, c.find? (Frame.bounds m edge) = some f → (f.id, edge.position rect) ∈ cuts := by
  induction c generalizing T with
  | nil =>
    exact ⟨root, tiles, cuts, h, List.Subset.refl _, List.Subset.refl _, fun edge =>
      ⟨fun _ => rfl, fun f hf => absurd hf (by simp)⟩⟩
  | cons f c ih =>
    obtain ⟨rect, tiles', cuts', hfill, htiles, hcuts, hpos⟩ :=
      ih h fun hn => hactive ((Frame.active_fill m f T).mp hn).1
    obtain ⟨hsib, hT⟩ | ⟨hsib, boundary, r, tiles'', cuts'', hT, htiles', hcuts', hmem, hedge⟩ := hfill.fill hactive
    · refine ⟨rect, tiles', cuts', hT, htiles, hcuts, fun edge => ?_⟩
      rw [List.find?_cons_of_neg (by simp [Frame.bounds, hsib])]
      exact hpos edge
    · refine ⟨r, tiles'', cuts'', hT, List.Subset.trans htiles' htiles, List.Subset.trans hcuts' hcuts,
        fun edge => ?_⟩
      rw [hedge]
      by_cases hmoves : f.moves edge = true
      · rw [if_pos hmoves, List.find?_cons_of_pos (Frame.bounds_iff.mpr ⟨hmoves, hsib⟩)]
        refine ⟨fun hn => absurd hn (by simp), fun g hg => ?_⟩
        rw [Option.some.injEq] at hg
        exact hg ▸ hcuts hmem
      · rw [if_neg hmoves, List.find?_cons_of_neg (fun hb => hmoves (Frame.bounds_iff.mp hb).1)]
        exact hpos edge

theorem mem_shared_fill {i : DwindleNodeId} (hf : i ≠ f.id) (hs : i ∉ f.sibling.ids) :
    i ∈ (f.fill T).shared m ↔ i ∈ T.shared m := by
  have hsib : i ∉ f.sibling.shared m := fun hi => hs (f.sibling.shared_subset m hi)
  unfold Frame.fill
  split_ifs <;> simp [Topology.shared, hf, hsib]

theorem mem_shared_plug {i : DwindleNodeId} (hi : i ∉ frameIds c) : i ∈ (plug c T).shared m ↔ i ∈ T.shared m := by
  induction c generalizing T with
  | nil => rfl
  | cons f c ih =>
    simp only [frameIds, List.flatMap_cons, List.cons_append, List.mem_cons, List.mem_append, not_or] at hi
    rw [plug, ih hi.2.2, mem_shared_fill hi.1 hi.2.1]

theorem plug_append (c c' : List (Frame F)) (T : Topology F) : plug (c ++ c') T = plug c' (plug c T) := by
  induction c generalizing T with
  | nil => rfl
  | cons f c ih => exact ih (f.fill T)

theorem frame_mem_shared {c' : List (Frame F)} (hnd : (plug (c ++ f :: c') T).ids.Nodup)
    (hT : T.active m ≠ []) : f.id ∈ (plug (c ++ f :: c') T).shared m ↔ f.sibling.active m ≠ [] := by
  have hS : (plug c T).active m ≠ [] := by
    clear hnd
    induction c generalizing T with
    | nil => exact hT
    | cons g c ih => exact ih fun hn => hT ((Frame.active_fill m g T).mp hn).1
  rw [plug_append] at hnd ⊢
  generalize plug c T = S at hnd hS ⊢
  have hperm := (ids_plug (f :: c') S).nodup_iff.mp hnd
  simp only [frameIds, List.flatMap_cons, List.cons_append, List.nodup_append, List.nodup_cons, List.mem_append,
    List.mem_cons, not_or] at hperm
  obtain ⟨-, ⟨⟨hfs, hfc⟩, -⟩, hdisj⟩ := hperm
  have hS' : f.id ∉ S.shared m := fun hi => hdisj _ (S.shared_subset m hi) _ (.inl rfl) rfl
  have hsib : f.id ∉ f.sibling.shared m := fun hi => hfs (f.sibling.shared_subset m hi)
  rw [plug, mem_shared_plug hfc]
  unfold Frame.fill
  split_ifs <;> simp [Topology.shared, hS', hsib, hS]

end Descent

/-! ### From a leaf up to the root -/

section Walk
variable {t : DwindleTree F} {solution : TiledLayoutSolution F} {edges : ResizeEdges} {edge : TileEdge}
  {f : Frame F} {c : List (Frame F)} {T : Topology F} {handle : TiledResizeHandle F} {depth : ℕ}

theorem walk_root (h : Denotes t.nodes none T) : fromSolutionFrom t solution edges (depth + 1) T.id handle =
    .ok (if handle.horizontal.isSome || handle.vertical.isSome then some handle else none) := by
  obtain ⟨kind, hget⟩ := h.get_id
  rw [fromSolutionFrom, DwindleTree.parentOf, hget]
  rfl

theorem walk_frame (h : Denotes t.nodes none (plug (f :: c) T)) (hnd : (plug (f :: c) T).ids.Nodup) :
    fromSolutionFrom t solution edges (depth + 1) T.id handle =
      if edges.movedBy f.axis f.holeFirst && (handle.onAxis f.axis).isNone then
        match solution.splits.find? fun split => split.node = f.id with
        | none => .ok none
        | some resolved => fromSolutionFrom t solution edges depth (f.fill T).id
            (handle.setAxis ⟨f.id, f.axis, f.ratio, resolved.parentRect, resolved.boundary⟩ f.axis)
      else fromSolutionFrom t solution edges depth (f.fill T).id handle := by
  obtain ⟨⟨hf, -, -⟩, hT⟩ := denotes_plug.mp h
  obtain ⟨kind, hget⟩ := hT.get_id
  have hne : f.sibling.id ≠ T.id := by
    have hperm := (ids_plug (f :: c) T).nodup_iff.mp hnd
    simp only [frameIds, List.flatMap_cons, List.cons_append, List.nodup_append] at hperm
    exact fun he => hperm.2.2 T.id T.id_mem_ids f.sibling.id (by simp [f.sibling.id_mem_ids]) he.symm
  have hkind : t.nodeKind f.id = some (f.kind T.id) := by
    rw [DwindleTree.nodeKind, hf]
    rfl
  rw [fromSolutionFrom, DwindleTree.parentOf, hget, Frame.fill_id]
  simp only [Option.map_some, holeParent, List.head?_cons, hkind]
  unfold Frame.kind
  cases f.holeFirst <;> simp [hne]

theorem walk_found {found : TiledResizeAxis F} (h : Denotes t.nodes none (plug c T))
    (hnd : (plug c T).ids.Nodup) (hdepth : c.length < depth) (hfound : handle.onAxis edge.axis = some found) :
    fromSolutionFrom t solution edge.edges depth T.id handle = .ok (some handle) := by
  induction c generalizing T depth with
  | nil =>
    obtain ⟨depth, rfl⟩ : ∃ n, depth = n + 1 := ⟨depth - 1, by simp at hdepth; omega⟩
    have hroot : Denotes t.nodes none T := h
    rw [walk_root hroot]
    cases hax : edge.axis <;> rw [hax, TiledResizeHandle.onAxis] at hfound <;> simp [hfound]
  | cons f c ih =>
    obtain ⟨depth, rfl⟩ : ∃ n, depth = n + 1 := ⟨depth - 1, by omega⟩
    rw [walk_frame h hnd, if_neg]
    · exact ih h hnd (by simpa using hdepth)
    · rw [Bool.and_eq_true, edge.movedBy_iff]
      rintro ⟨⟨hax, -⟩, hnone⟩
      rw [hax, hfound] at hnone
      exact absurd hnone (by simp)

theorem walk_eq (solution : TiledLayoutSolution F) (edge : TileEdge) (h : Denotes t.nodes none (plug c T))
    (hnd : (plug c T).ids.Nodup) (hdepth : c.length < depth) :
    fromSolutionFrom t solution edge.edges depth T.id .none = .ok (do
      let f ← c.find? (Frame.moves edge) let resolved ← solution.splits.find? fun split => split.node = f.id
      some (TiledResizeHandle.none.setAxis ⟨f.id, f.axis, f.ratio, resolved.parentRect, resolved.boundary⟩
        f.axis)) := by
  induction c generalizing T depth with
  | nil =>
    obtain ⟨depth, rfl⟩ : ∃ n, depth = n + 1 := ⟨depth - 1, by simp at hdepth; omega⟩
    have hroot : Denotes t.nodes none T := h
    rw [walk_root hroot]
    rfl
  | cons f c ih =>
    obtain ⟨depth, rfl⟩ : ∃ n, depth = n + 1 := ⟨depth - 1, by omega⟩
    have hdepth' : c.length < depth := by simpa using hdepth
    have hopen : ((TiledResizeHandle.none : TiledResizeHandle F).onAxis f.axis).isNone = true := by
      cases f.axis <;> rfl
    rw [walk_frame h hnd, hopen, Bool.and_true, show edge.edges.movedBy f.axis f.holeFirst = f.moves edge from rfl]
    by_cases hmoves : f.moves edge = true
    · rw [if_pos hmoves, List.find?_cons_of_pos hmoves]
      simp only [Option.bind_eq_bind, Option.bind_some]
      cases solution.splits.find? fun split => split.node = f.id with
      | none => rfl
      | some resolved =>
        have hset : ∀ found : TiledResizeAxis F, (TiledResizeHandle.none.setAxis found f.axis).onAxis edge.axis =
            some found := fun found => by
          rw [← (Frame.moves_iff.mp hmoves).1]
          cases f.axis <;> rfl
        exact walk_found (c := c) h hnd hdepth' (hset _)
    · rw [if_neg hmoves, List.find?_cons_of_neg hmoves]
      exact ih h hnd hdepth'

end Walk

/-! ### Interior edges -/

def Topology.across (window : WindowId) (edge : TileEdge) : Topology F → Option (Topology F)
  | .leaf _ _ => none
  | .split _ axis _ first second =>
    if window ∈ first.windows then
      (first.across window edge).or (if edge.edges.movedBy axis true then some second else none)
    else (second.across window edge).or (if edge.edges.movedBy axis false then some first else none)

variable {c : List (Frame F)}

theorem Topology.across_plug {window : WindowId} (edge : TileEdge)
    (hnd : (plug c T).windows.Nodup) (hw : window ∈ T.windows) : (plug c T).across window edge =
      (T.across window edge).or ((c.find? (Frame.moves edge)).map Frame.sibling) := by
  induction c generalizing T with
  | nil => simp [plug]
  | cons f c ih =>
    have hfill : window ∈ (f.fill T).windows := by
      unfold Frame.fill
      split_ifs <;> simp [Topology.windows, hw]
    have hsib : window ∉ f.sibling.windows := by
      have hperm := ((leaves_plug (f :: c) T).map Prod.fst).nodup_iff.mp (by rwa [Topology.map_leaves])
      simp only [frameLeaves, List.flatMap_cons, List.map_append, Topology.map_leaves, List.nodup_append,
        List.mem_append] at hperm
      exact fun hs => hperm.2.2 window hw window (.inl hs) rfl
    have hstep : (f.fill T).across window edge =
        (T.across window edge).or (if f.moves edge then some f.sibling else none) := by
      obtain ⟨id, axis, ratio, holeFirst, sibling⟩ := f
      cases holeFirst with
      | true =>
        simp only [Frame.fill, if_true, Topology.across, if_pos hw]
        rfl
      | false =>
        simp only [Frame.fill, Bool.false_eq_true, if_false, Topology.across, if_neg hsib]
        rfl
    rw [plug, ih hnd hfill, hstep, List.find?_cons, Option.or_assoc]
    cases f.moves edge <;> simp

theorem length_add_height_le (c : List (Frame F)) (T : Topology F) : c.length + T.height ≤ (plug c T).height := by
  induction c generalizing T with
  | nil => simp [plug]
  | cons f c ih =>
    have hfill : T.height + 1 ≤ (f.fill T).height := by
      unfold Frame.fill
      split_ifs <;> simp [Topology.height]
    have := ih (f.fill T)
    rw [plug, List.length_cons]
    omega

def Resizes (t : DwindleTree F) (solution : TiledLayoutSolution F) (window : WindowId) (edge : TileEdge)
    (tile : LayoutRect) : Prop :=
  ∃ handle found, TiledResizeHandle.fromSolution t solution window edge.edges = .ok (some handle) ∧
    handle.onAxis edge.axis = some found ∧
    ∃ split ∈ solution.splits, split.node = found.split ∧ split.boundary = edge.position tile

def Topology.TakesSpace (T : Topology F) (snapshots : List (LayoutWindowSnapshot F)) : Prop :=
  ∃ s ∈ snapshots, s.window ∈ T.windows ∧ s.minimized = false

theorem Topology.takesSpace_iff {map : Snapshots F}
    (hmap : snapshotMap snapshots = .ok map) : T.TakesSpace snapshots ↔ T.active map ≠ [] := by
  rw [Topology.active, ne_eq, List.filter_eq_nil_iff]
  push Not
  simp only [isActive_iff, snapshotMap_lookup hmap]
  constructor
  · rintro ⟨s, hs, hw, hm⟩
    exact ⟨s.window, hw, s, ⟨hs, rfl⟩, hm⟩
  · rintro ⟨w, hw, s, ⟨hs, rfl⟩, hm⟩
    exact ⟨s, hs, hw, hm⟩

variable {edge : TileEdge}

theorem find_bounds {f : Frame F} (h : c.find? (Frame.moves edge) = some f) (hsib : f.sibling.active m ≠ []) :
    c.find? (Frame.bounds m edge) = some f := by
  obtain ⟨hmoves, before, after, rfl, hbefore⟩ := List.find?_eq_some_iff_append.mp h
  refine List.find?_eq_some_iff_append.mpr ⟨Frame.bounds_iff.mpr ⟨hmoves, hsib⟩, before, after, rfl, ?_⟩
  intro g hg
  simp only [Bool.not_eq_true'] at hbefore ⊢
  simp [Frame.bounds, hbefore g hg]

theorem find_moves_of_bounds (h : c.find? (Frame.moves edge) = none) : c.find? (Frame.bounds m edge) = none := by
  rw [List.find?_eq_none] at h ⊢
  exact fun f hf hb => h f hf (Frame.bounds_iff.mp hb).1

theorem resizes_iff {t : DwindleTree F} {root : LayoutRect} {overrides : List (RatioOverride F)}
    {solution : TiledLayoutSolution F} (hT : t.Shape T)
    (h : solveTreeWithRatioOverrides t root snapshots overrides = .ok solution) {u : TiledWindowTarget}
    (hu : u ∈ solution.updates) (hinterior : edge.position u.tile ≠ edge.position root) :
    ∃ S, T.across u.window edge = some S ∧ (Resizes t solution u.window edge u.tile ↔ S.TakesSpace snapshots) := by
  obtain ⟨map, hmap, hcuts⟩ := solve_cuts hT h
  have hplaced : (u.window, u.tile) ∈ solution.updates.map placed :=
    List.mem_map.mpr ⟨u, hu, rfl⟩
  have hact : u.window ∈ T.active map := by
    rw [← hcuts.windows]
    exact List.mem_map_of_mem hplaced
  obtain ⟨leaf, c, hlook, rfl⟩ := hT.exists_leaf (List.mem_filter.mp hact).1
  have hleaf : (Topology.leaf leaf u.window : Topology F).active map ≠ [] := by
    simp [Topology.active, Topology.windows, (List.mem_filter.mp hact).2]
  -- the tile of the window is the rectangle of its leaf
  obtain ⟨rect, tiles, cuts, hrect, htiles, -, hedge⟩ := hcuts.descend hleaf
  obtain rfl : rect = u.tile := by
    have hmem : (u.window, rect) ∈ solution.updates.map placed := by
      refine htiles ?_
      cases hrect with
      | minimized hn => exact absurd hn hleaf
      | leaf ha => exact List.mem_singleton_self _
    have hkeys : ((solution.updates.map placed).map Prod.fst).Nodup := by
      rw [hcuts.windows]
      exact hT.windows_nodup.filter _
    exact congrArg Prod.snd (List.inj_on_of_nodup_map hkeys hmem hplaced rfl)
  have hacross := Topology.across_plug edge hT.windows_nodup (T := .leaf leaf u.window)
    (List.mem_singleton_self u.window)
  rw [Topology.across, Option.none_or] at hacross
  cases hfind : c.find? (Frame.moves edge) with
  | none => exact absurd ((hedge edge).1 (find_moves_of_bounds hfind)) hinterior
  | some f =>
    refine ⟨f.sibling, by rw [hacross, hfind]; rfl, ?_⟩
    have hdepth : c.length < t.depthBound := by
      have hheight := length_add_height_le c (.leaf leaf u.window)
      have hbound := hT.height_le_depthBound
      simp only [Topology.height] at hheight
      omega
    have hwalk := walk_eq solution edge hT.denotes hT.ids_nodup hdepth
    simp only [hfind, Option.bind_eq_bind, Option.bind_some, Topology.id_leaf] at hwalk
    have hhandle : TiledResizeHandle.fromSolution t solution u.window edge.edges =
        fromSolutionFrom t solution edge.edges t.depthBound leaf .none := by
      rw [TiledResizeHandle.fromSolution, DwindleTree.leafForWindow, hlook]
    rw [hwalk] at hhandle
    rw [Topology.takesSpace_iff hmap]
    constructor
    · rintro ⟨handle, found, hsome, -⟩
      rw [hhandle, Except.ok.injEq, Option.bind_eq_some_iff] at hsome
      obtain ⟨resolved, hresolved, -⟩ := hsome
      have hnode : f.id ∈ (plug c (.leaf leaf u.window)).shared map := by
        rw [← hcuts.ids, List.map_map]
        have hid : resolved.node = f.id := by simpa using List.find?_some hresolved
        exact List.mem_map.mpr ⟨resolved, List.mem_of_find?_eq_some hresolved, hid⟩
      obtain ⟨-, before, after, rfl, -⟩ := List.find?_eq_some_iff_append.mp hfind
      exact (frame_mem_shared hT.ids_nodup hleaf).mp hnode
    · intro hsib
      obtain ⟨split, hsplit, hcut⟩ := List.mem_map.mp ((hedge edge).2 f (find_bounds hfind hsib))
      obtain ⟨hnode, hboundary⟩ := Prod.mk.inj hcut
      obtain ⟨resolved, hresolved⟩ : ∃ r, solution.splits.find? (fun split => split.node = f.id) = some r :=
        Option.isSome_iff_exists.mp (List.find?_isSome.mpr ⟨split, hsplit, by simpa using hnode⟩)
      rw [hresolved, Option.bind_some] at hhandle
      refine ⟨_, ⟨f.id, f.axis, f.ratio, resolved.parentRect, resolved.boundary⟩, hhandle, ?_, split, hsplit,
        hnode, hboundary⟩
      rw [← (Frame.moves_iff.mp (List.find?_some hfind)).1]
      cases f.axis <;> rfl

/-- The handle of an interior edge is found, and its split has the edge as its boundary, just when the
other side of the innermost split that moves the edge has a window that takes space. -/
theorem interior_edge_resizes_iff {t : DwindleTree F} {root : LayoutRect}
    {snapshots : List (LayoutWindowSnapshot F)} {solution : TiledLayoutSolution F} (ht : t.WellFormed)
    (h : solveTree t root snapshots = .ok solution) {u : TiledWindowTarget} (hu : u ∈ solution.updates)
    {edge : TileEdge} (hinterior : edge.position u.tile ≠ edge.position root) :
    ∃ T S, t.Shape T ∧ T.across u.window edge = some S ∧
      (Resizes t solution u.window edge u.tile ↔ S.TakesSpace snapshots) := by
  obtain hempty | ⟨T, hT⟩ := DwindleTree.wellFormed_iff.mp ht
  · obtain ⟨map, -, hrest⟩ := Run.bind_eq_ok.mp h
    rw [hempty.root] at hrest
    cases hrest
    exact absurd hu List.not_mem_nil
  · obtain ⟨S, hacross, hiff⟩ := resizes_iff hT h hu hinterior
    exact ⟨T, S, hT, hacross, hiff⟩

theorem eq_ok_of_toOption {ε α : Type} {x : Run ε α} {a : α} (h : x.toOption = some a) : x = .ok a := by
  cases x with
  | error e => exact absurd h (by simp [Except.toOption])
  | ok b => rw [Option.some.inj h]

theorem interior_edge_resizes_iff_two : ∃ solution u T S,
    solveTree twoWindows (rectOf 0 0 101 80) [unconstrainedWindow 1, unconstrainedWindow 2] = .ok solution ∧
    u ∈ solution.updates ∧ TileEdge.right.position u.tile ≠ TileEdge.right.position (rectOf 0 0 101 80) ∧
    twoWindows.Shape T ∧ T.across u.window .right = some S ∧ (Resizes twoWindows solution u.window .right u.tile ↔
      S.TakesSpace [unconstrainedWindow 1, unconstrainedWindow 2]) := by
  have hwf : twoWindows.WellFormed := DwindleTree.ofRun_wellFormed _
  have hrun : ((solveTree twoWindows (rectOf 0 0 101 80)
      [unconstrainedWindow 1, unconstrainedWindow 2]).toOption.any fun s => s.updates.any fun u =>
        decide (TileEdge.right.position u.tile ≠ TileEdge.right.position (rectOf 0 0 101 80))) = true := by
    decide +kernel
  obtain ⟨solution, hok, hany⟩ := (Option.any_eq_true _ _).mp hrun
  obtain ⟨u, hu, hne⟩ := List.any_eq_true.mp hany
  have h := eq_ok_of_toOption hok
  obtain ⟨T, S, hT, hacross, hiff⟩ := interior_edge_resizes_iff hwf h hu (of_decide_eq_true hne)
  exact ⟨solution, u, T, S, h, hu, of_decide_eq_true hne, hT, hacross, hiff⟩

def threeWindows : DwindleTree ℚ :=
  .ofRun [.insert ⟨1⟩ .none, .insert ⟨2⟩ .none, .insert ⟨3⟩ ⟨some ⟨1⟩, none, none, none⟩]

def minimizedWindow (n : ℕ) : LayoutWindowSnapshot ℚ := ⟨⟨n⟩, true, .unconstrained⟩

/-- With window 3 minimized, windows 1 and 2 share the boundary of the root split, but the walk from window 1
first meets the split it shares with window 3, which the solution does not have. -/
theorem minimized_neighbour_hides_handle : ∃ solution u, threeWindows.WellFormed ∧
    solveTree threeWindows (rectOf 0 0 100 50)
      [unconstrainedWindow 1, unconstrainedWindow 2, minimizedWindow 3] = .ok solution ∧
    u ∈ solution.updates ∧ u.window = ⟨1⟩ ∧
    TileEdge.right.position u.tile ≠ TileEdge.right.position (rectOf 0 0 100 50) ∧
    TiledResizeHandle.fromSolution threeWindows solution ⟨1⟩ TileEdge.right.edges = .ok none := by
  have hrun : ((solveTree threeWindows (rectOf 0 0 100 50)
      [unconstrainedWindow 1, unconstrainedWindow 2, minimizedWindow 3]).toOption.any fun s =>
        (s.updates.any fun u => decide (u.window = ⟨1⟩ ∧
          TileEdge.right.position u.tile ≠ TileEdge.right.position (rectOf 0 0 100 50))) &&
        (TiledResizeHandle.fromSolution threeWindows s ⟨1⟩ TileEdge.right.edges).toOption.any
          Option.isNone) = true := by decide +kernel
  obtain ⟨solution, hok, hboth⟩ := (Option.any_eq_true _ _).mp hrun
  obtain ⟨hany, hnone⟩ := Bool.and_eq_true_iff.mp hboth
  obtain ⟨u, hu, hne⟩ := List.any_eq_true.mp hany
  obtain ⟨handle, hhandle, hisNone⟩ := (Option.any_eq_true _ _).mp hnone
  obtain rfl := Option.isNone_iff_eq_none.mp hisNone
  obtain ⟨hwindow, hinterior⟩ := of_decide_eq_true hne
  exact ⟨solution, u, DwindleTree.ofRun_wellFormed _, eq_ok_of_toOption hok, hu, hwindow, hinterior,
    eq_ok_of_toOption hhandle⟩

end Typhon.Layout
