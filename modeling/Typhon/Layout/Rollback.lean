import Typhon.Layout.Tiling

/-! An insertion taken back: the removal of the window that was inserted last restores every live node,
and the solver answers as before. -/

namespace Typhon.Layout
open Foundation

variable {F : Type} [Float64 F]

/-! ### Trees of one shape -/

variable {T : Topology F}

theorem Denotes.get_eq {nodes nodes' : DwindleArena F} {parent : Option DwindleNodeId}
    (h : Denotes nodes parent T) (h' : Denotes nodes' parent T) : ∀ i ∈ T.ids, nodes'.get i = nodes.get i := by
  induction T generalizing parent with
  | leaf id window =>
    intro i hi
    rw [Topology.ids, List.mem_singleton] at hi
    rw [hi, show nodes.get id = _ from h, show nodes'.get id = _ from h']
  | split id axis ratio first second ih₁ ih₂ =>
    intro i hi
    rw [Topology.ids, List.mem_cons, List.mem_append] at hi
    rcases hi with rfl | hi | hi
    · rw [h.1, h'.1]
    · exact ih₁ h.2.1 h'.2.1 i hi
    · exact ih₂ h.2.2 h'.2.2 i hi

namespace DwindleTree

structure Agrees (t t' : DwindleTree F) : Prop where
  root : t'.root = t.root
  nodes : ∀ id, t'.nodes.get id = t.nodes.get id
  byWindow : t'.byWindow = t.byWindow
  insertionOrder : t'.insertionOrder = t.insertionOrder

theorem Shape.agrees {t t' : DwindleTree F} {T : Topology F} (h : t.Shape T) (h' : t'.Shape T)
    (horder : t'.insertionOrder = t.insertionOrder) : t.Agrees t' := by
  refine ⟨h'.root.trans h.root.symm, fun id => ?_, h'.byWindow.trans h.byWindow.symm, horder⟩
  by_cases hid : id ∈ T.ids
  · exact h.denotes.get_eq h'.denotes id hid
  · have hnone : ∀ {u : DwindleTree F}, u.Shape T → u.nodes.get id = none := fun hu =>
      Option.not_isSome_iff_eq_none.mp fun hs => hid (hu.no_orphan id hs)
    rw [hnone h, hnone h']

theorem IsEmpty.agrees {t t' : DwindleTree F} (h : t.IsEmpty) (h' : t'.IsEmpty) : t.Agrees t' :=
  ⟨h'.root.trans h.root.symm, fun id => (h'.no_node id).trans (h.no_node id).symm,
    h'.byWindow.trans h.byWindow.symm, h'.order.trans h.order.symm⟩

end DwindleTree

/-! ### What the solver reads

Two trees of one shape may differ in their slot vectors, and so in the depth bound of the recursions. -/

section Reads
variable {t t' : DwindleTree F} {T : Topology F} {parent parent' : Option DwindleNodeId}
  {depth depth' : ℕ} {snapshots : Snapshots F}

structure Alike (t t' : DwindleTree F) (T : Topology F) (depth depth' : ℕ) : Prop where
  left : ∃ parent, Denotes t.nodes parent T
  right : ∃ parent, Denotes t'.nodes parent T
  depth : T.height ≤ depth
  depth' : T.height ≤ depth'

variable {id : DwindleNodeId}

theorem Alike.leaf {window : WindowId} (h : Alike t t' (.leaf id window) depth depth') :
    ∃ n n', depth = n + 1 ∧ depth' = n' + 1 ∧ t.nodeKind id = some (.leaf window) ∧
      t'.nodeKind id = some (.leaf window) := by
  obtain ⟨⟨p, hd⟩, ⟨p', hd'⟩, hn, hn'⟩ := h
  simp only [Topology.height] at hn hn'
  exact ⟨depth - 1, depth' - 1, by omega, by omega, hd.nodeKind_leaf, hd'.nodeKind_leaf⟩

theorem Alike.split {axis : SplitAxis} {ratio : SplitRatio F} {first second : Topology F}
    (h : Alike t t' (.split id axis ratio first second) depth depth') : ∃ n n', depth = n + 1 ∧ depth' = n' + 1 ∧
      t.nodeKind id = some (.split axis ratio first.id second.id) ∧
      t'.nodeKind id = some (.split axis ratio first.id second.id) ∧
      Alike t t' first n n' ∧ Alike t t' second n n' := by
  obtain ⟨⟨p, hd⟩, ⟨p', hd'⟩, hn, hn'⟩ := h
  simp only [Topology.height] at hn hn'
  exact ⟨depth - 1, depth' - 1, by omega, by omega, hd.nodeKind_split, hd'.nodeKind_split,
    ⟨⟨_, hd.2.1⟩, ⟨_, hd'.2.1⟩, by omega, by omega⟩,
    ⟨⟨_, hd.2.2⟩, ⟨_, hd'.2.2⟩, by omega, by omega⟩⟩

theorem Alike.mono {n n' : ℕ} (h : Alike t t' T n n') (hn : n ≤ depth) (hn' : n' ≤ depth') :
    Alike t t' T depth depth' :=
  ⟨h.left, h.right, h.depth.trans hn, h.depth'.trans hn'⟩

theorem Alike.aggregateLowerBounds (h : Alike t t' T depth depth') (s : BoundsState) :
    aggregateLowerBounds t' snapshots depth' T.id s = aggregateLowerBounds t snapshots depth T.id s := by
  induction T generalizing depth depth' s with
  | leaf id window =>
    obtain ⟨n, n', rfl, rfl, hk, hk'⟩ := h.leaf
    rw [Topology.id, Layout.aggregateLowerBounds, Layout.aggregateLowerBounds, hk, hk']
    rfl
  | split id axis ratio first second ih₁ ih₂ =>
    obtain ⟨n, n', rfl, rfl, hk, hk', h₁, h₂⟩ := h.split
    rw [Topology.id, Layout.aggregateLowerBounds, Layout.aggregateLowerBounds, hk, hk']
    simp only [Run.okOr_some, Run.ok_bind, ih₁ h₁, ih₂ h₂]

theorem Alike.collectActiveWindows (h : Alike t t' T depth depth') :
    collectActiveWindows t' snapshots depth' T.id = collectActiveWindows t snapshots depth T.id := by
  induction T generalizing depth depth' with
  | leaf id window =>
    obtain ⟨n, n', rfl, rfl, hk, hk'⟩ := h.leaf
    rw [Topology.id, Layout.collectActiveWindows, Layout.collectActiveWindows, hk, hk']
    rfl
  | split id axis ratio first second ih₁ ih₂ =>
    obtain ⟨n, n', rfl, rfl, hk, hk', h₁, h₂⟩ := h.split
    rw [Topology.id, Layout.collectActiveWindows, Layout.collectActiveWindows, hk, hk']
    simp only [Run.okOr_some, Run.ok_bind, ih₁ h₁, ih₂ h₂]

theorem minimumExtent_congr {fit fit' : DwindleNodeId → LayoutRect → RunS Feasibility LayoutError Bool}
    (h : fit' id = fit id) (axis : SplitAxis) : minimumExtent fit' axis id = minimumExtent fit axis id := by
  funext cross cap
  unfold minimumExtent
  rw [h]

theorem feasibleBoundaryRange_congr
    {minimum minimum' : SplitAxis → DwindleNodeId → ℕ → ℕ → RunS Feasibility LayoutError (Option ℕ)}
    {axis : SplitAxis} {first second : DwindleNodeId} (h₁ : minimum' axis first = minimum axis first)
    (h₂ : minimum' axis second = minimum axis second) (rect : LayoutRect) :
    feasibleBoundaryRange F minimum' axis first second rect =
      feasibleBoundaryRange F minimum axis first second rect := by
  unfold feasibleBoundaryRange
  rw [h₁, h₂]

variable {exact : Bool}

theorem Alike.canFit (h : Alike t t' T depth depth') :
    canFit ⟨t', snapshots, exact⟩ depth' T.id = canFit ⟨t, snapshots, exact⟩ depth T.id := by
  induction T generalizing depth depth' with
  | leaf id window =>
    obtain ⟨n, n', rfl, rfl, hk, hk'⟩ := h.leaf
    funext rect
    rw [Topology.id, canFit_kind hk', canFit_kind hk]
    rfl
  | split id axis ratio first second ih₁ ih₂ =>
    obtain ⟨n, n', rfl, rfl, hk, hk', h₁, h₂⟩ := h.split
    funext rect
    rw [Topology.id, canFit_kind hk', canFit_kind hk]
    have hrange := feasibleBoundaryRange_congr (F := F) (minimumExtent_congr (ih₁ h₁) axis)
      (minimumExtent_congr (ih₂ h₂) axis) rect
    simp only [hrange]

abbrev AlikeHere (t t' : DwindleTree F) (T : Topology F) : Prop := Alike t t' T t.depthBound t'.depthBound

theorem AlikeHere.leastExtent (h : AlikeHere t t' T) (axis : SplitAxis) :
    leastExtent ⟨t', snapshots, exact⟩ axis T.id = leastExtent ⟨t, snapshots, exact⟩ axis T.id :=
  minimumExtent_congr h.canFit axis

theorem AlikeHere.activeWindows (h : AlikeHere t t' T) (snapshots : Snapshots F) :
    activeWindows t' snapshots T.id = activeWindows t snapshots T.id := by
  rw [Layout.activeWindows, Layout.activeWindows, h.collectActiveWindows]

theorem Alike.axisOf (h : Alike t t' T depth depth') :
    axisOf ⟨t', snapshots, exact⟩ T.id = axisOf ⟨t, snapshots, exact⟩ T.id := by
  unfold Layout.axisOf
  cases T with
  | leaf id window =>
    obtain ⟨n, n', -, -, hk, hk'⟩ := h.leaf
    rw [Topology.id, hk, hk']
  | split id axis ratio first second =>
    obtain ⟨n, n', -, -, hk, hk', -, -⟩ := h.split
    rw [Topology.id, hk, hk']

theorem AlikeHere.infeasible (h : AlikeHere t t' T) (snapshots : Snapshots F) (exact : Bool) (rect : LayoutRect) :
    infeasible ⟨t', snapshots, exact⟩ T.id rect = infeasible ⟨t, snapshots, exact⟩ T.id rect := by
  unfold Layout.infeasible
  rw [h.leastExtent, h.leastExtent, h.activeWindows, h.axisOf]

theorem AlikeHere.resolveNode {requirements : Requirements} {overrides : HashMap DwindleNodeId (SplitRatio F)}
    (h : Alike t t' T depth depth') (hn : depth ≤ t.depthBound) (hn' : depth' ≤ t'.depthBound) :
    resolveNode ⟨⟨t', snapshots, exact⟩, requirements, overrides⟩ depth' T.id =
      resolveNode ⟨⟨t, snapshots, exact⟩, requirements, overrides⟩ depth T.id := by
  induction T generalizing depth depth' with
  | leaf id window =>
    obtain ⟨n, n', rfl, rfl, hk, hk'⟩ := h.leaf
    funext rect
    refine StateT.ext fun s => ?_
    rw [Topology.id, resolveNode_kind _ _ hk', resolveNode_kind _ _ hk]
    rfl
  | split id axis ratio first second ih₁ ih₂ =>
    have hhere : AlikeHere t t' (.split id axis ratio first second) := h.mono hn hn'
    obtain ⟨n, n', rfl, rfl, hk, hk', h₁, h₂⟩ := h.split
    have hhere₁ : AlikeHere t t' first := h₁.mono (by omega) (by omega)
    have hhere₂ : AlikeHere t t' second := h₂.mono (by omega) (by omega)
    have hlimits : ∀ b₁ b₂ rect,
        splitLimits ⟨⟨t', snapshots, exact⟩, requirements, overrides⟩ id axis first.id second.id b₁ b₂
            rect =
          splitLimits ⟨⟨t, snapshots, exact⟩, requirements, overrides⟩ id axis first.id second.id b₁ b₂
            rect := by
      intro b₁ b₂ rect
      have hrange : boundaryRange ⟨t', snapshots, exact⟩ axis first.id second.id rect =
          boundaryRange ⟨t, snapshots, exact⟩ axis first.id second.id rect :=
        feasibleBoundaryRange_congr (hhere₁.leastExtent axis) (hhere₂.leastExtent axis) rect
      have hinf := hhere.infeasible snapshots exact rect
      unfold splitLimits
      simp only [hrange, show Layout.infeasible ⟨t', snapshots, exact⟩ id rect = _ from hinf]
      rfl
    have hsplit : ∀ limits rect,
        resolveSplit ⟨⟨t', snapshots, exact⟩, requirements, overrides⟩ id axis ratio limits rect =
          resolveSplit ⟨⟨t, snapshots, exact⟩, requirements, overrides⟩ id axis ratio limits rect := by
      intro limits rect
      have hwin := hhere.activeWindows snapshots
      unfold resolveSplit infeasibleSplit
      simp only [show Layout.activeWindows t' snapshots id = _ from hwin]
      rfl
    have hfirst := ih₁ h₁ (by omega) (by omega)
    have hsecond := ih₂ h₂ (by omega) (by omega)
    funext rect
    refine StateT.ext fun s => ?_
    rw [Topology.id, resolveNode_kind _ _ hk', resolveNode_kind _ _ hk]
    simp only [hlimits, hsplit, hfirst, hsecond]

end Reads

theorem DwindleTree.Shape.alikeHere {t t' : DwindleTree F} (h : t.Shape T) (h' : t'.Shape T) : AlikeHere t t' T :=
  ⟨⟨none, h.denotes⟩, ⟨none, h'.denotes⟩, h.height_le_slots.trans (Nat.le_succ _),
    h'.height_le_slots.trans (Nat.le_succ _)⟩

theorem solveTreeWithRatioOverrides_shape {t t' : DwindleTree F} (h : t.Shape T)
    (h' : t'.Shape T) (root : LayoutRect) (snapshots : List (LayoutWindowSnapshot F))
    (overrides : List (RatioOverride F)) : solveTreeWithRatioOverrides t' root snapshots overrides =
      solveTreeWithRatioOverrides t root snapshots overrides := by
  have hhere := h.alikeHere h'
  unfold solveTreeWithRatioOverrides
  simp only [h.root, h'.root, hhere.aggregateLowerBounds, hhere.canFit, hhere.infeasible,
    AlikeHere.resolveNode hhere le_rfl le_rfl]

/-! ### Insertion and removal -/

namespace DwindleTree

theorem plug_insertFrame (hint : InsertHint) (split leaf anchor : DwindleNodeId) (window v : WindowId)
    (c : List (Frame F)) : plug (insertFrame hint split leaf window :: c) (.leaf anchor v) =
      plug (⟨split, (insertPlacement hint).1, SplitRatio.default, (insertPlacement hint).2,
        .leaf anchor v⟩ :: c) (.leaf leaf window) := by
  rw [plug, plug]
  congr 1
  unfold insertFrame Frame.fill
  cases (insertPlacement hint).2 <;> rfl

theorem filter_append_self {t : DwindleTree F} {window : WindowId} (h : window ∉ t.insertionOrder) :
    ((t.insertionOrder ++ [window]).filter fun candidate => candidate ≠ window) = t.insertionOrder := by
  have hall : ∀ w ∈ t.insertionOrder, decide (w ≠ window) = true := fun w hw => by
    simpa using fun he : w = window => h (he ▸ hw)
  rw [List.filter_append, List.filter_eq_self.mpr hall]
  simp

def TakesBack (t t' : DwindleTree F) (window : WindowId) : Prop :=
  ∃ t'', t'.remove window = .ok (.ok (), t'') ∧ t.Agrees t'' ∧
    ∀ root snapshots, solveTree t'' root snapshots = solveTree t root snapshots

theorem takesBack_empty {t t' : DwindleTree F} {leaf : DwindleNodeId} {window : WindowId} (h : t.IsEmpty)
    (h' : t'.Shape (.leaf leaf window)) : t.TakesBack t' window := by
  obtain ⟨t'', hremove, hempty, -⟩ := remove_root h'
  refine ⟨t'', hremove, h.agrees hempty, fun root snapshots => ?_⟩
  unfold solveTree solveTreeWithRatioOverrides
  rw [h.root, hempty.root]

theorem takesBack_shape {t t' : DwindleTree F} {c : List (Frame F)} {leaf split anchor : DwindleNodeId}
    {window v : WindowId} {hint : InsertHint} (h : t.Shape (plug c (.leaf anchor v)))
    (hw : window ∉ t.insertionOrder)
    (h' : t'.Shape (plug (insertFrame hint split leaf window :: c) (.leaf anchor v)))
    (horder : t'.insertionOrder = t.insertionOrder ++ [window]) : t.TakesBack t' window := by
  rw [plug_insertFrame] at h'
  obtain ⟨t'', hremove, h'', -, horder'⟩ := remove_split h'
  rw [horder, filter_append_self hw] at horder'
  exact ⟨t'', hremove, h.agrees h'' horder', fun root snapshots =>
    solveTreeWithRatioOverrides_shape h h'' root snapshots []⟩

/-- An insertion that is taken back leaves the root, every live node with its kind, ratio and parent link,
the window map and the insertion order, and with them every answer of the solver. An insertion that does
not answer met a full arena, if the free list of the arena is valid. -/
theorem insert_remove_restores {t : DwindleTree F} (ht : t.WellFormed) {window : WindowId}
    (hw : t.containsWindow window = false) (hint : InsertHint) :
    (∃ leaf t', t.insert window hint = .ok (.ok leaf, t') ∧
      ∃ t'', t'.remove window = .ok (.ok (), t'') ∧ t''.root = t.root ∧
        (∀ id, t''.nodes.get id = t.nodes.get id) ∧ t''.byWindow = t.byWindow ∧
        t''.insertionOrder = t.insertionOrder ∧
        ∀ root snapshots, solveTree t'' root snapshots = solveTree t root snapshots) ∨
    ∃ fault, t.insert window hint = .error fault ∧
      (t.nodes.FreeValid → fault = .panic "Dwindle arena exhausted" ∧ t.Exhausted window) := by
  suffices h : (∃ leaf t', t.insert window hint = .ok (.ok leaf, t') ∧ t.TakesBack t' window) ∨
      ∃ fault, t.insert window hint = .error fault ∧ t.InsertFault window fault by
    refine h.imp_left ?_
    rintro ⟨leaf, t', hinsert, t'', hremove, hagrees, hsolve⟩
    exact ⟨leaf, t', hinsert, t'', hremove, hagrees.root, hagrees.nodes, hagrees.byWindow,
      hagrees.insertionOrder, hsolve⟩
  obtain hempty | ⟨T, hT⟩ := wellFormed_iff.mp ht
  · refine (insert_empty hempty window hint).imp_left ?_
    rintro ⟨leaf, t', hinsert, h', -, -⟩
    exact ⟨leaf, t', hinsert, takesBack_empty hempty h'⟩
  · have hnot : window ∉ T.windows := by simpa [containsWindow, hT.mem_byWindow] using hw
    refine (insert_nonempty hT hnot hint).imp_left ?_
    rintro ⟨leaf, split, anchor, v, c, t', hinsert, rfl, h', horder, -⟩
    exact ⟨leaf, t', hinsert,
      takesBack_shape hT (fun hm => hnot (hT.order.mem_iff.mp hm)) h' horder⟩

theorem insert_remove_restores_third : ∃ leaf t' t'',
    twoWindows.insert ⟨3⟩ ⟨some ⟨1⟩, none, none, none⟩ = .ok (.ok leaf, t') ∧
    t'.remove ⟨3⟩ = .ok (.ok (), t'') ∧ t''.root = twoWindows.root ∧
    ∀ root snapshots, solveTree t'' root snapshots = solveTree twoWindows root snapshots := by
  have hwf : twoWindows.WellFormed := ofRun_wellFormed _
  have hok : (twoWindows.insert ⟨3⟩ ⟨some ⟨1⟩, none, none, none⟩).isOk = true := by decide +kernel
  obtain ⟨leaf, t', hinsert, t'', hremove, hroot, -, -, -, hsolve⟩ | ⟨fault, hfault, -⟩ :=
    insert_remove_restores hwf (by decide +kernel : twoWindows.containsWindow ⟨3⟩ = false)
      ⟨some ⟨1⟩, none, none, none⟩
  · exact ⟨leaf, t', t'', hinsert, hremove, hroot, hsolve⟩
  · rw [hfault] at hok
    exact absurd hok Bool.false_ne_true

end DwindleTree
end Typhon.Layout
