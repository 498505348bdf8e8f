import Typhon.Layout.ExactSolve
import Typhon.Layout.FastSolve
import Typhon.Layout.Tiling

/-! A minimized window and a window that is not there: the fast solver does not tell them apart, the
exact one does. -/

namespace Typhon.Layout
open Foundation

variable {F : Type} [Float64 F]

/-! ### Only the snapshots of the tree matter -/

section Congr
variable {m m' : Snapshots F} {T : Topology F}

theorem Topology.active_congr (h : ∀ w ∈ T.windows, m'.lookup w = m.lookup w) : T.active m' = T.active m := by
  refine List.filter_congr fun w hw => ?_
  rw [isActive, isActive, h w hw]

theorem Topology.lowerBounds_congr (h : ∀ w ∈ T.windows, m'.lookup w = m.lookup w) :
    T.lowerBounds m' = T.lowerBounds m := by
  induction T with
  | leaf id window => rw [lowerBounds, lowerBounds, h window (by simp [windows])]
  | split id axis ratio first second ih₁ ih₂ =>
    simp only [windows, List.mem_append] at h
    rw [lowerBounds, lowerBounds, ih₁ fun w hw => h w (.inl hw), ih₂ fun w hw => h w (.inr hw)]

theorem placed_congr (h : ∀ w ∈ T.windows, m'.lookup w = m.lookup w)
    {overrides : HashMap DwindleNodeId (SplitRatio F)} {rect : LayoutRect} {targets : List TiledWindowTarget} :
    Placed m' overrides (fastLimits m') T rect targets ↔ Placed m overrides (fastLimits m) T rect targets := by
  induction T generalizing rect targets with
  | leaf id window =>
    have hw := h window (by simp [Topology.windows])
    have hactive := Topology.active_congr h
    constructor
    · intro hp
      cases hp with
      | minimized hnone => exact .minimized (hactive ▸ hnone)
      | leaf hs hm hc => exact .leaf (hw ▸ hs) hm hc
    · intro hp
      cases hp with
      | minimized hnone => exact .minimized (hactive ▸ hnone)
      | leaf hs hm hc => exact .leaf (hw ▸ hs) hm hc
  | split id axis ratio first second ih₁ ih₂ =>
    simp only [Topology.windows, List.mem_append] at h
    have h₁ := fun w hw => h w (.inl hw)
    have h₂ := fun w hw => h w (.inr hw)
    simp only [placed_split_iff, ih₁ h₁, ih₂ h₂, Topology.active_congr h₁, Topology.active_congr h₂, fastLimits,
      Topology.lowerBounds_congr h₁, Topology.lowerBounds_congr h₂]

theorem Topology.fitsIn_congr {m m' : Snapshots ℚ} {T : Topology ℚ} (h : ∀ w ∈ T.windows, m'.lookup w = m.lookup w)
    {size : Size} : T.FitsIn (Accepts m') size ↔ T.FitsIn (Accepts m) size := by
  induction T generalizing size with
  | leaf id window => rw [FitsIn, FitsIn, Accepts, Accepts, h window (by simp [windows])]
  | split id axis ratio first second ih₁ ih₂ =>
    simp only [windows, List.mem_append] at h
    simp only [FitsIn, ih₁ fun w hw => h w (.inl hw), ih₂ fun w hw => h w (.inr hw)]

end Congr

/-! ### Replacing a subtree -/

structure Interchangeable (snapshots : Snapshots F) (overrides : HashMap DwindleNodeId (SplitRatio F))
    (X Y : Topology F) : Prop where
  active : X.active snapshots = [] ↔ Y.active snapshots = []
  bounds : X.lowerBounds snapshots = Y.lowerBounds snapshots
  placed : ∀ rect targets, Placed snapshots overrides (fastLimits snapshots) X rect targets ↔
    Placed snapshots overrides (fastLimits snapshots) Y rect targets

section Replace
variable {snapshots : Snapshots F} {overrides : HashMap DwindleNodeId (SplitRatio F)} {X Y : Topology F}

theorem Interchangeable.fill (h : Interchangeable snapshots overrides X Y) (f : Frame F) :
    Interchangeable snapshots overrides (f.fill X) (f.fill Y) := by
  obtain ⟨hactive, hbounds, hplaced⟩ := h
  unfold Frame.fill
  split_ifs
  · refine ⟨by simp [hactive], by rw [Topology.lowerBounds, hbounds]; rfl, fun rect targets => ?_⟩
    simp only [placed_split_iff, ne_eq, hactive, hplaced, fastLimits, hbounds]
  · refine ⟨by simp [hactive], by rw [Topology.lowerBounds, hbounds]; rfl, fun rect targets => ?_⟩
    simp only [placed_split_iff, ne_eq, hactive, hplaced, fastLimits, hbounds]

theorem Interchangeable.plug (h : Interchangeable snapshots overrides X Y) (c : List (Frame F)) :
    Interchangeable snapshots overrides (plug c X) (plug c Y) := by
  induction c generalizing X Y with
  | nil => exact h
  | cons f c ih => exact ih (h.fill f)

theorem combineBounds_none_left (axis : SplitAxis) (bounds : Option SubtreeLowerBounds) :
    combineBounds axis none bounds = bounds := by
  cases bounds <;> rfl

theorem combineBounds_none_right (axis : SplitAxis) (bounds : Option SubtreeLowerBounds) :
    combineBounds axis bounds none = bounds := by
  cases bounds <;> rfl

theorem interchangeable_sibling (overrides : HashMap DwindleNodeId (SplitRatio F)) (leaf : DwindleNodeId)
    {window : WindowId} {snapshot : LayoutWindowSnapshot F} (hs : snapshots.lookup window = some snapshot)
    (hm : snapshot.minimized = true) (g : Frame F) :
    Interchangeable snapshots overrides (g.fill (.leaf leaf window)) g.sibling := by
  have hactive : (Topology.leaf leaf window : Topology F).active snapshots = [] := by
    rw [Topology.active_leaf hs, if_pos hm]
  have hbounds : (Topology.leaf leaf window : Topology F).lowerBounds snapshots = .ok none := by
    simp [Topology.lowerBounds, hs, hm]
  have hplaced : ∀ rect targets, g.sibling.active snapshots = [] →
      (Placed snapshots overrides (fastLimits snapshots) g.sibling rect targets ↔ targets = []) := by
    refine fun rect targets hnone => ⟨fun h => ?_, by rintro rfl; exact .minimized hnone⟩
    exact List.map_eq_nil_iff.mp (h.windows.trans hnone)
  unfold Frame.fill
  split_ifs
  · refine ⟨by simp [hactive], ?_, fun rect targets => ?_⟩
    · rw [Topology.lowerBounds, hbounds, Run.ok_bind]
      cases g.sibling.lowerBounds snapshots with
      | error e => rfl
      | ok b => rw [Run.ok_bind, combineBounds_none_left]
    · by_cases hnone : g.sibling.active snapshots = []
      · simp [placed_split_iff, hactive, hnone, hplaced]
      · simp [placed_split_iff, hactive, hnone]
  · refine ⟨by simp [hactive], ?_, fun rect targets => ?_⟩
    · rw [Topology.lowerBounds, hbounds]
      cases g.sibling.lowerBounds snapshots with
      | error e => rfl
      | ok b => rw [Run.ok_bind, Run.ok_bind, combineBounds_none_right]
    · by_cases hnone : g.sibling.active snapshots = []
      · simp [placed_split_iff, hactive, hnone, hplaced]
      · simp [placed_split_iff, hactive, hnone]

theorem Topology.bounds_of_lowerBounds {T : Topology F} {bounds : Option SubtreeLowerBounds}
    (h : T.lowerBounds snapshots = .ok bounds) {v : WindowId} (hv : v ∈ T.windows) :
    ∃ s, snapshots.lookup v = some s ∧ (s.minimized = true ∨ s.constraints.independentLowerBounds.isOk = true) := by
  induction T generalizing bounds with
  | leaf id window =>
    obtain rfl := List.mem_singleton.mp hv
    obtain ⟨s, hs, hrest⟩ := Run.bind_eq_ok.mp h
    rw [Run.okOr_eq_ok] at hs
    refine ⟨s, hs, ?_⟩
    split_ifs at hrest with hm
    · exact .inl hm
    · right
      cases hb : s.constraints.independentLowerBounds with
      | ok pair => rfl
      | error e => simp [hb, Run.fail] at hrest
  | split id axis ratio first second ih₁ ih₂ =>
    obtain ⟨b₁, hb₁, hrest⟩ := Run.bind_eq_ok.mp h
    obtain ⟨b₂, hb₂, -⟩ := Run.bind_eq_ok.mp hrest
    obtain hv | hv := List.mem_append.mp hv
    · exact ih₁ hb₁ hv
    · exact ih₂ hb₂ hv

end Replace

/-! ### Marking and removing -/

def markMinimized (w : WindowId) (snapshots : List (LayoutWindowSnapshot F)) : List (LayoutWindowSnapshot F) :=
  snapshots.map fun s => if s.window = w then { s with minimized := true } else s

def withoutWindow (w : WindowId) (snapshots : List (LayoutWindowSnapshot F)) : List (LayoutWindowSnapshot F) :=
  snapshots.filter fun s => s.window ≠ w

section Lists
variable {w v : WindowId} {snapshots : List (LayoutWindowSnapshot F)} {s : LayoutWindowSnapshot F}

omit [Float64 F] in
theorem mem_markMinimized_of_ne (hv : s.window ≠ w) : s ∈ markMinimized w snapshots ↔ s ∈ snapshots := by
  rw [markMinimized, List.mem_map]
  constructor
  · rintro ⟨s', hs', heq⟩
    split_ifs at heq with hw
    · exact absurd (heq ▸ hw) hv
    · exact heq ▸ hs'
  · exact fun hs => ⟨s, hs, if_neg hv⟩

theorem markMinimized_accepted (h : ∃ map, snapshotMap snapshots = .ok map) (w : WindowId) :
    ∃ map, snapshotMap (markMinimized w snapshots) = .ok map := by
  rw [snapshotMap_total] at h ⊢
  have hwindows : (markMinimized w snapshots).map LayoutWindowSnapshot.window =
      snapshots.map LayoutWindowSnapshot.window := by
    rw [markMinimized, List.map_map]
    refine List.map_congr_left fun s _ => ?_
    rw [Function.comp_apply]
    split_ifs <;> rfl
  refine ⟨hwindows ▸ h.1, fun s hs => ?_⟩
  obtain ⟨s', hs', rfl⟩ := List.mem_map.mp hs
  split_ifs
  · exact h.2 s' hs'
  · exact h.2 s' hs'

theorem withoutWindow_accepted (h : ∃ map, snapshotMap snapshots = .ok map) (w : WindowId) :
    ∃ map, snapshotMap (withoutWindow w snapshots) = .ok map := by
  rw [snapshotMap_total] at h ⊢
  refine ⟨h.1.sublist (List.filter_sublist.map _), fun s hs => h.2 s (List.mem_filter.mp hs).1⟩

theorem lookup_rest {map map' : Snapshots F} {rest : List (LayoutWindowSnapshot F)}
    (hrest : rest = markMinimized w snapshots ∨ rest = withoutWindow w snapshots)
    (hmap : snapshotMap (markMinimized w snapshots) = .ok map) (hmap' : snapshotMap rest = .ok map')
    (hv : v ≠ w) : map'.lookup v = map.lookup v := by
  refine Option.ext fun s => ?_
  rw [snapshotMap_lookup hmap, snapshotMap_lookup hmap']
  refine and_congr_left fun hs => ?_
  obtain rfl | rfl := hrest
  · rfl
  · have hsw : s.window ≠ w := hs ▸ hv
    rw [mem_markMinimized_of_ne hsw, withoutWindow, List.mem_filter]
    simp [hsw]

theorem lookup_marked {map : Snapshots F} (hmap : snapshotMap (markMinimized w snapshots) = .ok map)
    (hw : ∃ s ∈ snapshots, s.window = w) : ∃ s, map.lookup w = some s ∧ s.minimized = true := by
  obtain ⟨s, hs, rfl⟩ := hw
  refine ⟨{ s with minimized := true }, (snapshotMap_lookup hmap).mpr ⟨?_, rfl⟩, rfl⟩
  exact List.mem_map.mpr ⟨s, hs, if_pos rfl⟩

omit [Float64 F] in
theorem mem_of_active_rest {rest : List (LayoutWindowSnapshot F)}
    (hrest : rest = markMinimized w snapshots ∨ rest = withoutWindow w snapshots) (hmem : s ∈ rest)
    (hm : s.minimized = false) : s ∈ snapshots ∧ s.window ≠ w := by
  obtain rfl | rfl := hrest
  · by_cases hw : s.window = w
    · obtain ⟨s', -, rfl⟩ := List.mem_map.mp hmem
      split_ifs at hw hm with hs'
      exact absurd hw hs'
    · exact ⟨(mem_markMinimized_of_ne hw).mp hmem, hw⟩
  · simpa [withoutWindow] using hmem

def Plain (w : WindowId) (snapshots : List (LayoutWindowSnapshot F)) : Prop :=
  ∀ s ∈ snapshots, s.window ≠ w → s.minimized = false →
    s.constraints.minAspect = none ∧ s.constraints.maxAspect = none

theorem needsExact_rest {map : Snapshots F} {rest : List (LayoutWindowSnapshot F)}
    (hrest : rest = markMinimized w snapshots ∨ rest = withoutWindow w snapshots)
    (hmap : snapshotMap rest = .ok map) : needsExact map = true ↔ ¬Plain w snapshots := by
  rw [needsExact, HashMap.anyValue_eq_true]
  simp only [Bool.and_eq_true, Bool.not_eq_true', Bool.or_eq_true, Option.isSome_iff_ne_none]
  constructor
  · rintro ⟨v, s, hv, hm, haspect⟩ hplain
    obtain ⟨hmem, hsw⟩ := mem_of_active_rest hrest ((snapshotMap_lookup hmap).mp hv).1 hm
    obtain ⟨hmin, hmax⟩ := hplain s hmem hsw hm
    exact haspect.elim (absurd hmin) (absurd hmax)
  · intro hplain
    simp only [Plain, not_forall, not_and_or] at hplain
    obtain ⟨s, hs, hsw, hm, haspect⟩ := hplain
    refine ⟨s.window, s, (snapshotMap_lookup hmap).mpr ⟨?_, rfl⟩, hm, haspect⟩
    obtain rfl | rfl := hrest
    · exact (mem_markMinimized_of_ne hsw).mpr hs
    · exact List.mem_filter.mpr ⟨hs, by simpa using hsw⟩

end Lists

theorem solve_isEmpty {t : DwindleTree F} (ht : t.IsEmpty) {snapshots : List (LayoutWindowSnapshot F)}
    {map : Snapshots F} (hmap : snapshotMap snapshots = .ok map) (root : LayoutRect)
    (targets : List TiledWindowTarget) :
    (∃ solution, solveTree t root snapshots = .ok solution ∧ solution.updates = targets) ↔ targets = [] := by
  simp [solveTree, solveTreeWithRatioOverrides, hmap, ht.root, eq_comm]

def SameLayout (t t' : DwindleTree F) (root : LayoutRect) (snapshots rest : List (LayoutWindowSnapshot F)) : Prop :=
  ((∃ solution, solveTree t root snapshots = .ok solution) ↔ ∃ solution, solveTree t' root rest = .ok solution) ∧
    ∀ solution solution', solveTree t root snapshots = .ok solution → solveTree t' root rest = .ok solution' →
      solution.updates = solution'.updates

theorem sameLayout_iff {t t' : DwindleTree F} {root : LayoutRect} {snapshots rest : List (LayoutWindowSnapshot F)} :
    SameLayout t t' root snapshots rest ↔ ∀ targets,
      (∃ solution, solveTree t root snapshots = .ok solution ∧ solution.updates = targets) ↔
        ∃ solution, solveTree t' root rest = .ok solution ∧ solution.updates = targets := by
  constructor
  · rintro ⟨hiff, heq⟩ targets
    constructor
    · rintro ⟨a, ha, rfl⟩
      obtain ⟨b, hb⟩ := hiff.mp ⟨a, ha⟩
      exact ⟨b, hb, (heq a b ha hb).symm⟩
    · rintro ⟨b, hb, rfl⟩
      obtain ⟨a, ha⟩ := hiff.mpr ⟨b, hb⟩
      exact ⟨a, ha, heq a b ha hb⟩
  · intro h
    refine ⟨⟨?_, ?_⟩, fun a b ha hb => ?_⟩
    · rintro ⟨a, ha⟩
      obtain ⟨b, hb, -⟩ := (h a.updates).mp ⟨a, ha, rfl⟩
      exact ⟨b, hb⟩
    · rintro ⟨b, hb⟩
      obtain ⟨a, ha, -⟩ := (h b.updates).mpr ⟨b, hb, rfl⟩
      exact ⟨a, ha⟩
    · obtain ⟨b', hb', heq⟩ := (h a.updates).mp ⟨a, ha, rfl⟩
      rw [← heq, Except.ok.inj (hb'.symm.trans hb)]

/-- A window of the tree that is marked minimized, and the list for the tree without it: the marked list, or the list
without the window. -/
structure Marked (t : DwindleTree F) (w : WindowId) (snapshots rest : List (LayoutWindowSnapshot F)) : Prop where
  wellFormed : t.WellFormed
  mem : w ∈ t.windows
  valid : ∃ map, snapshotMap snapshots = .ok map
  snapshot : ∃ s ∈ snapshots, s.window = w
  rest : rest = markMinimized w snapshots ∨ rest = withoutWindow w snapshots

def Alone (t : DwindleTree F) (w : WindowId) (snapshots : List (LayoutWindowSnapshot F)) : Prop :=
  ∀ s ∈ snapshots, s.window ∈ t.windows → s.window ≠ w → s.minimized = true

/-- `can_fit` is not asked: no other window has an aspect bound, no other window of the tree takes space, or another
window of the tree has no snapshot or no lower bounds. -/
def Unasked (t : DwindleTree F) (w : WindowId) (snapshots : List (LayoutWindowSnapshot F)) : Prop :=
  Plain w snapshots ∨ Alone t w snapshots ∨ ∃ v ∈ t.windows, v ≠ w ∧ ∀ s ∈ snapshots, s.window = v →
    s.minimized = false ∧ s.constraints.independentLowerBounds.isOk = false

section Remove
variable {t : DwindleTree F} {w : WindowId} {snapshots rest : List (LayoutWindowSnapshot F)}
  {map map' : Snapshots F}

theorem Marked.maps (h : Marked t w snapshots rest) : ∃ map map', snapshotMap (markMinimized w snapshots) = .ok map ∧
    snapshotMap rest = .ok map' ∧ (∃ s, map.lookup w = some s ∧ s.minimized = true) ∧
    ∀ v, v ≠ w → map'.lookup v = map.lookup v := by
  obtain ⟨map, hmap⟩ := markMinimized_accepted h.valid w
  obtain ⟨map', hmap'⟩ : ∃ map', snapshotMap rest = .ok map' := by
    obtain rfl | rfl := h.rest
    · exact ⟨map, hmap⟩
    · exact withoutWindow_accepted h.valid w
  exact ⟨map, map', hmap, hmap', lookup_marked hmap h.snapshot, fun v hv => lookup_rest h.rest hmap hmap' hv⟩

theorem Marked.exists_shape (h : Marked t w snapshots rest) : ∃ T, t.Shape T := by
  refine (DwindleTree.wellFormed_iff.mp h.wellFormed).resolve_left fun hempty => ?_
  have hw := h.mem
  simp [DwindleTree.windows, hempty.order] at hw

theorem DwindleTree.Shape.ne_of_removed {t' : DwindleTree F} {T' : Topology F} (hT' : t'.Shape T')
    (horder : t'.insertionOrder = t.insertionOrder.filter fun v => v ≠ w) {v : WindowId} (hv : v ∈ T'.windows) :
    v ≠ w := by
  have hmem := hT'.order.mem_iff.mpr hv
  rw [horder] at hmem
  simpa using (List.mem_filter.mp hmem).2

theorem solve_targets_iff {g : Frame F} {c : List (Frame F)} {leaf : DwindleNodeId}
    {t' : DwindleTree F} (hT : t.Shape (plug (g :: c) (.leaf leaf w))) (hT' : t'.Shape (plug c g.sibling))
    (hmap : snapshotMap (markMinimized w snapshots) = .ok map) (hmap' : snapshotMap rest = .ok map')
    (hmarked : ∃ s, map.lookup w = some s ∧ s.minimized = true)
    (hlook : ∀ v ∈ (plug c g.sibling).windows, map'.lookup v = map.lookup v)
    (hmode : needsExact map = false ∧ needsExact map' = false ∨ (plug (g :: c) (.leaf leaf w)).active map = [] ∨
      ∀ bounds, (plug (g :: c) (.leaf leaf w)).lowerBounds map ≠ .ok bounds)
    (root : LayoutRect) (targets : List TiledWindowTarget) :
    (∃ solution, solveTree t root (markMinimized w snapshots) = .ok solution ∧ solution.updates = targets) ↔
      ∃ solution, solveTree t' root rest = .ok solution ∧ solution.updates = targets := by
  obtain ⟨s, hs, hm⟩ := hmarked
  have hswap := (interchangeable_sibling (overrideMap []) leaf hs hm g).plug c
  have hbounds : (plug (g :: c) (.leaf leaf w)).lowerBounds map = (plug c g.sibling).lowerBounds map' :=
    hswap.bounds.trans (Topology.lowerBounds_congr hlook).symm
  obtain ⟨hfast, hfast'⟩ | hactive | hnone := hmode
  · rw [solveTree, solveTree, solve_fast_iff hT hmap hfast, solve_fast_iff hT' hmap' hfast', hbounds,
      placed_congr hlook]
    exact and_congr_right fun _ => hswap.placed root targets
  · have hactive' : (plug c g.sibling).active map' = [] := by
      rw [Topology.active_congr hlook]
      exact hswap.active.mp hactive
    rw [solveTree, solveTree, solve_inactive hT hmap hactive, solve_inactive hT' hmap' hactive', hbounds]
  · cases hb : (plug (g :: c) (.leaf leaf w)).lowerBounds map with
    | ok bounds => exact absurd hb (hnone bounds)
    | error e => simp [solveTree, solve_error hT hmap hb, solve_error hT' hmap' (hbounds ▸ hb)]

theorem Marked.unasked (h : Marked t w snapshots rest) (hcond : Unasked t w snapshots) (root : LayoutRect) :
    ∃ t', t.remove w = .ok (.ok (), t') ∧ SameLayout t t' root (markMinimized w snapshots) rest := by
  obtain ⟨map, map', hmap, hmap', hmarked, hlook⟩ := h.maps
  obtain ⟨T, hT⟩ := h.exists_shape
  have hother : ∀ {v s}, v ≠ w → map.lookup v = some s → s ∈ snapshots ∧ s.window = v := fun hvw hs => by
    obtain ⟨hmem, rfl⟩ := (snapshotMap_lookup hmap).mp hs
    exact ⟨(mem_markMinimized_of_ne hvw).mp hmem, rfl⟩
  have hinactive : Alone t w snapshots → T.active map = [] := fun halone => by
    refine List.filter_eq_nil_iff.mpr fun v hv hactive => ?_
    obtain ⟨s, hs, hm⟩ := isActive_iff.mp hactive
    by_cases hvw : v = w
    · subst hvw
      obtain ⟨s', hs', hm'⟩ := hmarked
      simp [Option.some.inj (hs.symm.trans hs'), hm'] at hm
    · obtain ⟨hmem, rfl⟩ := hother hvw hs
      simp [halone s hmem (hT.order.mem_iff.mpr hv) hvw] at hm
  have hunbounded : (∃ v ∈ t.windows, v ≠ w ∧ ∀ s ∈ snapshots, s.window = v →
      s.minimized = false ∧ s.constraints.independentLowerBounds.isOk = false) →
      ∀ bounds, T.lowerBounds map ≠ .ok bounds := by
    rintro ⟨v, hv, hvw, hbad⟩ bounds hb
    obtain ⟨s, hs, hgood⟩ := Topology.bounds_of_lowerBounds hb (hT.order.mem_iff.mp hv)
    obtain ⟨hmem, hsv⟩ := hother hvw hs
    obtain ⟨hm, hno⟩ := hbad s hmem hsv
    simp [hm, hno] at hgood
  obtain ⟨leaf, c, -, rfl⟩ := hT.exists_leaf (hT.order.mem_iff.mp h.mem)
  -- the window is the whole tree, or its sibling takes the place of the split
  cases c with
  | nil =>
    obtain ⟨t', hremove, hempty, -⟩ := DwindleTree.remove_root hT
    obtain ⟨s, hs, hm⟩ := hmarked
    have hactive : (Topology.leaf leaf w : Topology F).active map = [] := by
      rw [Topology.active_leaf hs, if_pos hm]
    refine ⟨t', hremove, sameLayout_iff.mpr fun targets => ?_⟩
    rw [solve_isEmpty hempty hmap', solveTree, solve_inactive hT hmap hactive]
    simp [plug, Topology.lowerBounds, hs, hm]
  | cons g c =>
    obtain ⟨t', hremove, hT', -, horder⟩ := DwindleTree.remove_split hT
    have hlook' : ∀ v ∈ (plug c g.sibling).windows, map'.lookup v = map.lookup v := fun v hv =>
      hlook v (hT'.ne_of_removed horder hv)
    refine ⟨t', hremove, sameLayout_iff.mpr (solve_targets_iff hT hT' hmap hmap' hmarked hlook' ?_ root)⟩
    exact hcond.imp (fun hplain => ⟨by simpa using mt (needsExact_rest (.inl rfl) hmap).mp (not_not.mpr hplain),
      by simpa using mt (needsExact_rest h.rest hmap').mp (not_not.mpr hplain)⟩)
      (Or.imp hinactive hunbounded)

end Remove

/-! ### The exact solver -/

section Exact
variable {t : DwindleTree ℚ} {w : WindowId} {snapshots rest : List (LayoutWindowSnapshot ℚ)} {map : Snapshots ℚ}

theorem fitsIn_sibling {leaf : DwindleNodeId} {g : Frame ℚ} {size : Size}
    (h : (g.fill (.leaf leaf w)).FitsIn (Accepts map) size) : g.sibling.FitsIn (Accepts map) size := by
  unfold Frame.fill at h
  split_ifs at h
  · obtain ⟨k, -, -, -, hfit⟩ := h
    exact hfit.mono (accepts_mono map) (update_le_self_iff.mpr (Nat.sub_le _ _))
  · obtain ⟨k, -, hhigh, hfit, -⟩ := h
    refine hfit.mono (accepts_mono map) (update_le_self_iff.mpr (hhigh.trans ?_))
    unfold safeHigh
    omega

theorem fitsIn_plug {X Y : Topology ℚ} (h : ∀ size, X.FitsIn (Accepts map) size → Y.FitsIn (Accepts map) size)
    (c : List (Frame ℚ)) {size : Size} :
    (plug c X).FitsIn (Accepts map) size → (plug c Y).FitsIn (Accepts map) size := by
  induction c generalizing X Y with
  | nil => exact h size
  | cons f c ih =>
    refine ih fun size => ?_
    unfold Frame.fill
    split_ifs
    · exact fun ⟨k, hlow, hhigh, h₁, h₂⟩ => ⟨k, hlow, hhigh, h _ h₁, h₂⟩
    · exact fun ⟨k, hlow, hhigh, h₁, h₂⟩ => ⟨k, hlow, hhigh, h₁, h _ h₂⟩

theorem tractable_rest {rest : List (LayoutWindowSnapshot ℚ)}
    (hrest : rest = markMinimized w snapshots ∨ rest = withoutWindow w snapshots) (hmap : snapshotMap rest = .ok map)
    (hminima : ∀ s ∈ snapshots, s.window ≠ w → s.minimized = false → s.constraints.MinimaPositive)
    {root : LayoutRect} (hsize : ∀ axis, root.size axis ≤ 2147483647) : Tractable map root.size where
  valid _ s hs := (snapshotMap_total.mp ⟨map, hmap⟩).2 s ((snapshotMap_lookup hmap).mp hs).1
  minima _ s hs hm := by
    obtain ⟨hmem, hsw⟩ := mem_of_active_rest hrest ((snapshotMap_lookup hmap).mp hs).1 hm
    exact hminima s hmem hsw hm
  small := .inl fun axis => (hsize axis).trans_lt (by norm_num)

/-- A tree that does not fit without `w` does not fit with a pixel for `w`. -/
theorem Marked.unfit (h : Marked t w snapshots rest) (hplain : ¬Plain w snapshots) (halone : ¬Alone t w snapshots)
    (hminima : ∀ s ∈ snapshots, s.window ≠ w → s.minimized = false → s.constraints.MinimaPositive)
    {root : LayoutRect} (hroot : root.Addressable) (hsize : ∀ axis, root.size axis ≤ 2147483647) :
    ∃ t' T' map', t.remove w = .ok (.ok (), t') ∧ t'.Shape T' ∧ snapshotMap rest = .ok map' ∧
      (¬T'.FitsIn (Accepts map') root.size → SameLayout t t' root (markMinimized w snapshots) rest) := by
  obtain ⟨map, map', hmap, hmap', ⟨s, hs, hm⟩, hlook⟩ := h.maps
  have htract := tractable_rest (.inl rfl) hmap hminima hsize
  have htract' := tractable_rest h.rest hmap' hminima hsize
  have hexact := (needsExact_rest (.inl rfl) hmap).mpr hplain
  have hexact' := (needsExact_rest h.rest hmap').mpr hplain
  have hok : ∀ T : Topology ℚ, Surveyed root.size T root := fun T => ⟨le_rfl, fun a _ => ⟨hroot.edgeFits a, hsize a⟩⟩
  obtain ⟨T, hT⟩ := h.exists_shape
  simp only [Alone, not_forall, Bool.not_eq_true] at halone
  obtain ⟨o, ho, hot, how, hom⟩ := halone
  have holook : map.lookup o.window = some o :=
    (snapshotMap_lookup hmap).mpr ⟨(mem_markMinimized_of_ne how).mpr ho, rfl⟩
  have hactive : T.active map ≠ [] :=
    List.ne_nil_of_mem (List.mem_filter.mpr ⟨hT.order.mem_iff.mp hot, isActive_iff.mpr ⟨o, holook, hom⟩⟩)
  obtain ⟨leaf, c, -, rfl⟩ := hT.exists_leaf (hT.order.mem_iff.mp h.mem)
  cases c with
  | nil =>
    refine absurd ?_ hactive
    change (Topology.leaf leaf w).active map = []
    rw [Topology.active_leaf hs, if_pos hm]
  | cons g c =>
    obtain ⟨t', hremove, hT', -, horder⟩ := DwindleTree.remove_split hT
    have hlook' : ∀ v ∈ (plug c g.sibling).windows, map'.lookup v = map.lookup v := fun v hv =>
      hlook v (hT'.ne_of_removed horder hv)
    have hswap := (interchangeable_sibling (overrideMap []) leaf hs hm g).plug c
    have hbounds : (plug (g :: c) (.leaf leaf w)).lowerBounds map = (plug c g.sibling).lowerBounds map' :=
      hswap.bounds.trans (Topology.lowerBounds_congr hlook').symm
    refine ⟨t', _, map', hremove, hT', hmap', fun hunfit => sameLayout_iff.mpr fun targets => ?_⟩
    cases hb : (plug (g :: c) (.leaf leaf w)).lowerBounds map with
    | error e => simp [solveTree, solve_error hT hmap hb, solve_error hT' hmap' (hbounds ▸ hb)]
    | ok bounds =>
      have hactive' : (plug c g.sibling).active map' ≠ [] := by
        rw [Topology.active_congr hlook']
        exact mt hswap.active.mpr hactive
      -- neither tree is solved
      have hnone : ∀ solution, solveTree t root (markMinimized w snapshots) ≠ .ok solution := fun solution hsolve => by
        have hfits := ((solve_exact_iff hT hmap hexact htract (hok _) hactive hb).mp ⟨solution, hsolve⟩).1
        exact hunfit ((Topology.fitsIn_congr hlook').mpr (fitsIn_plug (fun _ => fitsIn_sibling) c hfits))
      have hnone' : ∀ solution, solveTree t' root rest ≠ .ok solution := fun solution hsolve =>
        hunfit ((solve_exact_iff hT' hmap' hexact' htract' (hok _) hactive' (hbounds ▸ hb)).mp ⟨solution, hsolve⟩).1
      simp [hnone, hnone']

end Exact

def wideWindow : LayoutWindowSnapshot ℚ :=
  ⟨⟨2⟩, false, { LayoutConstraints.unconstrained with minWidth := some (toU32 100), minAspect := some (1 / 100) }⟩

end Typhon.Layout
