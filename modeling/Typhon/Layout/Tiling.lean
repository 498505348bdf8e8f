import Typhon.Foundation.Tiles
import Typhon.Layout.ClientRect
import Typhon.Layout.Resolve

/-! A solution tiles the root rectangle: every window that takes space gets one tile, and the tiles
are disjoint and fill the root, whatever boundary each split was given. -/

namespace Typhon.Layout
open Foundation

variable {F : Type} [Float64 F]

/-! ### Pixels -/

namespace LayoutRect

def pixels (r : LayoutRect) : Set (ℤ × ℤ) :=
  Set.Ico r.x.val (r.x.val + r.width.val) ×ˢ Set.Ico r.y.val (r.y.val + r.height.val)

structure Addressable (r : LayoutRect) : Prop where
  right : r.x.val + r.width.val ≤ 2147483647
  bottom : r.y.val + r.height.val ≤ 2147483647

def counted (r : LayoutRect) : Set (ℤ × ℤ) :=
  {p | p ∈ r.pixels ∧ p.1 < r.right.val ∧ p.2 < r.bottom.val}

variable {r : LayoutRect}

theorem mem_pixels {p : ℤ × ℤ} : p ∈ r.pixels ↔
    (r.x.val ≤ p.1 ∧ p.1 < r.x.val + r.width.val) ∧ r.y.val ≤ p.2 ∧ p.2 < r.y.val + r.height.val := by
  simp [pixels, Set.mem_prod, Set.mem_Ico]

theorem counted_subset (r : LayoutRect) : r.counted ⊆ r.pixels := fun _ hp => hp.1

theorem Addressable.right_val (h : r.Addressable) : r.right.val = r.x.val + min (r.width.val : ℤ) 2147483647 := by
  have := r.x.property
  have := h.right
  rw [LayoutRect.right, I32.saturatingAdd, I32.sat_val, U32.minI32_val]
  omega

theorem Addressable.bottom_val (h : r.Addressable) :
    r.bottom.val = r.y.val + min (r.height.val : ℤ) 2147483647 := by
  have := r.y.property
  have := h.bottom
  rw [LayoutRect.bottom, I32.saturatingAdd, I32.sat_val, U32.minI32_val]
  omega

theorem Addressable.counted_eq (h : r.Addressable) (hw : r.width.val ≤ 2147483647)
    (hh : r.height.val ≤ 2147483647) : r.counted = r.pixels := by
  refine Set.Subset.antisymm r.counted_subset fun p hp => ⟨hp, ?_, ?_⟩
  · rw [h.right_val]
    rw [mem_pixels] at hp
    omega
  · rw [h.bottom_val]
    rw [mem_pixels] at hp
    omega

theorem Addressable.children {r r₁ r₂ : LayoutRect} (h : r.Addressable) {axis : SplitAxis}
    {boundary : I32} (h₁ : r.firstChild axis boundary = some r₁) (h₂ : r.secondChild axis boundary = some r₂) :
    r₁.Addressable ∧ r₂.Addressable ∧ Disjoint r₁.pixels r₂.pixels ∧
      r₁.pixels ∪ r₂.pixels ⊆ r.pixels ∧ r.counted ⊆ r₁.counted ∪ r₂.counted := by
  have hb := boundary.property
  obtain ⟨horigin₁, hcross₁, hsize₁, hle₁, hextent₁⟩ := firstChild_eq_some.mp h₁
  obtain ⟨horigin₂, hcross₂, hsize₂, hle₂, hextent₂⟩ := secondChild_eq_some.mp h₂
  have hr := h.right_val
  have hbot := h.bottom_val
  obtain ⟨hright, hbottom⟩ := h
  cases axis <;> simp only [LayoutRect.origin, crossOrigin, LayoutRect.cross, LayoutRect.extent, far]
    at horigin₁ hcross₁ hsize₁ hle₁ hextent₁ horigin₂ hcross₂ hsize₂ hle₂ hextent₂
  all_goals
    have ha₁ : r₁.Addressable := by constructor <;> simp only [horigin₁, hcross₁, hsize₁] <;> omega
    have ha₂ : r₂.Addressable := by constructor <;> simp only [horigin₂, hcross₂, hsize₂] <;> omega
    refine ⟨ha₁, ha₂, Set.disjoint_left.mpr fun p hp₁ hp₂ => ?_, fun p hp => ?_, fun p hp => ?_⟩
    · simp only [mem_pixels, horigin₁, hcross₁, hsize₁, horigin₂, hcross₂, hsize₂] at hp₁ hp₂
      omega
    · simp only [Set.mem_union, mem_pixels, horigin₁, hcross₁, hsize₁, horigin₂, hcross₂, hsize₂] at hp ⊢
      omega
    · simp only [Set.mem_union, counted, Set.mem_ofPred_eq, mem_pixels, ha₁.right_val, ha₁.bottom_val,
        ha₂.right_val, ha₂.bottom_val, horigin₁, hcross₁, hsize₁, horigin₂, hcross₂, hsize₂] at hp ⊢
      omega

end LayoutRect

theorem resolveClientRect_inside {tile client : LayoutRect} {c : LayoutConstraints F}
    (htile : tile.Addressable) (h : resolveClientRectWithinTile tile c = .ok client) :
    client.pixels ⊆ tile.pixels := by
  obtain ⟨-, -, -, -, -, -, hw, hh, hx, hy⟩ := resolveClientRect_sound h
  have hcentre : ∀ (origin : I32) (size inner : ℕ), 0 < inner → inner ≤ size → size ≤ 4294967295 →
      origin.val + size ≤ 2147483647 →
      (centred origin ((size - inner) / 2)).val = origin.val + ((size - inner) / 2 : ℕ) := by
    intro origin size inner hpos hle hmax hfits
    have := origin.property
    rw [centred, I32.saturatingAdd, U32.toI32_val, toU32_val (by omega), I32.sat_val]
    omega
  have hxv := hcentre tile.x _ _ client.width_pos hw tile.width.property htile.right
  have hyv := hcentre tile.y _ _ client.height_pos hh tile.height.property htile.bottom
  intro p hp
  rw [LayoutRect.mem_pixels, hx, hy, hxv, hyv] at hp
  rw [LayoutRect.mem_pixels]
  omega

/-! ### Tiles -/

structure TiledWindowTarget.Honours (u : TiledWindowTarget) (c : LayoutConstraints F) : Prop where
  inside : u.client.pixels ⊆ u.tile.pixels
  positive : 0 < u.client.width.val ∧ 0 < u.client.height.val
  width : ∃ widths, c.widthLattice = some widths ∧ widths.contains u.client.width.val = true
  height : ∃ heights, c.heightLattice = some heights ∧ heights.contains u.client.height.val = true

section Placed
variable {snapshots : Snapshots F} {overrides : HashMap DwindleNodeId (SplitRatio F)}
  {limits : Limits F} {T : Topology F} {rect : LayoutRect} {targets : List TiledWindowTarget}

theorem Placed.honours (h : Placed snapshots overrides limits T rect targets)
    (hrect : rect.Addressable) {u : TiledWindowTarget} (hu : u ∈ targets) :
    ∃ snapshot, snapshots.lookup u.window = some snapshot ∧ u.Honours snapshot.constraints := by
  induction h with
  | minimized h => simp at hu
  | @leaf id window rect client snapshot hs hm hc =>
    obtain rfl := List.mem_singleton.mp hu
    obtain ⟨widths, heights, hw, hh, hcw, hch, -⟩ := resolveClientRect_sound hc
    exact ⟨snapshot, hs, resolveClientRect_inside hrect hc, ⟨client.width_pos, client.height_pos⟩,
      ⟨widths, hw, hcw⟩, ⟨heights, hh, hch⟩⟩
  | first h₁ h₂ h ih => exact ih hrect hu
  | second h₁ h₂ h ih => exact ih hrect hu
  | both h₁ h₂ hl hs hp₁ hp₂ ih₁ ih₂ =>
    obtain ⟨boundary, -, -, hc₁, hc₂⟩ := hs.exists_boundary
    obtain ⟨ha₁, ha₂, -⟩ := hrect.children hc₁ hc₂
    obtain hu | hu := List.mem_append.mp hu
    · exact ih₁ ha₁ hu
    · exact ih₂ ha₂ hu

theorem Placed.tiles (h : Placed snapshots overrides limits T rect targets)
    (hrect : rect.Addressable) (hactive : T.active snapshots ≠ []) :
    ∃ covered, Tiles (fun u : TiledWindowTarget => u.tile.pixels) targets covered ∧
      rect.counted ⊆ covered ∧ covered ⊆ rect.pixels := by
  induction h with
  | minimized h => exact absurd h hactive
  | leaf hs hm hc => exact ⟨_, Tiles.singleton _, LayoutRect.counted_subset _, subset_rfl⟩
  | first h₁ h₂ h ih => exact ih hrect h₁
  | second h₁ h₂ h ih => exact ih hrect h₂
  | both h₁ h₂ hl hs hp₁ hp₂ ih₁ ih₂ =>
    obtain ⟨boundary, -, -, hc₁, hc₂⟩ := hs.exists_boundary
    obtain ⟨ha₁, ha₂, hdisjoint, hunion, hcounted⟩ := hrect.children hc₁ hc₂
    obtain ⟨c₁, ht₁, hl₁, hu₁⟩ := ih₁ ha₁ h₁
    obtain ⟨c₂, ht₂, hl₂, hu₂⟩ := ih₂ ha₂ h₂
    exact ⟨c₁ ∪ c₂, ht₁.append ht₂ (hdisjoint.mono hu₁ hu₂),
      hcounted.trans (Set.union_subset_union hl₁ hl₂), (Set.union_subset_union hu₁ hu₂).trans hunion⟩

end Placed

theorem limitsSound_any (input : ResolveInput F) :
    LimitsSound input (fun _ => True) (fun _ _ => True) fun _ _ _ _ _ => True := by
  intro id axis ratio first second b₁ b₂ rect s s' pair _ _ _ _ _ _
  exact ⟨trivial, trivial⟩

theorem solve_placed {t : DwindleTree F} {T : Topology F} {root : LayoutRect}
    {snapshots : List (LayoutWindowSnapshot F)} {overrides : List (RatioOverride F)}
    {solution : TiledLayoutSolution F} (hT : t.Shape T)
    (h : solveTreeWithRatioOverrides t root snapshots overrides = .ok solution) :
    ∃ map, snapshotMap snapshots = .ok map ∧ (∃ bounds, T.lowerBounds map = .ok bounds) ∧
      Placed map (overrideMap overrides) (fun _ _ _ _ _ => True) T root solution.updates := by
  obtain ⟨map, hmap, hb, ⟨hnone, hup, -⟩ | ⟨input, _, _, shown, state, rfl, hover, hknown, hrun, hup, -⟩⟩ :=
    solve_resolved hT h
  · exact ⟨map, hmap, hb, hup ▸ .minimized hnone⟩
  · obtain ⟨-, targets, htargets, hp⟩ := resolveNode_sound (handedDown_true _) (limitsSound_any _) hknown trivial
      trivial hrun
    rw [List.nil_append] at htargets
    exact ⟨_, hmap, hb, hover ▸ hup ▸ htargets ▸ hp⟩

/-- For a root whose far edges fit in `i32`, a successful solve gives one tile to every window that
is not minimized and none to the others; the tiles are disjoint parts of the root that cover what
`right()` and `bottom()` count, all of it up to a size of `i32::MAX`; and every client rectangle
lies in its tile and has legal sizes. -/
theorem solve_tiles {t : DwindleTree F} {root : LayoutRect} {snapshots : List (LayoutWindowSnapshot F)}
    {overrides : List (RatioOverride F)} {solution : TiledLayoutSolution F} (ht : t.WellFormed)
    (hright : root.x.val + root.width.val ≤ 2147483647) (hbottom : root.y.val + root.height.val ≤ 2147483647)
    (h : solveTreeWithRatioOverrides t root snapshots overrides = .ok solution) :
    ((solution.updates.map TiledWindowTarget.window).Nodup ∧
      ∀ w, w ∈ solution.updates.map TiledWindowTarget.window ↔
        w ∈ t.windows ∧ ∃ s ∈ snapshots, s.window = w ∧ s.minimized = false) ∧
    ((∃ w ∈ t.windows, ∃ s ∈ snapshots, s.window = w ∧ s.minimized = false) →
      solution.updates.Pairwise (fun u v => Disjoint u.tile.pixels v.tile.pixels) ∧
      (⋃ u ∈ solution.updates, u.tile.pixels) ⊆ root.pixels ∧
      root.counted ⊆ (⋃ u ∈ solution.updates, u.tile.pixels) ∧
      (root.width.val ≤ 2147483647 → root.height.val ≤ 2147483647 →
        (⋃ u ∈ solution.updates, u.tile.pixels) = root.pixels)) ∧
    ∀ u ∈ solution.updates, ∀ s ∈ snapshots, s.window = u.window → u.Honours s.constraints := by
  have hroot : root.Addressable := ⟨hright, hbottom⟩
  obtain hempty | ⟨T, hT⟩ := DwindleTree.wellFormed_iff.mp ht
  · obtain ⟨map, -, hrest⟩ := Run.bind_eq_ok.mp h
    rw [hempty.root] at hrest
    cases hrest
    simp [DwindleTree.windows, hempty.order]
  · obtain ⟨map, hmap, -, hp⟩ := solve_placed hT h
    have hwin : ∀ w, w ∈ T.active map ↔
        w ∈ t.windows ∧ ∃ s ∈ snapshots, s.window = w ∧ s.minimized = false := fun w => by
      rw [DwindleTree.windows, hT.order.mem_iff, Topology.active, List.mem_filter, isActive_iff]
      simp only [snapshotMap_lookup hmap, and_assoc]
    refine ⟨⟨?_, fun w => by rw [hp.windows, hwin]⟩, ?_, fun u hu s hs hw => ?_⟩
    · rw [hp.windows]
      exact hT.windows_nodup.filter _
    · rintro ⟨w, hw⟩
      have hactive : T.active map ≠ [] := List.ne_nil_of_mem ((hwin w).mpr hw)
      obtain ⟨covered, htiles, hcounted, hcovered⟩ := hp.tiles hroot hactive
      have hcover := htiles.cover
      refine ⟨htiles.disjoint, hcover ▸ hcovered, hcover ▸ hcounted, fun hwidth hheight => ?_⟩
      rw [hcover]
      exact hcovered.antisymm (hroot.counted_eq hwidth hheight ▸ hcounted)
    · obtain ⟨snapshot, hlook, hon⟩ := hp.honours hroot hu
      have hs' : map.lookup u.window = some s := (snapshotMap_lookup hmap).mpr ⟨hs, hw⟩
      exact Option.some.inj (hlook.symm.trans hs') ▸ hon

def twoWindows : DwindleTree ℚ := .ofRun [.insert ⟨1⟩ .none, .insert ⟨2⟩ .none]

def unconstrainedWindow (n : ℕ) : LayoutWindowSnapshot ℚ := ⟨⟨n⟩, false, .unconstrained⟩

theorem solve_tiles_two_windows : ∃ solution, solveTreeWithRatioOverrides twoWindows (rectOf 0 0 101 80)
      [unconstrainedWindow 1, unconstrainedWindow 2] [] = .ok solution ∧
    solution.updates.length = 2 ∧ (⋃ u ∈ solution.updates, u.tile.pixels) = Set.Ico 0 101 ×ˢ Set.Ico 0 80 := by
  have hrun : ((solveTreeWithRatioOverrides twoWindows (rectOf 0 0 101 80)
      [unconstrainedWindow 1, unconstrainedWindow 2] []).toOption.map fun s => s.updates.length) = some 2 := by
    decide +kernel
  cases h : solveTreeWithRatioOverrides twoWindows (rectOf 0 0 101 80)
      [unconstrainedWindow 1, unconstrainedWindow 2] [] with
  | error e => simp [h, Except.toOption] at hrun
  | ok solution =>
    obtain ⟨-, hcover, -⟩ := solve_tiles (DwindleTree.ofRun_wellFormed _) (by decide) (by decide) h
    obtain ⟨-, -, -, hall⟩ := hcover ⟨⟨1⟩, by decide +kernel, unconstrainedWindow 1, by simp, rfl, rfl⟩
    refine ⟨solution, rfl, by simpa [h, Except.toOption] using hrun, ?_⟩
    rw [hall (by decide) (by decide)]
    simp [LayoutRect.pixels, rectOf, toU32]

/-- A root at x = -1 that is 2147483648 wide has its right edge at `i32::MAX`; `right()` counts one
column less, and the tiles miss the last one. -/
theorem solve_misses_last_column : ∃ root : LayoutRect, ∃ solution,
    twoWindows.WellFormed ∧ root.x.val + root.width.val ≤ 2147483647 ∧ root.y.val + root.height.val ≤ 2147483647 ∧
    solveTreeWithRatioOverrides twoWindows root [unconstrainedWindow 1, unconstrainedWindow 2] [] = .ok solution ∧
    solution.updates ≠ [] ∧ (⋃ u ∈ solution.updates, u.tile.pixels) ≠ root.pixels := by
  let root := rectOf (-1) 0 2147483648 10
  have hrun : ((solveTreeWithRatioOverrides twoWindows root
      [unconstrainedWindow 1, unconstrainedWindow 2] []).toOption.map fun s =>
        (s.updates.isEmpty, s.updates.all fun u =>
          decide (u.tile.x.val + u.tile.width.val ≤ 2147483646))) = some (false, true) := by
    decide +kernel
  cases h : solveTreeWithRatioOverrides twoWindows root [unconstrainedWindow 1, unconstrainedWindow 2] [] with
  | error e => simp [h, Except.toOption] at hrun
  | ok solution =>
    simp only [h, Except.toOption, Option.map_some, Option.some.injEq, Prod.mk.injEq, List.all_eq_true,
      decide_eq_true_eq, List.isEmpty_eq_false_iff] at hrun
    refine ⟨root, solution, DwindleTree.ofRun_wellFormed _, by decide, by decide, h, hrun.1, fun heq => ?_⟩
    have hmem : ((2147483646, 0) : ℤ × ℤ) ∈ root.pixels :=
      LayoutRect.mem_pixels.mpr ⟨by decide, by decide⟩
    rw [← heq] at hmem
    obtain ⟨u, hu, hpix⟩ := Set.mem_iUnion₂.mp hmem
    have := (LayoutRect.mem_pixels.mp hpix).1.2
    have := hrun.2 u hu
    omega

end Typhon.Layout
