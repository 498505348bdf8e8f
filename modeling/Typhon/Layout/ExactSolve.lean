import Typhon.Layout.SubtreeFits

/-! The solver with aspect constraints: the limits of every boundary come from the least extents at
which the two sides fit. -/

namespace Typhon.Layout
open Foundation Query

theorem exactLimits_unique {accepts : WindowId → Size → Prop} {axis : SplitAxis} {first second : Topology ℚ}
    {rect : LayoutRect} {pair pair' : I32 × I32} (h : exactLimits accepts axis first second rect pair)
    (h' : exactLimits accepts axis first second rect pair') : pair = pair' := by
  obtain ⟨a, b, ha, hb, -, hoff⟩ := h
  obtain ⟨a', b', ha', hb', -, hoff'⟩ := h'
  obtain rfl := ha.unique ha'
  obtain rfl := hb.unique hb'
  exact Prod.ext (Subtype.ext (hoff.low.trans hoff'.low.symm)) (Subtype.ext (hoff.high.trans hoff'.high.symm))

theorem exactLimits_fits {accepts : WindowId → Size → Prop} (haccepts : ∀ window, Monotone (accepts window))
    {axis : SplitAxis} {first second : Topology ℚ} {rect : LayoutRect} {pair : I32 × I32}
    (h : exactLimits accepts axis first second rect pair) {id : DwindleNodeId} {ratio : SplitRatio ℚ} :
    (Topology.split id axis ratio first second).FitsIn accepts rect.size := by
  obtain ⟨a, b, ha, hb, hle, -⟩ := h
  exact ⟨_, (Topology.fits_offset_iff haccepts ha hb).mpr ⟨le_rfl, hle⟩⟩

structure Hosted (snapshots : Snapshots ℚ) (bound : Size) (T : Topology ℚ) (rect : LayoutRect) : Prop extends
    Surveyed bound T rect where
  windows : ∀ w ∈ T.windows, ∃ size, Accepts snapshots w size

theorem Hosted.handedDown (snapshots : Snapshots ℚ) (bound : Size) (limits : Limits ℚ) :
    HandedDown (Hosted snapshots bound) limits where
  first := fun _ _ _ _ _ _ h => ⟨h.first, fun w hw => h.windows w (by simp [Topology.windows, hw])⟩
  second := fun _ _ _ _ _ _ h => ⟨h.second, fun w hw => h.windows w (by simp [Topology.windows, hw])⟩
  halves := fun _ _ _ _ _ _ _ _ _ _ h _ hs =>
    ⟨⟨(h.halves hs).1, fun w hw => h.windows w (by simp [Topology.windows, hw])⟩,
      (h.halves hs).2, fun w hw => h.windows w (by simp [Topology.windows, hw])⟩

section Limits
variable {input : ResolveInput ℚ} {bound : Size} (hexact : input.exact = true)
  (htract : Tractable input.snapshots bound)
include hexact htract

theorem boundaryRange_sound {id : DwindleNodeId} {axis : SplitAxis} {ratio : SplitRatio ℚ}
    {first second : Topology ℚ} {rect : LayoutRect} (hT : Known input (.split id axis ratio first second))
    (hok : Surveyed bound (.split id axis ratio first second) rect) :
    Sound (Coherent input.toSolveContext (Accepts input.snapshots))
      (boundaryRange input.toSolveContext axis first.id second.id rect) fun r =>
      (∀ pair, r = some pair → exactLimits (Accepts input.snapshots) axis first second rect pair) ∧
      (r.isSome = true ↔
        (Topology.split id axis ratio first second).FitsIn (Accepts input.snapshots) rect.size) := by
  obtain ⟨hedge, hsize⟩ := hok.edge axis (.inl rfl)
  obtain ⟨parent, hden⟩ := hT.denotes
  refine feasibleBoundaryRange_sound (accepts_mono _) hedge hsize fun S hS => ?_
  have hfit : ∀ S p, Denotes input.tree.nodes p S → ∀ rect', Surveyed bound S rect' →
      Sound (Coherent input.toSolveContext (Accepts input.snapshots))
        (canFit input.toSolveContext input.tree.depthBound S.id rect')
        fun b => b = true ↔ S.FitsIn (Accepts input.snapshots) rect'.size := fun S p hS rect' hr =>
    canFit_sound hexact (accepts_mono _) (fun _ _ _ hle => leafFits_sound hexact htract hle) hS hr
  rw [List.mem_pair] at hS
  obtain rfl | rfl := hS
  · exact minimumExtent_surveyed (accepts_mono _) hden.2.1 hok.first (hfit _ _ hden.2.1)
  · exact minimumExtent_surveyed (accepts_mono _) hden.2.2 hok.second (hfit _ _ hden.2.2)

theorem boundaryRange_returns {id : DwindleNodeId} {axis : SplitAxis} {ratio : SplitRatio ℚ}
    {first second : Topology ℚ} {rect : LayoutRect} (hT : Known input (.split id axis ratio first second))
    (hok : Hosted input.snapshots bound (.split id axis ratio first second) rect) :
    Query.Returns (boundaryRange input.toSolveContext axis first.id second.id rect) fun _ => True := by
  refine (feasibleBoundaryRange_returns fun i hi => ?_).mono fun _ _ => trivial
  refine minimumExtent_returns (rect.extent_pos axis) (rect.extent axis).property fun m hm hle => ?_
  have hprobe := (rect.probe_le hm hle).trans hok.size_le
  have hreturns : ∀ S, Known input S → (∀ w ∈ S.windows, ∃ size, Accepts input.snapshots w size) →
      Query.Returns (canFit input.toSolveContext input.tree.depthBound S.id (rectWithSize axis m (rect.cross axis).val))
        fun _ => True := fun S hS hw => by
    obtain ⟨parent, hden⟩ := hS.denotes
    exact canFit_returns hden hS.height (fun w hmem r hr =>
      (hw w hmem).elim fun _ hacc => leafFits_returns hexact htract hacc hr) hprobe
  rw [List.mem_pair] at hi
  obtain rfl | rfl := hi
  · exact hreturns first hT.first fun w hw => hok.windows w (by simp [Topology.windows, hw])
  · exact hreturns second hT.second fun w hw => hok.windows w (by simp [Topology.windows, hw])

theorem exactLimits_sound : LimitsSound input (Coherent input.toSolveContext (Accepts input.snapshots))
    (Surveyed bound) (exactLimits (Accepts input.snapshots)) := by
  intro id axis ratio first second b₁ b₂ rect s s' pair hT hok _ _ hinv h
  rw [splitLimits, if_pos hexact] at h
  obtain ⟨range, s₁, hrange, h⟩ := Run.runS_bind_eq_ok.mp h
  obtain ⟨⟨r, f⟩, hrun, heq⟩ := Run.bind_eq_ok.mp hrange
  cases heq
  obtain ⟨hcoh, hpair, -⟩ := boundaryRange_sound hexact htract hT hok hinv hrun
  cases range with
  | none =>
    obtain ⟨e, s₂, -, h⟩ := Run.runS_bind_eq_ok.mp h
    simp [Run.fail] at h
  | some range =>
    cases h
    exact ⟨hcoh, hpair pair rfl⟩

theorem exactLimits_complete :
    LimitsComplete input (Coherent input.toSolveContext (Accepts input.snapshots)) (Hosted input.snapshots bound)
      (exactLimits (Accepts input.snapshots)) := by
  intro id axis ratio first second b₁ b₂ rect s pair hT hok _ _ hinv hpair
  obtain ⟨r, f, hrun, -⟩ := boundaryRange_returns hexact htract hT hok s.feasibility
  obtain ⟨hcoh, hall, hiff⟩ := boundaryRange_sound hexact htract hT hok.toSurveyed hinv hrun
  obtain ⟨range, rfl⟩ := Option.isSome_iff_exists.mp (hiff.mpr (exactLimits_fits (accepts_mono _) hpair))
  obtain rfl := exactLimits_unique (hall range rfl) hpair
  refine ⟨{ s with feasibility := f }, ?_, hcoh⟩
  rw [splitLimits, if_pos hexact]
  have hon : (onFeasibility (boundaryRange input.toSolveContext axis first.id second.id rect)).run s =
      .ok (some range, { s with feasibility := f }) := Run.bind_eq_ok.mpr ⟨_, hrun, rfl⟩
  rw [Run.runS_bind_ok hon]
  rfl

end Limits

section Solve
variable {t : DwindleTree ℚ} {T : Topology ℚ} {root : LayoutRect} {snapshots : List (LayoutWindowSnapshot ℚ)}
  {overrides : List (RatioOverride ℚ)} {map : Snapshots ℚ} {bound : Size}

theorem solve_exact_iff (hT : t.Shape T) (hmap : snapshotMap snapshots = .ok map) (hexact : needsExact map = true)
    (htract : Tractable map bound) (hok : Surveyed bound T root) (hactive : T.active map ≠ [])
    {bounds : Option SubtreeLowerBounds} (hb : T.lowerBounds map = .ok bounds) :
    (∃ solution, solveTreeWithRatioOverrides t root snapshots overrides = .ok solution) ↔
      T.FitsIn (Accepts map) root.size ∧
        ∃ targets, Placed map (overrideMap overrides) (exactLimits (Accepts map)) T root targets := by
  obtain ⟨s, hknown, hsolve⟩ := solve_bounds root overrides hT hmap hb
  obtain ⟨b, rfl⟩ := Option.ne_none_iff_exists'.mp (mt (Topology.lowerBounds_none_iff hb).mp hactive)
  rw [hexact] at hknown hsolve
  rw [hsolve, Option.isNone_some, if_neg Bool.false_ne_true]
  simp only [resolveRoot_eq_ok, Bool.true_eq_false, false_and, false_or, true_and, resolveFitting_eq_ok]
  constructor
  · rintro ⟨solution, feasibility, hfit, shown, state, hrun, -⟩
    obtain ⟨hcoh, hfits⟩ := canFit_root_sound hT htract.decides hok coherent_new hfit
    obtain ⟨-, targets, -, hp⟩ := resolveNode_sound (Surveyed.handedDown _) (exactLimits_sound rfl htract) hknown
      hok hcoh hrun
    exact ⟨hfits.mp rfl, targets, hp⟩
  · rintro ⟨hfits, targets, hp⟩
    obtain ⟨feasibility, hfit⟩ := canFit_root_of_fits hT htract.decides hok hfits
    obtain ⟨hcoh, -⟩ := canFit_root_sound hT htract.decides hok coherent_new hfit
    obtain ⟨shown, state, hrun, -, -⟩ := resolveNode_complete (s := ⟨feasibility, [], [], s.nodeVisits⟩)
      (Hosted.handedDown map bound _) (exactLimits_complete rfl htract) hknown
      ⟨hok, fun w hw => hfits.exists_size hw⟩ hknown.height hcoh hp
    exact ⟨_, feasibility, hfit, shown, state, hrun, rfl⟩

end Solve
end Typhon.Layout
