import Typhon.Layout.FastAgreement

/-! What a solve can answer: a solution, or an infeasibility that names windows of the tree which take
space. Nothing else happens while the search for a client rectangle answers in every tile. -/

namespace Typhon.Layout
open Foundation Query

variable {F : Type} [Float64 F]

/-! ### The search for a client rectangle has no error but infeasibility -/

section Search
variable {ε : Type} (c : LayoutConstraints F) (l widths heights : LegalDimensionLattice)

omit [Float64 F] in
theorem candidateLoop_infallible (lower upper : ℕ) (legal goUp : ℕ → Bool) (fuel candidate : ℕ) :
    (candidateLoop l lower upper legal goUp fuel candidate : Run ε _).Infallible := by
  induction fuel generalizing candidate with
  | zero => rintro e ⟨⟩
  | succ fuel ih =>
    rw [candidateLoop]
    split_ifs
    · rintro e ⟨⟩
    · rintro e ⟨⟩
    · split
      · rintro e ⟨⟩
      · split_ifs
        · rintro e ⟨⟩
        · exact ih _

omit [Float64 F] in
theorem largestFrom_infallible (lower upper : ℕ) (legal goUp : ℕ → Bool) :
    (largestFrom l lower upper legal goUp : Run ε _).Infallible := by
  rw [largestFrom]
  split
  · rintro e ⟨⟩
  · exact candidateLoop_infallible _ _ _ _ _ _ _

omit [Float64 F] in
theorem scanLattice_infallible {largest : ℕ → Run ε (Option ℕ)} (h : ∀ v, (largest v).Infallible) (first count : ℕ) :
    (scanLattice l largest first count).Infallible := by
  induction count with
  | zero => rintro e ⟨⟩
  | succ count ih =>
    rw [scanLattice]
    split
    · rintro e ⟨⟩
    · refine (h _).bind fun other => ?_
      cases other with
      | none => exact ih
      | some other => rintro e ⟨⟩

omit [Float64 F] in
theorem searchLattice_infallible {canIntersect : ℕ → ℕ → Bool} {largest : ℕ → Run ε (Option ℕ)}
    (h : ∀ v, (largest v).Infallible) (levels first last : ℕ) :
    (searchLattice l canIntersect largest levels first last).Infallible := by
  induction levels generalizing first last with
  | zero => rintro e ⟨⟩
  | succ levels ih =>
    rw [searchLattice]
    by_cases hlast : last < first
    · rw [if_pos hlast]
      rintro e ⟨⟩
    rw [if_neg hlast]
    split
    · next high low _ _ =>
      by_cases hno : (!canIntersect low high) = true
      · rw [if_pos hno]
        rintro e ⟨⟩
      rw [if_neg hno]
      refine (h _).bind fun other => ?_
      cases other with
      | some other => rintro e ⟨⟩
      | none =>
        dsimp only
        split_ifs
        · rintro e ⟨⟩
        · exact scanLattice_infallible l h _ _
        · refine (ih _ _).bind fun pair => ?_
          cases pair with
          | some pair => rintro e ⟨⟩
          | none => exact ih _ _
    · rintro e ⟨⟩

theorem clampDimension_infallible (value : F) : (clampDimension value : Run ε ℕ).Infallible := by
  rw [clampDimension, Float64.clamp]
  split_ifs <;> rintro e ⟨⟩

omit [Float64 F] in
theorem tighten_infallible (combine : ℕ → ℕ → ℕ) (bound : ℕ) (aspect : Option F) {limit : F → Run ε ℕ}
    (h : ∀ a, (limit a).Infallible) : (tighten combine bound aspect limit).Infallible := by
  cases aspect with
  | none => rintro e ⟨⟩
  | some aspect => exact (h aspect).bind fun _ => Run.infallible_ok _

theorem findBestLatticePair_infallible : (findBestLatticePair c widths heights : Run ε _).Infallible := by
  rw [findBestLatticePair]
  split
  · rw [largestExactAspectPair]
    split_ifs <;> rintro e ⟨⟩
  · rw [findBestLatticePairWithStats]
    split_ifs
    · refine searchLattice_infallible _ (fun v => ?_) _ _ _
      exact (tighten_infallible _ _ _ fun _ => clampDimension_infallible _).bind fun _ =>
        (tighten_infallible _ _ _ fun _ => clampDimension_infallible _).bind fun _ => largestFrom_infallible _ _ _ _ _
    · refine (searchLattice_infallible _ (fun v => ?_) _ _ _).bind fun pair => Run.infallible_ok _
      exact (tighten_infallible _ _ _ fun _ => clampDimension_infallible _).bind fun _ =>
        (tighten_infallible _ _ _ fun _ => clampDimension_infallible _).bind fun _ => largestFrom_infallible _ _ _ _ _

theorem resolveClientRect_error (hv : c.validate = .ok ()) {tile : LayoutRect} {e : ClientRectError}
    (h : resolveClientRectWithinTile tile c = .error (.error e)) : e = .infeasible := by
  rw [resolveClientRectWithinTile, hv] at h
  cases hlat : tileLattices c tile with
  | none =>
    rw [hlat] at h
    cases h
    rfl
  | some pair =>
    simp only [hlat, Run.okOr_some, Run.ok_bind] at h
    cases hbest : (findBestLatticePair c pair.1 pair.2 : Run ClientRectError _) with
    | error fault =>
      rw [hbest] at h
      cases h
      exact absurd hbest (findBestLatticePair_infallible c _ _ _)
    | ok best =>
      rw [hbest, Run.ok_bind] at h
      cases best with
      | none =>
        cases h
        rfl
      | some size =>
        simp only [Run.okOr_some, Run.ok_bind, LayoutRect.new] at h
        split_ifs at h
        · cases h
        · cases h
          rfl

end Search

/-- In every tile within `bound` the search finds a client rectangle or answers that there is none. -/
def LayoutConstraints.Settles (c : LayoutConstraints F) (bound : Size) : Prop :=
  ∀ tile : LayoutRect, tile.size ≤ bound → (∃ client, resolveClientRectWithinTile tile c = .ok client) ∨
    resolveClientRectWithinTile tile c = .error (.error .infeasible)

def Settled (snapshots : Snapshots F) (bound : Size) : Prop :=
  ∀ w s, snapshots.lookup w = some s → s.minimized = false → s.constraints.Settles bound

/-- In exact arithmetic it does so unless it divides by zero in the whole of the bound. -/
theorem LayoutConstraints.settles_iff {c : LayoutConstraints ℚ} {root : LayoutRect} (hv : c.validate = .ok ())
    (hmin : c.MinimaPositive)
    (hsmall : (∀ axis, root.size axis < 4294967295) ∨ (c.minAspect = none ∧ c.maxAspect = none)) :
    c.Settles root.size ↔ ¬ (c.Degenerate ∧ c.OffersIn root.width.val root.height.val) := by
  constructor
  · rintro hsettles ⟨hdeg, hoffers⟩
    obtain ⟨-, hpanic⟩ | ⟨hno, -⟩ := resolveClientRect_zero (hdeg.not_aspectUsable hv) hv root
    · simpa [hpanic] using hsettles root le_rfl
    · exact hno hoffers
  · intro hno tile hle
    by_cases hdeg : c.Degenerate
    · refine .inr ((resolveClientRect_zero (hdeg.not_aspectUsable hv) hv tile).resolve_left fun hbad => ?_).2
      exact hno ⟨hdeg, hbad.1.mono (hle .horizontal) (hle .vertical)⟩
    · have hmax := hsmall.imp_left fun hb => And.intro ((hle .horizontal).trans_lt (hb _))
        ((hle .vertical).trans_lt (hb _))
      exact (resolveClientRect_finds hv hmin (aspectUsable_of_not_degenerate hdeg) hmax).imp And.right And.right

theorem leafFits_of_client {ctx : SolveContext F} {w : WindowId} {s : LayoutWindowSnapshot F} {tile : LayoutRect}
    (hs : ctx.snapshots.lookup w = some s) (h : s.minimized = false →
      (∃ client, resolveClientRectWithinTile tile s.constraints = .ok client) ∨
        resolveClientRectWithinTile tile s.constraints = .error (.error .infeasible)) :
    ∃ b, leafFits ctx w tile = .ok b := by
  rw [leafFits, hs, Run.okOr_some, Run.ok_bind]
  cases hm : s.minimized with
  | true => exact ⟨true, rfl⟩
  | false =>
    simp only [Bool.false_eq_true, if_false]
    split_ifs
    · split
      · exact ⟨_, rfl⟩
      · exact ⟨_, rfl⟩
    · obtain ⟨client, hc⟩ | hc := h hm
      · exact ⟨true, by rw [hc]; rfl⟩
      · exact ⟨false, by rw [hc]; rfl⟩

def Names (windows : List WindowId) (fault : Fault LayoutError) : Prop :=
  ∃ witness, fault = .error (.constraintInfeasible witness) ∧ witness.windows ≠ [] ∧
    ∀ w ∈ witness.windows, w ∈ windows

theorem Names.mono {windows windows' : List WindowId} (hsub : ∀ w ∈ windows, w ∈ windows') {fault : Fault LayoutError}
    (h : Names windows fault) : Names windows' fault := by
  obtain ⟨witness, heq, hne, hmem⟩ := h
  exact ⟨witness, heq, hne, fun w hw => hsub w (hmem w hw)⟩

/-! ### Lower bounds -/

theorem Topology.lowerBounds_outcome {snapshots : Snapshots F} {T : Topology F}
    (hcov : ∀ w ∈ T.windows, ∃ s, snapshots.lookup w = some s) :
    (∃ bounds, T.lowerBounds snapshots = .ok bounds) ∨ ∃ id w s, snapshots.lookup w = some s ∧ w ∈ T.active snapshots ∧
      s.constraints.independentLowerBounds.isOk = false ∧
      T.lowerBounds snapshots = .error (.error (leafInfeasible id w s.constraints)) := by
  induction T with
  | leaf id window =>
    obtain ⟨s, hs⟩ := hcov window (by simp [Topology.windows])
    rw [Topology.active_leaf hs, Topology.lowerBounds, hs, Run.okOr_some, Run.ok_bind]
    cases hm : s.minimized with
    | true => exact .inl ⟨none, rfl⟩
    | false =>
      cases hb : s.constraints.independentLowerBounds with
      | ok pair => exact .inl ⟨_, rfl⟩
      | error e => exact .inr ⟨id, window, s, hs, by simp, by rw [hb]; rfl, rfl⟩
  | split id axis ratio first second ih₁ ih₂ =>
    rw [Topology.lowerBounds, Topology.active_split]
    obtain ⟨b₁, hb₁⟩ | ⟨i, w, s, hs, hw, hno, heq⟩ := ih₁ fun w hw => hcov w (by simp [Topology.windows, hw])
    · obtain ⟨b₂, hb₂⟩ | ⟨i, w, s, hs, hw, hno, heq⟩ := ih₂ fun w hw => hcov w (by simp [Topology.windows, hw])
      · exact .inl ⟨_, by rw [hb₁, hb₂]; rfl⟩
      · exact .inr ⟨i, w, s, hs, List.mem_append_right _ hw, hno, by rw [hb₁, heq]; rfl⟩
    · exact .inr ⟨i, w, s, hs, List.mem_append_left _ hw, hno, by rw [heq]; rfl⟩

/-! ### Witnesses -/

theorem collectActiveWindows_eq {t : DwindleTree F} {snapshots : Snapshots F} {T : Topology F}
    {parent : Option DwindleNodeId} {depth : ℕ} (hden : Denotes t.nodes parent T) (hdepth : T.height ≤ depth)
    (hcov : ∀ w ∈ T.windows, ∃ s, snapshots.lookup w = some s) :
    collectActiveWindows t snapshots depth T.id = .ok (T.active snapshots) := by
  induction T generalizing parent depth with
  | leaf id window =>
    obtain ⟨depth, rfl⟩ := Topology.exists_depth hdepth
    obtain ⟨s, hs⟩ := hcov window (by simp [Topology.windows])
    rw [Topology.id_leaf, collectActiveWindows, hden.nodeKind_leaf, Topology.active_leaf hs]
    simp [hs]
  | split id axis ratio first second ih₁ ih₂ =>
    obtain ⟨depth, rfl, hsides⟩ := Topology.exists_depth_split hdepth
    rw [Topology.id_split, collectActiveWindows, hden.nodeKind_split, Topology.active_split]
    simp only [Run.okOr_some, Run.ok_bind]
    rw [ih₁ hden.2.1 hsides.1 fun w hw => hcov w (by simp [Topology.windows, hw]), Run.ok_bind,
      ih₂ hden.2.2 hsides.2 fun w hw => hcov w (by simp [Topology.windows, hw]), Run.ok_bind]

section Resolution
variable {input : ResolveInput F} {bound : Size}

variable {T : Topology F}

theorem Known.covered (hT : Known input T) {w : WindowId} (hw : w ∈ T.windows) :
    ∃ s, input.snapshots.lookup w = some s :=
  Topology.covered_of_lowerBounds hT.recorded.top hw

theorem Known.activeWindows (hT : Known input T) :
    activeWindows input.tree input.snapshots T.id = .ok (T.active input.snapshots) := by
  obtain ⟨parent, hden⟩ := hT.denotes
  rw [Layout.activeWindows, collectActiveWindows_eq hden hT.height fun w hw => hT.covered hw]
  rfl

theorem Known.infeasibleSplit (hT : Known input T) (hactive : T.active input.snapshots ≠ [])
    (axis : SplitAxis) (rect : LayoutRect) : ∃ e, infeasibleSplit input.toSolveContext T.id axis rect = .ok e ∧
      Names (T.active input.snapshots) (.error e) := by
  rw [Layout.infeasibleSplit, hT.activeWindows]
  exact ⟨_, rfl, _, rfl, hactive, fun w hw => hw⟩

theorem Settled.leafFits (h : Settled input.snapshots bound) {w : WindowId}
    (hcov : ∃ s, input.snapshots.lookup w = some s) {tile : LayoutRect} (hle : tile.size ≤ bound) :
    ∃ b, leafFits input.toSolveContext w tile = .ok b := by
  obtain ⟨s, hs⟩ := hcov
  exact leafFits_of_client hs fun hm => h w s hs hm tile hle

variable {rect : LayoutRect} [LawfulFloat64 F]

theorem Settled.canFit (h : Settled input.snapshots bound) (hT : Known input T) (hle : rect.size ≤ bound) :
    Query.Returns (canFit input.toSolveContext input.tree.depthBound T.id rect) fun _ => True := by
  obtain ⟨parent, hden⟩ := hT.denotes
  exact canFit_returns hden hT.height (fun w hw r hr => h.leafFits (hT.covered hw) hr) hle

theorem Settled.leastExtent (h : Settled input.snapshots bound) (hT : Known input T)
    (hle : rect.size ≤ bound) (axis : SplitAxis) :
    Query.Returns (leastExtent input.toSolveContext axis T.id (rect.cross axis).val (rect.extent axis).val)
      fun _ => True :=
  minimumExtent_returns (rect.extent_pos axis) (rect.extent axis).property fun _ hm hcap =>
    h.canFit hT ((rect.probe_le hm hcap).trans hle)

theorem requiredExtent_returns {query : RunS Feasibility LayoutError (Option ℕ)} {available : ℕ}
    (h : Query.Returns query fun _ => True) : Query.Returns (requiredExtent query available) fun _ => True := by
  intro s
  obtain ⟨a, s', hrun, -⟩ := h s
  cases a with
  | none => exact ⟨_, s', by simp only [requiredExtent, StateT.run, show query s = _ from hrun]; rfl, trivial⟩
  | some value => exact ⟨_, s', by simp only [requiredExtent, StateT.run, show query s = _ from hrun]; rfl, trivial⟩

theorem Settled.infeasible (h : Settled input.snapshots bound) (hT : Known input T)
    (hactive : T.active input.snapshots ≠ []) (hle : rect.size ≤ bound) :
    Query.Returns (infeasible input.toSolveContext T.id rect) fun e => Names (T.active input.snapshots) (.error e) := by
  refine (requiredExtent_returns (h.leastExtent hT hle .horizontal)).bind fun width _ => ?_
  refine (requiredExtent_returns (h.leastExtent hT hle .vertical)).bind fun height _ => ?_
  refine Query.Returns.bind (returns_lift ⟨_, hT.activeWindows, rfl⟩ : Query.Returns _ fun windows => windows = _) ?_
  rintro _ rfl
  exact returns_pure ⟨_, rfl, hactive, fun w hw => hw⟩

omit [LawfulFloat64 F] in
theorem onFeasibility_returns {α : Type} {query : RunS Feasibility LayoutError α} {post : α → Prop}
    (h : Query.Returns query post) : Query.Returns (onFeasibility query : RunS (SolveState F) LayoutError α) post := by
  intro s
  obtain ⟨a, f, hrun, ha⟩ := h s.feasibility
  exact ⟨a, { s with feasibility := f }, Run.bind_eq_ok.mpr ⟨(a, f), hrun, rfl⟩, ha⟩

/-! ### Resolution -/

omit [LawfulFloat64 F] in
theorem resolveLeaf_ends (h : Settled input.snapshots bound) {id : DwindleNodeId} {window : WindowId}
    (hT : Known input (.leaf id window)) (hle : rect.size ≤ bound) :
    Ends (fun _ => True) (resolveLeaf input id window rect) (fun _ => True)
      (Names ((Topology.leaf id window : Topology F).active input.snapshots)) := by
  obtain ⟨s, hs⟩ := hT.covered (w := window) (by simp [Topology.windows])
  rw [Topology.active_leaf hs]
  refine (ends_lift_ok ⟨s, by rw [hs, Run.okOr_some], rfl⟩ : Ends _ _ (fun found => s = found) _).bind ?_
  rintro _ rfl
  cases hm : s.minimized with
  | true => exact ends_pure trivial
  | false =>
    simp only [Bool.false_eq_true, if_false]
    obtain ⟨client, hc⟩ | hc := h window s hs hm rect hle
    · simp only [hc]
      exact (ends_modify fun _ _ => trivial).bind fun _ _ => ends_pure trivial
    · simp only [hc]
      exact ends_lift_error ⟨_, rfl, _, rfl, by simp, by simp⟩

theorem splitLimits_ends (h : Settled input.snapshots bound)
    (hminima : ∀ w s, input.snapshots.lookup w = some s → s.constraints.MinimaPositive) {id : DwindleNodeId}
    {axis : SplitAxis} {ratio : SplitRatio F} {first second : Topology F}
    {b₁ b₂ : SubtreeLowerBounds} (hT : Known input (.split id axis ratio first second))
    (hactive : (Topology.split id axis ratio first second).active input.snapshots ≠ [])
    (hb₁ : input.requirements.lookup first.id = some b₁) (hb₂ : input.requirements.lookup second.id = some b₂)
    (hedge : rect.EdgeFits axis) (hle : rect.size ≤ bound) :
    Ends (fun _ => True) (splitLimits input id axis first.id second.id b₁ b₂ rect) (Inside rect axis)
      (Names ((Topology.split id axis ratio first second).active input.snapshots)) := by
  rw [splitLimits]
  split_ifs with hexact
  · have hrange : Query.Returns (boundaryRange input.toSolveContext axis first.id second.id rect) fun r =>
        ∀ pair, r = some pair → rect.EdgeFits axis → Inside rect axis pair := by
      refine feasibleBoundaryRange_returns fun i hi => ?_
      rw [List.mem_pair] at hi
      obtain rfl | rfl := hi
      · exact h.leastExtent hT.first hle axis
      · exact h.leastExtent hT.second hle axis
    refine (onFeasibility_returns hrange).ends.bind fun r hr => ?_
    cases r with
    | some pair => exact ends_pure (hr pair rfl hedge)
    | none =>
      refine (onFeasibility_returns (h.infeasible hT hactive hle)).ends.bind fun e he => ?_
      exact ends_lift_error ⟨_, rfl, he⟩
  · refine ends_pure (boundaryLimits_inside hedge ?_ ?_)
    · exact Topology.one_le_bound hminima (by rw [hT.first.recorded.top, hb₁]) axis
    · exact Topology.one_le_bound hminima (by rw [hT.second.recorded.top, hb₂]) axis

theorem resolveSplit_ends (hT : Known input T) (hactive : T.active input.snapshots ≠ [])
    {axis : SplitAxis} {ratio : SplitRatio F} {limits : I32 × I32} (hedge : rect.EdgeFits axis)
    (hin : Inside rect axis limits) : Ends (fun _ => True) (resolveSplit input T.id axis ratio limits rect)
      (fun sides => SplitsInto axis ((input.overrides.lookup T.id).getD ratio) limits rect sides.1 sides.2)
      (Names (T.active input.snapshots)) := by
  intro s _
  obtain ⟨r₁, r₂, hs⟩ | hnone := hin.splits_or_none hedge ((input.overrides.lookup T.id).getD ratio)
  · obtain ⟨s', hrun, -⟩ := hs.resolveSplit s
    exact .inl ⟨(r₁, r₂), s', hrun, trivial, hs⟩
  · obtain ⟨e, he, hnames⟩ := hT.infeasibleSplit hactive axis rect
    refine .inr ⟨.error e, ?_, hnames⟩
    simp only [Layout.resolveSplit, Run.runS_lift_bind, hnone, Run.ok_bind, he]
    rfl

theorem resolveNode_ends (h : Settled input.snapshots bound)
    (hminima : ∀ w s, input.snapshots.lookup w = some s → s.constraints.MinimaPositive)
    {depth : ℕ} (hT : Known input T) (hdepth : T.height ≤ depth)
    (hedge : ∀ axis, rect.EdgeFits axis) (hle : rect.size ≤ bound) :
    Ends (fun _ => True) (resolveNode input depth T.id rect) (fun _ => True) (Names (T.active input.snapshots)) := by
  induction T generalizing depth rect with
  | leaf id window =>
    obtain ⟨parent, hden⟩ := hT.denotes
    obtain ⟨depth, rfl⟩ := Topology.exists_depth hdepth
    intro s hs
    rw [Topology.id_leaf, resolveNode_kind input depth hden.nodeKind_leaf]
    exact resolveLeaf_ends h hT hle s.visit hs
  | split id axis ratio first second ih₁ ih₂ =>
    obtain ⟨parent, hden⟩ := hT.denotes
    obtain ⟨depth, rfl, hsides⟩ := Topology.exists_depth_split hdepth
    have hsub₁ : ∀ fault, Names (first.active input.snapshots) fault →
        Names ((Topology.split id axis ratio first second).active input.snapshots) fault := fun _ hn =>
      hn.mono fun w hw => by simp [hw]
    have hsub₂ : ∀ fault, Names (second.active input.snapshots) fault →
        Names ((Topology.split id axis ratio first second).active input.snapshots) fault := fun _ hn =>
      hn.mono fun w hw => by simp [hw]
    intro s hs
    rw [Topology.id_split, resolveNode_kind input depth hden.nodeKind_split]
    rcases hb₁ : input.requirements.lookup first.id with - | b₁ <;>
      rcases hb₂ : input.requirements.lookup second.id with - | b₂
    · simp only [hb₁, hb₂]
      exact .inl ⟨false, s.visit, rfl, trivial, trivial⟩
    · simp only [hb₁, hb₂]
      exact (ih₂ hT.second hsides.2 hedge hle).mono_faults hsub₂ s.visit hs
    · simp only [hb₁, hb₂]
      exact (ih₁ hT.first hsides.1 hedge hle).mono_faults hsub₁ s.visit hs
    · have hactive : (Topology.split id axis ratio first second).active input.snapshots ≠ [] := by
        have hne := mt hT.first.lookup_eq_none.mpr (by simp [hb₁])
        simp [hne]
      simp only [hb₁, hb₂]
      refine Ends.bind (splitLimits_ends h hminima hT hactive hb₁ hb₂ (hedge axis) hle) (fun pair hin => ?_) s.visit hs
      refine Ends.bind (resolveSplit_ends hT hactive (hedge axis) hin) ?_
      rintro ⟨r₁, r₂⟩ hsplit
      obtain ⟨-, k, -, -, -, -, hlt, hh⟩ := hsplit.exists_halves (hedge axis)
      obtain ⟨hle₁, hle₂⟩ := hh.size_le hlt
      have hrun₁ := ih₁ hT.first hsides.1 (fun a => hh.edge₁ a (hedge a)) (hle₁.trans hle)
      have hrun₂ := ih₂ hT.second hsides.2 (fun a => hh.edge₂ a (hedge a)) (hle₂.trans hle)
      refine Ends.bind (hrun₁.mono_faults hsub₁) fun _ _ => ?_
      exact (hrun₂.mono_faults hsub₂).bind fun _ _ => ends_pure trivial

theorem resolveFitting_outcome (h : Settled input.snapshots bound)
    (hminima : ∀ w s, input.snapshots.lookup w = some s → s.constraints.MinimaPositive)
    (hT : Known input T) (hedge : ∀ axis, rect.EdgeFits axis) (hle : rect.size ≤ bound)
    (visits : ℕ) (f : Feasibility) : (∃ solution, resolveFitting input T.id rect visits (true, f) = .ok solution) ∨
      ∃ fault, resolveFitting input T.id rect visits (true, f) = .error fault ∧
        Names (T.active input.snapshots) fault := by
  obtain ⟨shown, state, hrun, -⟩ | ⟨e, he, hn⟩ :=
    resolveNode_ends h hminima hT hT.height hedge hle ⟨f, [], [], visits⟩ trivial
  · exact .inl ⟨_, resolveFitting_eq_ok.mpr ⟨rfl, shown, state, hrun, rfl⟩⟩
  · refine .inr ⟨e, ?_, hn⟩
    rw [resolveFitting, if_neg (by simp), he]
    rfl

end Resolution

/-! ### A whole solve -/

section Solve
variable {t : DwindleTree F} {T : Topology F} {root : LayoutRect} {snapshots : List (LayoutWindowSnapshot F)}
  {map : Snapshots F}

theorem solve_outcome [LawfulFloat64 F] (overrides : List (RatioOverride F)) (hT : t.Shape T)
    (hmap : snapshotMap snapshots = .ok map)
    (hcov : ∀ w ∈ T.windows, ∃ s, map.lookup w = some s) (hroot : root.Addressable)
    (hsettled : Settled map root.size) (hminima : ∀ w s, map.lookup w = some s → s.constraints.MinimaPositive) :
    (∃ solution, solveTreeWithRatioOverrides t root snapshots overrides = .ok solution) ∨
      ∃ fault, solveTreeWithRatioOverrides t root snapshots overrides = .error fault ∧
        Names (T.active map) fault := by
  obtain ⟨bounds, hb⟩ | ⟨id, w, s, hs, hw, -, heq⟩ := Topology.lowerBounds_outcome hcov
  · obtain ⟨s, hknown, hsolve⟩ := solve_bounds root overrides hT hmap hb
    rw [hsolve]
    cases bounds with
    | none => exact .inl ⟨_, rfl⟩
    | some b =>
      have hactive : T.active map ≠ [] := mt (Topology.lowerBounds_none_iff hb).mpr (by simp)
      rw [Option.isNone_some, if_neg Bool.false_ne_true, resolveRoot]
      have hresolve := resolveFitting_outcome hsettled hminima hknown hroot.edgeFits le_rfl s.nodeVisits
      split_ifs with hexact
      · obtain ⟨fits, f, hrun, -⟩ := hsettled.canFit hknown le_rfl Feasibility.new
        rw [hrun, Run.ok_bind]
        cases fits with
        | true => exact hresolve f
        | false =>
          obtain ⟨e, f', herr, hn⟩ := hsettled.infeasible hknown hactive le_rfl f
          refine .inr ⟨.error e, ?_, hn⟩
          rw [resolveFitting, if_pos (by simp), herr]
          rfl
      · exact hresolve Feasibility.new
  · refine .inr ⟨_, solve_error hT hmap heq, _, rfl, by simp, ?_⟩
    simpa using hw

/-- On a window alone, a solve breaks off where the search for its client rectangle does. -/
theorem solve_leaf_breaks {id : DwindleNodeId} {w : WindowId} {s : LayoutWindowSnapshot F}
    {fault : Fault ClientRectError}
    (hT : t.Shape (.leaf id w)) (hmap : snapshotMap snapshots = .ok map) (hs : map.lookup w = some s)
    (hm : s.minimized = false) (hv : s.constraints.validate = .ok ())
    (hc : resolveClientRectWithinTile root s.constraints = .error fault) (hbreak : ∀ e, fault ≠ .error e) :
    ∃ fault', solveTree t root snapshots = .error fault' ∧ ∀ e, fault' ≠ .error e := by
  have hbounds : ∃ bounds, (Topology.leaf id w : Topology F).lowerBounds map = .ok (some bounds) := by
    rw [Topology.lowerBounds, hs, Run.okOr_some, Run.ok_bind, if_neg (by simp [hm]),
      LayoutConstraints.independentLowerBounds, hv]
    rw [resolveClientRectWithinTile, hv] at hc
    cases hw : minimumDimension s.constraints.widthLattice with
    | none =>
      simp only [tileLattices, hw] at hc
      exact absurd (Except.error.inj hc).symm (hbreak _)
    | some width =>
      cases hh : minimumDimension s.constraints.heightLattice with
      | none =>
        simp only [tileLattices, hw, hh] at hc
        exact absurd (Except.error.inj hc).symm (hbreak _)
      | some height => exact ⟨_, rfl⟩
  obtain ⟨bounds, hb⟩ := hbounds
  obtain ⟨st, hknown, hsolve⟩ := solve_bounds root [] hT hmap hb
  obtain ⟨depth, hdepth⟩ := Topology.exists_depth hknown.height
  have hkind := hT.denotes.nodeKind_leaf
  rw [solveTree, hsolve, Option.isNone_some, if_neg Bool.false_ne_true, resolveRoot]
  obtain ⟨fault', hno, hdrop, hleaf⟩ : ∃ fault' : Fault LayoutError, (∀ e, fault' ≠ .error e) ∧
      (Run.dropError (.error fault : Run ClientRectError LayoutRect) : Run LayoutError _) = .error fault' ∧
      ∀ input : ResolveInput F, input.snapshots = map → ∀ state,
        (resolveLeaf input id w root).run state = .error fault' := by
    cases fault with
    | error e => exact absurd rfl (hbreak e)
    | panic message =>
      refine ⟨.panic message, by rintro e ⟨⟩, rfl, fun input hinput state => ?_⟩
      rw [resolveLeaf, hinput, hs, Run.okOr_some, Run.runS_lift_bind, Run.ok_bind]
      simp only [hm, Bool.false_eq_true, if_false, hc]
      rfl
    | diverge =>
      refine ⟨.diverge, by rintro e ⟨⟩, rfl, fun input hinput state => ?_⟩
      rw [resolveLeaf, hinput, hs, Run.okOr_some, Run.runS_lift_bind, Run.ok_bind]
      simp only [hm, Bool.false_eq_true, if_false, hc]
      rfl
  refine ⟨fault', ?_, hno⟩
  dsimp only at hdepth
  split_ifs with hexact
  · change needsExact map = true at hexact
    have hfit : leafFits ⟨t, map, needsExact map⟩ w root = .error fault' := by
      simp [leafFits, hs, hm, hexact, hc, hdrop]
    rw [hdepth, Topology.id_leaf, canFit_kind hkind, StateT.run_bind]
    simp only [hfit]
    rfl
  · rw [resolveFitting, if_neg (by simp), hdepth, Topology.id_leaf, resolveNode_kind _ _ hkind]
    dsimp only
    rw [hleaf _ rfl]
    rfl

end Solve

end Typhon.Layout
