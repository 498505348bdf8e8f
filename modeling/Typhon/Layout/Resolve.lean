import Typhon.Layout.Bounds

/-! The resolution of a tree as a relation between the tree, its rectangle and the tiles placed in
it. The relation leaves open how the limits of a boundary are found: the fast solver and the exact
one are two instances of it. -/

namespace Typhon.Layout
open Foundation

variable {F : Type} [Float64 F]

def SplitsInto (axis : SplitAxis) (preferred : SplitRatio F) (limits : I32 × I32)
    (rect r₁ r₂ : LayoutRect) : Prop :=
  ∃ (range : SplitRatioRange F) (effective : SplitRatio F) (boundary : I32),
    (SplitRatioRange.new
      (Float64.div (Float64.ofInt (limits.1.saturatingSub (rect.origin axis)).val)
        (Float64.ofNat (rect.extent axis).val))
      (Float64.div (Float64.ofInt (limits.2.saturatingSub (rect.origin axis)).val)
        (Float64.ofNat (rect.extent axis).val)) : Run LayoutError _) = .ok (some range) ∧
    (range.clamp preferred : Run LayoutError _) = .ok effective ∧
    ((rect.splitBoundary axis effective).clamp limits.1 limits.2 : Run LayoutError _) = .ok boundary ∧
    rect.firstChild axis boundary = some r₁ ∧ rect.secondChild axis boundary = some r₂

variable {rect r₁ r₂ : LayoutRect} {limits : I32 × I32} {axis : SplitAxis}

theorem SplitsInto.exists_boundary {preferred : SplitRatio F} (h : SplitsInto axis preferred limits rect r₁ r₂) :
    ∃ boundary : I32, limits.1.val ≤ boundary.val ∧ boundary.val ≤ limits.2.val ∧
      rect.firstChild axis boundary = some r₁ ∧ rect.secondChild axis boundary = some r₂ := by
  obtain ⟨range, effective, boundary, -, -, hclamp, h₁, h₂⟩ := h
  obtain ⟨hle, hval⟩ := I32.clamp_eq_ok.mp hclamp
  exact ⟨boundary, by omega, by omega, h₁, h₂⟩

theorem SplitsInto.unique {preferred : SplitRatio F}
    {rect r₁ r₂ r₁' r₂' : LayoutRect} (h : SplitsInto axis preferred limits rect r₁ r₂)
    (h' : SplitsInto axis preferred limits rect r₁' r₂') : r₁ = r₁' ∧ r₂ = r₂' := by
  obtain ⟨range, effective, boundary, hrange, heff, hb, h₁, h₂⟩ := h
  obtain ⟨range', effective', boundary', hrange', heff', hb', h₁', h₂'⟩ := h'
  obtain rfl := Option.some.inj (Except.ok.inj (hrange.symm.trans hrange'))
  obtain rfl := Except.ok.inj (heff.symm.trans heff')
  obtain rfl := Except.ok.inj (hb.symm.trans hb')
  exact ⟨Option.some.inj (h₁.symm.trans h₁'), Option.some.inj (h₂.symm.trans h₂')⟩

abbrev Limits (F : Type) [Float64 F] :=
  SplitAxis → Topology F → Topology F → LayoutRect → I32 × I32 → Prop

inductive Placed (snapshots : Snapshots F) (overrides : HashMap DwindleNodeId (SplitRatio F))
    (limits : Limits F) : Topology F → LayoutRect → List TiledWindowTarget → Prop
  | minimized {T : Topology F} {rect : LayoutRect} (h : T.active snapshots = []) :
      Placed snapshots overrides limits T rect []
  | leaf {id : DwindleNodeId} {window : WindowId} {rect client : LayoutRect}
      {snapshot : LayoutWindowSnapshot F} (hs : snapshots.lookup window = some snapshot)
      (hm : snapshot.minimized = false)
      (hc : resolveClientRectWithinTile rect snapshot.constraints = .ok client) :
      Placed snapshots overrides limits (.leaf id window) rect [⟨window, rect, client⟩]
  | first {id : DwindleNodeId} {axis : SplitAxis} {ratio : SplitRatio F} {first second : Topology F}
      {rect : LayoutRect} {targets : List TiledWindowTarget} (h₁ : first.active snapshots ≠ [])
      (h₂ : second.active snapshots = []) (h : Placed snapshots overrides limits first rect targets) :
      Placed snapshots overrides limits (.split id axis ratio first second) rect targets
  | second {id : DwindleNodeId} {axis : SplitAxis} {ratio : SplitRatio F} {first second : Topology F}
      {rect : LayoutRect} {targets : List TiledWindowTarget} (h₁ : first.active snapshots = [])
      (h₂ : second.active snapshots ≠ []) (h : Placed snapshots overrides limits second rect targets) :
      Placed snapshots overrides limits (.split id axis ratio first second) rect targets
  | both {id : DwindleNodeId} {axis : SplitAxis} {ratio : SplitRatio F} {first second : Topology F}
      {rect r₁ r₂ : LayoutRect} {pair : I32 × I32} {targets₁ targets₂ : List TiledWindowTarget}
      (h₁ : first.active snapshots ≠ []) (h₂ : second.active snapshots ≠ [])
      (hl : limits axis first second rect pair)
      (hs : SplitsInto axis ((overrides.lookup id).getD ratio) pair rect r₁ r₂)
      (hp₁ : Placed snapshots overrides limits first r₁ targets₁)
      (hp₂ : Placed snapshots overrides limits second r₂ targets₂) :
      Placed snapshots overrides limits (.split id axis ratio first second) rect (targets₁ ++ targets₂)

variable {targets : List TiledWindowTarget} {rect : LayoutRect} {overrides : HashMap DwindleNodeId (SplitRatio F)}
  {snapshots : Snapshots F}

theorem Placed.windows {limits : Limits F} {T : Topology F} (h : Placed snapshots overrides limits T rect targets) :
    targets.map TiledWindowTarget.window = T.active snapshots := by
  induction h with
  | minimized h => exact h.symm
  | leaf hs hm hc => rw [Topology.active_leaf hs, hm]; rfl
  | first h₁ h₂ h ih => rw [Topology.active_split, h₂, List.append_nil, ih]
  | second h₁ h₂ h ih => rw [Topology.active_split, h₁, List.nil_append, ih]
  | both h₁ h₂ hl hs hp₁ hp₂ ih₁ ih₂ => rw [Topology.active_split, List.map_append, ih₁, ih₂]

variable {ratio : SplitRatio F} {id : DwindleNodeId}

theorem placed_split_iff {limits : Limits F} {first second : Topology F} :
    Placed snapshots overrides limits (.split id axis ratio first second) rect targets ↔
      first.active snapshots = [] ∧ second.active snapshots = [] ∧ targets = [] ∨
      first.active snapshots ≠ [] ∧ second.active snapshots = [] ∧
        Placed snapshots overrides limits first rect targets ∨
      first.active snapshots = [] ∧ second.active snapshots ≠ [] ∧
        Placed snapshots overrides limits second rect targets ∨
      first.active snapshots ≠ [] ∧ second.active snapshots ≠ [] ∧ ∃ pair r₁ r₂ targets₁ targets₂,
        limits axis first second rect pair ∧ SplitsInto axis ((overrides.lookup id).getD ratio) pair rect r₁ r₂ ∧
        Placed snapshots overrides limits first r₁ targets₁ ∧
        Placed snapshots overrides limits second r₂ targets₂ ∧ targets = targets₁ ++ targets₂ := by
  constructor
  · intro h
    cases h with
    | minimized h =>
      rw [Topology.active_split, List.append_eq_nil_iff] at h
      exact .inl ⟨h.1, h.2, rfl⟩
    | first h₁ h₂ h => exact .inr (.inl ⟨h₁, h₂, h⟩)
    | second h₁ h₂ h => exact .inr (.inr (.inl ⟨h₁, h₂, h⟩))
    | both h₁ h₂ hl hs hp₁ hp₂ => exact .inr (.inr (.inr ⟨h₁, h₂, _, _, _, _, _, hl, hs, hp₁, hp₂, rfl⟩))
  · rintro (⟨h₁, h₂, rfl⟩ | ⟨h₁, h₂, h⟩ | ⟨h₁, h₂, h⟩ | ⟨h₁, h₂, pair, r₁, r₂, ts₁, ts₂, hl, hs, hp₁, hp₂, rfl⟩)
    · exact .minimized (by simp [h₁, h₂])
    · exact .first h₁ h₂ h
    · exact .second h₁ h₂ h
    · exact .both h₁ h₂ hl hs hp₁ hp₂

theorem Placed.sides {limits : Limits F} {first second : Topology F}
    (h₁ : first.active snapshots ≠ []) (h₂ : second.active snapshots ≠ [])
    (h : Placed snapshots overrides limits (.split id axis ratio first second) rect targets) :
    ∃ pair r₁ r₂ targets₁ targets₂, limits axis first second rect pair ∧
      SplitsInto axis ((overrides.lookup id).getD ratio) pair rect r₁ r₂ ∧
      Placed snapshots overrides limits first r₁ targets₁ ∧
      Placed snapshots overrides limits second r₂ targets₂ := by
  obtain h | h | h | ⟨-, -, pair, r₁, r₂, targets₁, targets₂, hl, hs, hp₁, hp₂, -⟩ := placed_split_iff.mp h
  · exact absurd h.1 h₁
  · exact absurd h.2.1 h₂
  · exact absurd h.1 h₁
  · exact ⟨pair, r₁, r₂, targets₁, targets₂, hl, hs, hp₁, hp₂⟩

/-! ### The code as a run of the relation -/

def SolveState.visit (s : SolveState F) : SolveState F :=
  { s with nodeVisits := addVisits s.nodeVisits 1 }

@[simp] theorem SolveState.visit_updates (s : SolveState F) : s.visit.updates = s.updates := rfl

theorem resolveNode_kind (input : ResolveInput F) (depth : ℕ)
    {kind : DwindleNodeKind F} (hk : input.tree.nodeKind id = some kind) (rect : LayoutRect)
    (s : SolveState F) : (resolveNode input (depth + 1) id rect).run s = StateT.run (match kind with
        | .leaf window => resolveLeaf input id window rect
        | .split axis ratio first second =>
          match input.requirements.lookup first, input.requirements.lookup second with
          | none, none => pure false
          | some _, none => resolveNode input depth first rect
          | none, some _ => resolveNode input depth second rect
          | some firstBounds, some secondBounds => do
            let limits ← splitLimits input id axis first second firstBounds secondBounds rect
            let (firstRect, secondRect) ← resolveSplit input id axis ratio limits rect
            let _ ← resolveNode input depth first firstRect let _ ← resolveNode input depth second secondRect
            pure true) s.visit := by
  rw [resolveNode, Run.runS_bind, Run.runS_modify, Run.ok_bind, Run.runS_bind, Run.runS_lift, hk]
  rfl

variable {s s' : SolveState F} {input : ResolveInput F}

theorem resolveLeaf_eq_ok {window : WindowId} {shown : Bool} :
    (resolveLeaf input id window rect).run s = .ok (shown, s') ↔
      ∃ snapshot, input.snapshots.lookup window = some snapshot ∧
        (snapshot.minimized = true ∧ shown = false ∧ s' = s ∨ snapshot.minimized = false ∧ shown = true ∧ ∃ client,
            resolveClientRectWithinTile rect snapshot.constraints = .ok client ∧
            s' = { s with updates := s.updates ++ [⟨window, rect, client⟩] }) := by
  rw [resolveLeaf, Run.runS_bind, Run.runS_lift]
  cases hs : input.snapshots.lookup window with
  | none => simp [Run.okOr, Run.fail]
  | some snapshot =>
    simp only [Run.okOr_some, Run.ok_bind, Option.some.injEq, exists_eq_left']
    cases hm : snapshot.minimized with
    | true =>
      simp only [if_true, Run.runS_pure, Except.ok.injEq, Prod.mk.injEq, true_and, Bool.true_eq_false,
        false_and, or_false]
      exact and_congr eq_comm eq_comm
    | false =>
      simp only [Bool.false_eq_true, if_false, false_and, true_and, false_or]
      rcases hc : resolveClientRectWithinTile rect snapshot.constraints with ((e | _) | message | _) | client
      · simp [Run.fail]
      · simp [Run.fail]
      · simp [Run.panic]
      · simp [Run.diverge]
      · simp only [Run.runS_bind, Run.runS_modify, Run.ok_bind, Run.runS_pure, Except.ok.injEq, Prod.mk.injEq,
          exists_eq_left']
        exact and_congr eq_comm eq_comm

theorem resolveSplit_eq_ok (h : (resolveSplit input id axis ratio limits rect).run s = .ok ((r₁, r₂), s')) :
    SplitsInto axis ((input.overrides.lookup id).getD ratio) limits rect r₁ r₂ ∧ ∃ effective range boundary,
      rect.firstChild axis boundary = some r₁ ∧ rect.secondChild axis boundary = some r₂ ∧
      s' = { s with splits := s.splits ++
        [⟨id, rect, (input.overrides.lookup id).getD ratio, effective, range, boundary⟩] } := by
  simp only [resolveSplit, Run.runS_lift_bind] at h
  obtain ⟨range, hrange, hrest⟩ := Run.bind_eq_ok.mp h
  cases range with
  | none => simp [Run.bind_eq_ok, Run.fail] at hrest
  | some range =>
    simp only [Run.runS_lift_bind, Run.runS_modify_bind, Run.runS_pure, Run.bind_eq_ok, Run.okOr_eq_ok] at hrest
    obtain ⟨effective, heff, boundary, hb, a, h₁, b, h₂, hend⟩ := hrest
    cases hend
    exact ⟨⟨range, effective, boundary, hrange, heff, hb, h₁, h₂⟩, effective, range, boundary, h₁, h₂, rfl⟩

theorem SplitsInto.resolveSplit
    (h : SplitsInto axis ((input.overrides.lookup id).getD ratio) limits rect r₁ r₂) (s : SolveState F) :
    ∃ s', (resolveSplit input id axis ratio limits rect).run s = .ok ((r₁, r₂), s') ∧
      s'.updates = s.updates ∧ s'.feasibility = s.feasibility := by
  obtain ⟨range, effective, boundary, hrange, heff, hb, h₁, h₂⟩ := h
  refine ⟨{ s with splits := s.splits ++
    [⟨id, rect, (input.overrides.lookup id).getD ratio, effective, range, boundary⟩] }, ?_, rfl, rfl⟩
  simp only [Layout.resolveSplit, Run.runS_lift_bind, hrange, Run.ok_bind, heff, hb, h₁, h₂, Run.okOr_some,
    Run.runS_modify_bind, Run.runS_pure]

theorem splitLimits_keeps {first second : DwindleNodeId} {b₁ b₂ : SubtreeLowerBounds} {pair : I32 × I32}
    (h : (splitLimits input id axis first second b₁ b₂ rect).run s = .ok (pair, s')) :
    s'.updates = s.updates ∧ s'.splits = s.splits := by
  unfold splitLimits at h
  split_ifs at h with hexact
  · rw [Run.runS_bind_eq_ok] at h
    obtain ⟨range, s₁, hrange, h⟩ := h
    obtain ⟨⟨a, f⟩, -, heq⟩ := Run.bind_eq_ok.mp hrange
    cases heq
    cases range with
    | none =>
      obtain ⟨e, s₂, -, h⟩ := Run.runS_bind_eq_ok.mp h
      simp [Run.fail] at h
    | some range =>
      cases h
      exact ⟨rfl, rfl⟩
  · cases h
    exact ⟨rfl, rfl⟩

structure Known (input : ResolveInput F) (T : Topology F) : Prop where
  denotes : ∃ parent, Denotes input.tree.nodes parent T
  recorded : T.Recorded input.snapshots input.requirements
  height : T.height ≤ input.tree.depthBound

namespace Known
variable {input : ResolveInput F} {id : DwindleNodeId} {axis : SplitAxis} {ratio : SplitRatio F}
  {S S' : Topology F}

theorem first (h : Known input (.split id axis ratio S S')) : Known input S := by
  obtain ⟨⟨parent, hden⟩, hrec, hheight⟩ := h
  exact ⟨⟨_, hden.2.1⟩, hrec.2.1, by simp only [Topology.height] at hheight; omega⟩

theorem second (h : Known input (.split id axis ratio S S')) : Known input S' := by
  obtain ⟨⟨parent, hden⟩, hrec, hheight⟩ := h
  exact ⟨⟨_, hden.2.2⟩, hrec.2.2, by simp only [Topology.height] at hheight; omega⟩

theorem lookup_eq_none {T : Topology F} (h : Known input T) :
    input.requirements.lookup T.id = none ↔ T.active input.snapshots = [] :=
  Topology.lowerBounds_none_iff h.recorded.top

end Known

structure HandedDown (ok : Topology F → LayoutRect → Prop) (limits : Limits F) : Prop where
  first : ∀ ⦃id axis ratio first second rect⦄, ok (.split id axis ratio first second) rect → ok first rect
  second : ∀ ⦃id axis ratio first second rect⦄, ok (.split id axis ratio first second) rect → ok second rect
  halves : ∀ ⦃id axis ratio first second rect pair r₁ r₂⦄ ⦃preferred : SplitRatio F⦄,
    ok (.split id axis ratio first second) rect → limits axis first second rect pair →
    SplitsInto axis preferred pair rect r₁ r₂ → ok first r₁ ∧ ok second r₂

theorem handedDown_true (limits : Limits F) : HandedDown (fun _ _ => True) limits :=
  ⟨fun _ _ _ _ _ _ _ => trivial, fun _ _ _ _ _ _ _ => trivial, fun _ _ _ _ _ _ _ _ _ _ _ _ _ => ⟨trivial, trivial⟩⟩

def LimitsSound (input : ResolveInput F) (inv : Feasibility → Prop) (ok : Topology F → LayoutRect → Prop)
    (limits : Limits F) : Prop :=
  ∀ ⦃id axis ratio first second b₁ b₂ rect s s' pair⦄, Known input (.split id axis ratio first second) →
    ok (.split id axis ratio first second) rect →
    input.requirements.lookup first.id = some b₁ → input.requirements.lookup second.id = some b₂ →
    inv s.feasibility →
    (splitLimits input id axis first.id second.id b₁ b₂ rect).run s = .ok (pair, s') →
    inv s'.feasibility ∧ limits axis first second rect pair

def LimitsComplete (input : ResolveInput F) (inv : Feasibility → Prop) (ok : Topology F → LayoutRect → Prop)
    (limits : Limits F) : Prop :=
  ∀ ⦃id axis ratio first second b₁ b₂ rect s pair⦄, Known input (.split id axis ratio first second) →
    ok (.split id axis ratio first second) rect →
    input.requirements.lookup first.id = some b₁ → input.requirements.lookup second.id = some b₂ →
    inv s.feasibility → limits axis first second rect pair →
    ∃ s', (splitLimits input id axis first.id second.id b₁ b₂ rect).run s = .ok (pair, s') ∧
      inv s'.feasibility

section Correct
variable {input : ResolveInput F} {inv : Feasibility → Prop} {ok : Topology F → LayoutRect → Prop}
  {limits : Limits F}

theorem resolveNode_sound (hdown : HandedDown ok limits) (hlim : LimitsSound input inv ok limits)
    {T : Topology F} {depth : ℕ} {rect : LayoutRect} {s s' : SolveState F} {shown : Bool} (hT : Known input T)
    (hok : ok T rect) (hinv : inv s.feasibility) (h : (resolveNode input depth T.id rect).run s = .ok (shown, s')) :
    inv s'.feasibility ∧ ∃ targets, s'.updates = s.updates ++ targets ∧
      Placed input.snapshots input.overrides limits T rect targets := by
  induction T generalizing depth rect s s' shown with
  | leaf id window =>
    obtain ⟨parent, hden⟩ := hT.denotes
    cases depth with
    | zero => simp [resolveNode, Run.diverge] at h
    | succ depth =>
      rw [Topology.id, resolveNode_kind input depth hden.nodeKind_leaf, resolveLeaf_eq_ok] at h
      obtain ⟨snapshot, hs, ⟨hm, -, rfl⟩ | ⟨hm, -, client, hc, rfl⟩⟩ := h
      · refine ⟨hinv, [], by simp, .minimized ?_⟩
        rw [Topology.active_leaf hs, if_pos hm]
      · exact ⟨hinv, _, rfl, .leaf hs hm hc⟩
  | split id axis ratio first second ih₁ ih₂ =>
    obtain ⟨parent, hden⟩ := hT.denotes
    cases depth with
    | zero => simp [resolveNode, Run.diverge] at h
    | succ depth =>
      have hactive₁ := hT.first.lookup_eq_none
      have hactive₂ := hT.second.lookup_eq_none
      rw [Topology.id, resolveNode_kind input depth hden.nodeKind_split] at h
      -- a side without requirements has no active window; the other gets the whole tile
      rcases hb₁ : input.requirements.lookup first.id with - | b₁ <;>
        rcases hb₂ : input.requirements.lookup second.id with - | b₂ <;>
        simp only [hb₁, hb₂, true_iff, reduceCtorEq, false_iff] at h hactive₁ hactive₂
      · cases h
        exact ⟨hinv, [], by simp, .minimized (by simp [hactive₁, hactive₂])⟩
      · obtain ⟨hinv', targets, hup, hp⟩ := ih₂ (s := s.visit) hT.second (hdown.second hok) hinv h
        exact ⟨hinv', targets, hup, .second hactive₁ hactive₂ hp⟩
      · obtain ⟨hinv', targets, hup, hp⟩ := ih₁ (s := s.visit) hT.first (hdown.first hok) hinv h
        exact ⟨hinv', targets, hup, .first hactive₁ hactive₂ hp⟩
      · obtain ⟨pair, s₁, hpair, h⟩ := Run.runS_bind_eq_ok.mp h
        obtain ⟨⟨r₁, r₂⟩, s₂, hsplit, h⟩ := Run.runS_bind_eq_ok.mp h
        obtain ⟨a, s₃, hrun₁, h⟩ := Run.runS_bind_eq_ok.mp h
        obtain ⟨b, s₄, hrun₂, h⟩ := Run.runS_bind_eq_ok.mp h
        cases h
        obtain ⟨hinv₁, hl⟩ := hlim hT hok hb₁ hb₂ (show inv s.visit.feasibility from hinv) hpair
        obtain ⟨hs, effective, range, boundary, -, -, rfl⟩ := resolveSplit_eq_ok hsplit
        obtain ⟨hok₁, hok₂⟩ := hdown.halves hok hl hs
        obtain ⟨hinv₃, targets₁, hup₃, hp₁⟩ := ih₁ hT.first hok₁ (by exact hinv₁) hrun₁
        obtain ⟨hinv₄, targets₂, hup₄, hp₂⟩ := ih₂ hT.second hok₂ hinv₃ hrun₂
        refine ⟨hinv₄, targets₁ ++ targets₂, ?_, .both hactive₁ hactive₂ hl hs hp₁ hp₂⟩
        rw [hup₄, hup₃, (splitLimits_keeps hpair).1, SolveState.visit_updates, List.append_assoc]

theorem resolveNode_complete (hdown : HandedDown ok limits) (hlim : LimitsComplete input inv ok limits)
    {T : Topology F} {depth : ℕ} {rect : LayoutRect} {s : SolveState F} {targets : List TiledWindowTarget}
    (hT : Known input T) (hok : ok T rect) (hdepth : T.height ≤ depth) (hinv : inv s.feasibility)
    (h : Placed input.snapshots input.overrides limits T rect targets) :
    ∃ shown s', (resolveNode input depth T.id rect).run s = .ok (shown, s') ∧
      inv s'.feasibility ∧ s'.updates = s.updates ++ targets := by
  induction T generalizing depth rect s targets with
  | leaf id window =>
    obtain ⟨parent, hden⟩ := hT.denotes
    obtain ⟨depth, rfl⟩ := Topology.exists_depth hdepth
    simp only [Topology.id_leaf, resolveNode_kind input depth hden.nodeKind_leaf, resolveLeaf_eq_ok]
    cases h with
    | minimized hnone =>
      obtain ⟨snapshot, hs, -⟩ := Run.bind_eq_ok.mp hT.recorded
      rw [Run.okOr_eq_ok] at hs
      rw [Topology.active_leaf hs] at hnone
      refine ⟨false, s.visit, ⟨snapshot, hs, .inl ⟨?_, rfl, rfl⟩⟩, hinv, by simp⟩
      by_contra hm
      simp [hm] at hnone
    | leaf hs hm hc => exact ⟨true, _, ⟨_, hs, .inr ⟨hm, rfl, _, hc, rfl⟩⟩, hinv, rfl⟩
  | split id axis ratio first second ih₁ ih₂ =>
    obtain ⟨parent, hden⟩ := hT.denotes
    obtain ⟨depth, rfl, hsides⟩ := Topology.exists_depth_split hdepth
    have hactive₁ := hT.first.lookup_eq_none
    have hactive₂ := hT.second.lookup_eq_none
    simp only [Topology.id_split, resolveNode_kind input depth hden.nodeKind_split]
    cases h with
    | minimized hnone =>
      rw [Topology.active_split, List.append_eq_nil_iff] at hnone
      simp only [hactive₁.mpr hnone.1, hactive₂.mpr hnone.2]
      exact ⟨false, s.visit, rfl, hinv, by simp⟩
    | first h₁ h₂ hp =>
      obtain ⟨b₁, hb₁⟩ := Option.ne_none_iff_exists'.mp (mt hactive₁.mp h₁)
      simp only [hb₁, hactive₂.mpr h₂]
      exact ih₁ (s := s.visit) hT.first (hdown.first hok) hsides.1 hinv hp
    | second h₁ h₂ hp =>
      obtain ⟨b₂, hb₂⟩ := Option.ne_none_iff_exists'.mp (mt hactive₂.mp h₂)
      simp only [hactive₁.mpr h₁, hb₂]
      exact ih₂ (s := s.visit) hT.second (hdown.second hok) hsides.2 hinv hp
    | both h₁ h₂ hl hs hp₁ hp₂ =>
      obtain ⟨b₁, hb₁⟩ := Option.ne_none_iff_exists'.mp (mt hactive₁.mp h₁)
      obtain ⟨b₂, hb₂⟩ := Option.ne_none_iff_exists'.mp (mt hactive₂.mp h₂)
      simp only [hb₁, hb₂]
      obtain ⟨hok₁, hok₂⟩ := hdown.halves hok hl hs
      obtain ⟨s₁, hpair, hinv₁⟩ := hlim hT hok hb₁ hb₂ (show inv s.visit.feasibility from hinv) hl
      obtain ⟨s₂, hsplit, hup₂, hfeas₂⟩ := hs.resolveSplit s₁
      obtain ⟨a, s₃, hrun₁, hinv₃, hup₃⟩ := ih₁ (s := s₂) hT.first hok₁ hsides.1 (hfeas₂ ▸ hinv₁) hp₁
      obtain ⟨b, s₄, hrun₂, hinv₄, hup₄⟩ := ih₂ hT.second hok₂ hsides.2 hinv₃ hp₂
      refine ⟨true, s₄, ?_, hinv₄, ?_⟩
      · rw [Run.runS_bind_ok hpair, Run.runS_bind_ok hsplit, Run.runS_bind_ok hrun₁, Run.runS_bind_ok hrun₂]
        rfl
      · rw [hup₄, hup₃, hup₂, (splitLimits_keeps hpair).1, SolveState.visit_updates, List.append_assoc]

end Correct

/-! ### A whole solve -/

def resolveFitting (input : ResolveInput F) (rootId : DwindleNodeId) (root : LayoutRect) (visits : ℕ)
    (fits : Bool × Feasibility) : Run LayoutError (TiledLayoutSolution F) :=
  if !fits.1 then do
    let error ← (infeasible input.toSolveContext rootId root).run fits.2
    Run.fail error.1
  else do
    let (_, state) ← (resolveNode input input.tree.depthBound rootId root).run ⟨fits.2, [], [], visits⟩
    .ok ⟨state.updates, state.splits, input.requirements,
      addVisits state.nodeVisits state.feasibility.nodeVisits⟩

def resolveRoot (input : ResolveInput F) (rootId : DwindleNodeId) (root : LayoutRect) (visits : ℕ) :
    Run LayoutError (TiledLayoutSolution F) :=
  if input.exact then
    (canFit input.toSolveContext input.tree.depthBound rootId root).run Feasibility.new >>=
      resolveFitting input rootId root visits
  else resolveFitting input rootId root visits (true, Feasibility.new)

theorem resolveFitting_eq_ok {rootId : DwindleNodeId} {root : LayoutRect}
    {visits : ℕ} {fits : Bool × Feasibility} {solution : TiledLayoutSolution F} :
    resolveFitting input rootId root visits fits = .ok solution ↔ fits.1 = true ∧ ∃ shown state,
      (resolveNode input input.tree.depthBound rootId root).run ⟨fits.2, [], [], visits⟩ = .ok (shown, state) ∧
      solution = ⟨state.updates, state.splits, input.requirements,
        addVisits state.nodeVisits state.feasibility.nodeVisits⟩ := by
  obtain ⟨fits, feasibility⟩ := fits
  cases fits with
  | false => simp [resolveFitting, Run.bind_eq_ok, Run.fail]
  | true =>
    rw [resolveFitting, if_neg (by simp), Run.bind_eq_ok]
    constructor
    · rintro ⟨⟨shown, state⟩, hrun, heq⟩
      cases heq
      exact ⟨rfl, shown, state, hrun, rfl⟩
    · rintro ⟨-, shown, state, hrun, rfl⟩
      exact ⟨(shown, state), hrun, rfl⟩

theorem resolveRoot_eq_ok {rootId : DwindleNodeId} {root : LayoutRect} {visits : ℕ}
    {solution : TiledLayoutSolution F} : resolveRoot input rootId root visits = .ok solution ↔
      ∃ feasibility, (input.exact = false ∧ feasibility = Feasibility.new ∨ input.exact = true ∧
          (canFit input.toSolveContext input.tree.depthBound rootId root).run Feasibility.new =
            .ok (true, feasibility)) ∧
        resolveFitting input rootId root visits (true, feasibility) = .ok solution := by
  unfold resolveRoot
  split_ifs with hexact
  · rw [Run.bind_eq_ok]
    constructor
    · rintro ⟨⟨fits, feasibility⟩, hfit, h⟩
      obtain rfl : fits = true := (resolveFitting_eq_ok.mp h).1
      exact ⟨feasibility, .inr ⟨hexact, hfit⟩, h⟩
    · rintro ⟨feasibility, ⟨hno, -⟩ | ⟨-, hfit⟩, h⟩
      · exact absurd hexact (by simp [hno])
      · exact ⟨_, hfit, h⟩
  · rw [Bool.not_eq_true] at hexact
    simp [hexact]

section Solve
variable {t : DwindleTree F} {T : Topology F} {root : LayoutRect} {snapshots : List (LayoutWindowSnapshot F)}
  {overrides : List (RatioOverride F)} {map : Snapshots F}

theorem DwindleTree.Shape.height_le_depthBound (hT : t.Shape T) :
    T.height ≤ t.depthBound := hT.height_le_slots.trans (Nat.le_succ _)

theorem solve_error (hT : t.Shape T) (hmap : snapshotMap snapshots = .ok map) {e : Fault LayoutError}
    (hb : T.lowerBounds map = .error e) : solveTreeWithRatioOverrides t root snapshots overrides = .error e := by
  have h := aggregateLowerBounds_spec map (s := ⟨∅, 0⟩) hT.denotes hT.ids_nodup
    hT.height_le_depthBound fun i _ => HashMap.lookup_empty i
  simp only [hb] at h
  simp [solveTreeWithRatioOverrides, hmap, hT.root, h]

theorem solve_bounds (root : LayoutRect) (overrides : List (RatioOverride F)) (hT : t.Shape T)
    (hmap : snapshotMap snapshots = .ok map) {bounds : Option SubtreeLowerBounds}
      (hb : T.lowerBounds map = .ok bounds) :
    ∃ s : BoundsState, Known ⟨⟨t, map, needsExact map⟩, s.requirements, overrideMap overrides⟩ T ∧
      solveTreeWithRatioOverrides t root snapshots overrides =
        if bounds.isNone then .ok ⟨[], [], s.requirements, s.nodeVisits⟩
        else resolveRoot ⟨⟨t, map, needsExact map⟩, s.requirements, overrideMap overrides⟩ T.id root
          s.nodeVisits := by
  have h := aggregateLowerBounds_spec map (s := ⟨∅, 0⟩) hT.denotes hT.ids_nodup
    hT.height_le_depthBound fun i _ => HashMap.lookup_empty i
  simp only [hb] at h
  obtain ⟨s, hrun, hrec, -⟩ := h
  refine ⟨s, ⟨⟨_, hT.denotes⟩, hrec, hT.height_le_depthBound⟩, ?_⟩
  rw [solveTreeWithRatioOverrides, hmap, Run.ok_bind, hT.root]
  simp only [hrun, Run.ok_bind]
  cases bounds with
  | none => rfl
  | some b => rfl

theorem solve_resolved {solution : TiledLayoutSolution F} (hT : t.Shape T)
    (h : solveTreeWithRatioOverrides t root snapshots overrides = .ok solution) :
    ∃ map, snapshotMap snapshots = .ok map ∧ (∃ bounds, T.lowerBounds map = .ok bounds) ∧
      (T.active map = [] ∧ solution.updates = [] ∧ solution.splits = [] ∨
        ∃ (input : ResolveInput F) (feasibility : Feasibility) (visits : ℕ) (shown : Bool) (state : SolveState F),
          input.snapshots = map ∧ input.overrides = overrideMap overrides ∧ Known input T ∧
          (resolveNode input input.tree.depthBound T.id root).run ⟨feasibility, [], [], visits⟩ = .ok (shown, state) ∧
          solution.updates = state.updates ∧ solution.splits = state.splits) := by
  obtain ⟨map, hmap, -⟩ := Run.bind_eq_ok.mp h
  refine ⟨map, hmap, ?_⟩
  cases hb : T.lowerBounds map with
  | error e => simp [solve_error hT hmap hb] at h
  | ok bounds =>
    refine ⟨⟨bounds, rfl⟩, ?_⟩
    obtain ⟨s, hknown, hsolve⟩ := solve_bounds root overrides hT hmap hb
    rw [hsolve] at h
    cases bounds with
    | none =>
      simp only [Option.isNone_none, if_true, Except.ok.injEq] at h
      subst h
      exact .inl ⟨(Topology.lowerBounds_none_iff hb).mp rfl, rfl, rfl⟩
    | some bounds =>
      simp only [Option.isNone_some, Bool.false_eq_true, if_false, resolveRoot_eq_ok, resolveFitting_eq_ok] at h
      obtain ⟨feasibility, -, -, shown, state, hrun, rfl⟩ := h
      exact .inr ⟨_, _, _, shown, state, rfl, rfl, hknown, hrun, rfl, rfl⟩

end Solve

end Typhon.Layout
