import Typhon.Layout.Resolve

/-! The solver without aspect constraints: the limits of every boundary are the lower bounds of the
two sides. -/

namespace Typhon.Layout
open Foundation

variable {F : Type} [Float64 F]

def fastLimits (snapshots : Snapshots F) : Limits F := fun axis first second rect pair =>
  ∃ b₁ b₂, first.lowerBounds snapshots = .ok (some b₁) ∧ second.lowerBounds snapshots = .ok (some b₂) ∧
    pair = boundaryLimits rect axis (boundFor b₁ axis) (boundFor b₂ axis)

section
variable {input : ResolveInput F} (hfast : input.exact = false)
include hfast

theorem fastLimits_sound : LimitsSound input (fun _ => True) (fun _ _ => True) (fastLimits input.snapshots) := by
  intro id axis ratio first second b₁ b₂ rect s s' pair hT _ hb₁ hb₂ _ h
  refine ⟨trivial, b₁, b₂, by rw [hT.first.recorded.top, hb₁], by rw [hT.second.recorded.top, hb₂], ?_⟩
  rw [splitLimits, if_neg (by simp [hfast])] at h
  cases h
  rfl

theorem fastLimits_complete : LimitsComplete input (fun _ => True) (fun _ _ => True) (fastLimits input.snapshots) := by
  rintro id axis ratio first second b₁ b₂ rect s pair hT - hb₁ hb₂ - ⟨c₁, c₂, hc₁, hc₂, rfl⟩
  rw [hT.first.recorded.top, hb₁, Except.ok.injEq, Option.some.injEq] at hc₁
  rw [hT.second.recorded.top, hb₂, Except.ok.injEq, Option.some.injEq] at hc₂
  subst hc₁ hc₂
  refine ⟨s, ?_, trivial⟩
  rw [splitLimits, if_neg (by simp [hfast])]
  rfl

end

section Solve
variable {t : DwindleTree F} {T : Topology F} {root : LayoutRect} {snapshots : List (LayoutWindowSnapshot F)}
  {overrides : List (RatioOverride F)} {map : Snapshots F} {targets : List TiledWindowTarget}

theorem solve_inactive (hT : t.Shape T) (hmap : snapshotMap snapshots = .ok map) (hactive : T.active map = []) :
    (∃ solution, solveTreeWithRatioOverrides t root snapshots overrides = .ok solution ∧
      solution.updates = targets) ↔ (∃ bounds, T.lowerBounds map = .ok bounds) ∧ targets = [] := by
  cases hb : T.lowerBounds map with
  | error e => simp [solve_error hT hmap hb]
  | ok bounds =>
    obtain ⟨s, -, hsolve⟩ := solve_bounds root overrides hT hmap hb
    obtain rfl := (Topology.lowerBounds_none_iff hb).mpr hactive
    rw [hsolve]
    simp [eq_comm]

theorem solve_fast_iff (hT : t.Shape T) (hmap : snapshotMap snapshots = .ok map) (hfast : needsExact map = false) :
    (∃ solution, solveTreeWithRatioOverrides t root snapshots overrides = .ok solution ∧
      solution.updates = targets) ↔ (∃ bounds, T.lowerBounds map = .ok bounds) ∧
        Placed map (overrideMap overrides) (fastLimits map) T root targets := by
  cases hb : T.lowerBounds map with
  | error e => simp [solve_error hT hmap hb]
  | ok bounds =>
    obtain ⟨s, hknown, hsolve⟩ := solve_bounds root overrides hT hmap hb
    rw [hfast] at hknown hsolve
    cases bounds with
    | none =>
      have hactive := (Topology.lowerBounds_none_iff hb).mp rfl
      rw [solve_inactive hT hmap hactive]
      simp only [hb, Except.ok.injEq, exists_eq', true_and]
      exact ⟨by rintro rfl; exact .minimized hactive, fun h => List.map_eq_nil_iff.mp (h.windows.trans hactive)⟩
    | some b =>
      simp only [hsolve, Option.isNone_some, Bool.false_eq_true, if_false, resolveRoot_eq_ok,
        Bool.false_eq_true, true_and, false_and, or_false, exists_eq_left, resolveFitting_eq_ok, Except.ok.injEq,
          exists_eq']
      constructor
      · rintro ⟨solution, ⟨shown, state, hrun, rfl⟩, rfl⟩
        obtain ⟨-, targets, hup, hp⟩ := resolveNode_sound (handedDown_true _) (fastLimits_sound rfl) hknown
          trivial trivial hrun
        rw [List.nil_append] at hup
        exact hup ▸ hp
      · intro hp
        obtain ⟨shown, state, hrun, -, hup⟩ := resolveNode_complete (s := ⟨Feasibility.new, [], [], _⟩)
          (handedDown_true _) (fastLimits_complete rfl) hknown trivial hknown.height trivial hp
        exact ⟨_, ⟨shown, state, hrun, rfl⟩, hup⟩

end Solve
end Typhon.Layout
