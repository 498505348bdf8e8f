import Typhon.Layout.ExactSolve
import Typhon.Layout.FastAgreement

/-! The exact solver against its own feasibility answer. Feasibility is decided on rounded boundaries, the
resolution of a split asks for a ratio between 5 % and 95 %. -/

namespace Typhon.Layout
open Foundation Query

/-- In every split that a placement can reach, each side fits in 95 % of the extent. -/
def Topology.ShareSafe (accepts : WindowId → Size → Prop) : Topology ℚ → Size → Prop
  | leaf _ _, _ => True
  | split _ axis _ first second, size =>
    (∃ m, 1 ≤ m ∧ 20 * m ≤ 19 * size axis ∧ first.FitsIn accepts (Function.update size axis m)) ∧
    (∃ m, 1 ≤ m ∧ 20 * m ≤ 19 * size axis ∧ second.FitsIn accepts (Function.update size axis m)) ∧
    ∀ k, safeLow (size axis) ≤ k → k ≤ safeHigh (size axis) →
      first.FitsIn accepts (Function.update size axis k) →
      second.FitsIn accepts (Function.update size axis (size axis - k)) →
      first.ShareSafe accepts (Function.update size axis k) ∧
        second.ShareSafe accepts (Function.update size axis (size axis - k))

theorem exact_bracket_iff {P₁ P₂ : ℕ → Prop} {e a b : ℕ} (h₁ : LeastUpTo P₁ e (some a)) (h₂ : LeastUpTo P₂ e (some b))
    (hle : max a (safeLow e) ≤ min (e - b) (safeHigh e)) :
    Bracket e (max a (safeLow e)) (min (e - b) (safeHigh e)) ↔
      (∃ m, 1 ≤ m ∧ 20 * m ≤ 19 * e ∧ P₁ m) ∧ ∃ m, 1 ≤ m ∧ 20 * m ≤ 19 * e ∧ P₂ m := by
  have hapos := h₁.1
  have hble := h₂.2.1
  constructor
  · rintro ⟨-, hlow, hhigh⟩
    refine ⟨⟨a, h₁.1, by omega, h₁.2.2.1⟩, b, h₂.1, by omega, h₂.2.2.1⟩
  · rintro ⟨⟨m, hm, hm', hP₁⟩, n, hn, hn', hP₂⟩
    have ha := h₁.le hm hP₁
    have hb := h₂.le hn hP₂
    unfold safeLow safeHigh lowShare highShare at *
    exact ⟨hle, by omega, by omega⟩

theorem exists_exactLimits {accepts : WindowId → Size → Prop} (haccepts : ∀ window, Monotone (accepts window))
    {axis : SplitAxis} {first second : Topology ℚ} {rect : LayoutRect} (hedge : rect.EdgeFits axis)
    (hsize : rect.size axis ≤ 2147483647) {k : ℕ} (hlow : safeLow (rect.size axis) ≤ k)
    (hhigh : k ≤ safeHigh (rect.size axis)) (h₁ : first.FitsIn accepts (Function.update rect.size axis k))
    (h₂ : second.FitsIn accepts (Function.update rect.size axis (rect.size axis - k))) :
    ∃ pair, exactLimits accepts axis first second rect pair := by
  have hk : 1 ≤ k ∧ k < rect.size axis := by unfold safeLow safeHigh at *; omega
  obtain ⟨a, ha⟩ : ∃ a, LeastUpTo (fun m => first.FitsIn accepts (Function.update rect.size axis m))
      (rect.size axis) (some a) := exists_leastUpTo hk.1 hk.2.le h₁
  obtain ⟨b, hb⟩ : ∃ b, LeastUpTo (fun m => second.FitsIn accepts (Function.update rect.size axis m))
      (rect.size axis) (some b) := exists_leastUpTo (Nat.sub_pos_of_lt hk.2) (Nat.sub_le _ _) h₂
  obtain ⟨hk₁, hk₂⟩ := (Topology.fits_offset_iff haccepts ha hb).mp ⟨hlow, hhigh, h₁, h₂⟩
  have hfar : (rect.origin axis).val + rect.size axis ≤ 2147483647 := hedge
  have := (rect.origin axis).property
  exact ⟨(⟨(rect.origin axis).val + (max a (safeLow (rect.size axis)) : ℕ), by omega⟩,
    ⟨(rect.origin axis).val + (min (rect.size axis - b) (safeHigh (rect.size axis)) : ℕ), by omega⟩),
    a, b, ha, hb, hk₁.trans hk₂, rfl, rfl, by omega, by omega⟩

section Placement
variable {snapshots : Snapshots ℚ} {bound : Size} {overrides : HashMap DwindleNodeId (SplitRatio ℚ)}
  (hactive : ∀ w s, snapshots.lookup w = some s → s.minimized = false) (htract : Tractable snapshots bound)
include hactive htract

theorem Topology.ShareSafe.placed {T : Topology ℚ} {rect : LayoutRect} (hok : Surveyed bound T rect)
    (hfits : T.FitsIn (Accepts snapshots) rect.size) (h : T.ShareSafe (Accepts snapshots) rect.size) :
    ∃ targets, Placed snapshots overrides (exactLimits (Accepts snapshots)) T rect targets := by
  induction T generalizing rect with
  | leaf id window => exact placed_leaf htract hactive hok.size_le hfits
  | split id axis ratio first second ih₁ ih₂ =>
    obtain ⟨k, hlow, hhigh, hfit₁, hfit₂⟩ := hfits
    obtain ⟨hshare₁, hshare₂, hbelow⟩ := h
    obtain ⟨hedge, hsize⟩ := hok.edge axis (.inl rfl)
    obtain ⟨pair, hl⟩ := exists_exactLimits (accepts_mono snapshots) hedge hsize hlow hhigh hfit₁ hfit₂
    have hlimits := hl
    obtain ⟨a, b, ha, hb, hle, hoff⟩ := hlimits
    have hbr := (exact_bracket_iff ha hb hle).mpr ⟨hshare₁, hshare₂⟩
    have hroom : rect.room axis = rect.size axis := min_eq_left hsize
    have hpos : 1 ≤ max a (safeLow (rect.size axis)) := (le_max_right _ _).trans (le_max_right _ _)
    have hlt : min (rect.size axis - b) (safeHigh (rect.size axis)) < rect.room axis := by
      have := rect.size_pos axis
      unfold safeHigh
      omega
    obtain ⟨r₁, r₂, hs⟩ := exists_splitsInto hedge hoff hbr hpos hlt ((overrides.lookup id).getD ratio)
    obtain ⟨-, -, -, hh⟩ := hs.halves hedge hoff
    obtain ⟨hmem₁, hmem₂, -⟩ := splitOffset_mem (rect.size_pos axis) hbr ((overrides.lookup id).getD ratio).value
    obtain ⟨hk₁, hk₂, hsub₁, hsub₂⟩ := (Topology.fits_offset_iff (accepts_mono snapshots) ha hb).mpr
      ⟨(le_max_left _ _).trans hmem₁, hmem₂.trans (min_le_left _ _)⟩
    obtain ⟨hsafe₁, hsafe₂⟩ := hbelow _ hk₁ hk₂ hsub₁ hsub₂
    have hsecond := hh.second
    rw [hroom] at hsecond
    rw [← hh.first] at hsub₁ hsafe₁
    rw [← hsecond] at hsub₂ hsafe₂
    obtain ⟨targets₁, hp₁⟩ := ih₁ (hok.halves hs).1 hsub₁ hsafe₁
    obtain ⟨targets₂, hp₂⟩ := ih₂ (hok.halves hs).2 hsub₂ hsafe₂
    obtain ⟨b₁, hb₁⟩ := hsub₁.lowerBounds htract.valid
    obtain ⟨b₂, hb₂⟩ := hsub₂.lowerBounds htract.valid
    exact ⟨_, .both (Topology.active_ne_nil hactive hb₁) (Topology.active_ne_nil hactive hb₂) hl hs hp₁ hp₂⟩

theorem Topology.shareSafe_of_placed {T : Topology ℚ} {rect : LayoutRect} (hnd : T.ids.Nodup)
    (hok : Surveyed bound T rect) (hfits : T.FitsIn (Accepts snapshots) rect.size) (h : ∀ ratios, ∃ targets,
      Placed snapshots ∅ (exactLimits (Accepts snapshots)) (T.withRatios ratios) rect targets) :
    T.ShareSafe (Accepts snapshots) rect.size := by
  induction T generalizing rect with
  | leaf id window => trivial
  | split id axis ratio first second ih₁ ih₂ =>
    obtain ⟨k, hlow, hhigh, hfit₁, hfit₂⟩ := hfits
    obtain ⟨hedge, hsize⟩ := hok.edge axis (.inl rfl)
    obtain ⟨pair, hl⟩ := exists_exactLimits (accepts_mono snapshots) hedge hsize hlow hhigh hfit₁ hfit₂
    have hlim : ∀ ratios p, exactLimits (Accepts snapshots) axis (first.withRatios ratios)
        (second.withRatios ratios) rect p → p = pair := fun ratios p hp => by
      simp only [exactLimits, Topology.fitsIn_withRatios] at hp
      exact exactLimits_unique hp hl
    obtain ⟨b₁, hb₁⟩ := hfit₁.lowerBounds htract.valid
    obtain ⟨b₂, hb₂⟩ := hfit₂.lowerBounds htract.valid
    have key := Placed.choose_ratio hnd (Topology.active_ne_nil hactive hb₁) (Topology.active_ne_nil hactive hb₂)
      hlim h
    have hnd' := hnd
    simp only [Topology.ids, List.nodup_cons, List.nodup_append] at hnd'
    obtain ⟨a, b, ha, hb, hle, hoff⟩ := hl
    obtain ⟨_, _, hs, -⟩ := key SplitRatio.default
    obtain ⟨hbr, -⟩ := hs.halves hedge hoff
    obtain ⟨hshare₁, hshare₂⟩ := (exact_bracket_iff ha hb hle).mp hbr
    refine ⟨hshare₁, hshare₂, fun k hk₁ hk₂ hsub₁ hsub₂ => ?_⟩
    obtain ⟨hmem₁, hmem₂⟩ := (Topology.fits_offset_iff (accepts_mono snapshots) ha hb).mp ⟨hk₁, hk₂, hsub₁, hsub₂⟩
    obtain ⟨preferred, hoffset⟩ := exists_splitOffset (rect.size_pos axis) hbr
      (max_le hmem₁ ((le_max_left _ _).trans hk₁)) (le_min hmem₂ (hk₂.trans (min_le_left _ _)))
    obtain ⟨r₁, r₂, hs, hall⟩ := key preferred
    obtain ⟨-, -, -, hh⟩ := hs.halves hedge hoff
    have hfirst := hh.first
    have hsecond := hh.second
    rw [hoffset] at hfirst
    rw [hoffset, show rect.room axis = rect.size axis from min_eq_left hsize] at hsecond
    rw [← hfirst] at hsub₁ ⊢
    rw [← hsecond] at hsub₂ ⊢
    exact ⟨ih₁ hnd'.2.1 (hok.halves hs).1 hsub₁ fun ratios => (hall ratios).1,
      ih₂ hnd'.2.2.1 (hok.halves hs).2 hsub₂ fun ratios => (hall ratios).2⟩

end Placement

/-! ### Consistency -/

@[simp] theorem Topology.shareSafe_withRatios (ratios : DwindleNodeId → SplitRatio ℚ)
    (accepts : WindowId → Size → Prop) (T : Topology ℚ) (size : Size) :
    (T.withRatios ratios).ShareSafe accepts size ↔ T.ShareSafe accepts size := by
  induction T generalizing size with
  | leaf => rfl
  | split id a ratio first second ih₁ ih₂ =>
    simp only [Topology.withRatios, Topology.ShareSafe, Topology.fitsIn_withRatios, ih₁, ih₂]

def ExactConsistent (t : DwindleTree ℚ) (rootId : DwindleNodeId) (root : LayoutRect)
    (snapshots : List (LayoutWindowSnapshot ℚ)) : Prop :=
  subtreeFits t rootId root snapshots = .ok true →
    ∀ overrides, ∃ solution, solveTreeWithRatioOverrides t root snapshots overrides = .ok solution

section Consistency
variable {t : DwindleTree ℚ} {root : LayoutRect} {snapshots : List (LayoutWindowSnapshot ℚ)} {map : Snapshots ℚ}

theorem exactConsistent_iff {T : Topology ℚ} (hT : t.Shape T) (hok : Surveyed root.size T root)
    (hmap : snapshotMap snapshots = .ok map) (hexact : needsExact map = true)
    (hactive : ∀ w s, map.lookup w = some s → s.minimized = false) (htract : Tractable map root.size) :
    ExactConsistent t T.id root snapshots ↔ (T.FitsIn (Accepts map) root.size → ∀ overrides, ∃ targets,
      Placed map (overrideMap overrides) (exactLimits (Accepts map)) T root targets) := by
  rw [ExactConsistent, subtreeFits_iff hT hmap htract.decides hok]
  refine forall_congr' fun hfits => forall_congr' fun overrides => ?_
  obtain ⟨bounds, hb⟩ := hfits.lowerBounds htract.valid
  rw [solve_exact_iff hT hmap hexact htract hok (Topology.active_ne_nil hactive hb) hb, and_iff_right hfits]

/-- Without minimized windows but with some aspect bound, in a root that is at most `i32::MAX` long along
every axis it is split, the solver keeps what `can_fit` says for every choice of stored ratios exactly when
in every split that can be reached each side fits in 95 % of the extent. -/
theorem solve_exact_consistent_iff {rootId : DwindleNodeId} (ht : t.WellFormed) (hroot : t.root = some rootId)
    (hright : root.x.val + root.width.val ≤ 2147483647) (hbottom : root.y.val + root.height.val ≤ 2147483647)
    (hmap : snapshotMap snapshots = .ok map) (hactive : ∀ s ∈ snapshots, s.minimized = false)
    (haspect : ∃ s ∈ snapshots, s.constraints.minAspect ≠ none ∨ s.constraints.maxAspect ≠ none)
    (hminima : ∀ s ∈ snapshots, s.constraints.MinimaPositive) :
    ∃ T, t.Shape T ∧ ((∀ axis, root.size axis < 4294967295) →
      (∀ axis, T.SplitsAlong axis → root.size axis ≤ 2147483647) → ((ExactConsistent t rootId root snapshots ∧
          ∀ ratios, ExactConsistent (t.withRatios ratios) rootId root snapshots) ↔
        (T.FitsIn (Accepts map) root.size → T.ShareSafe (Accepts map) root.size))) := by
  obtain hempty | ⟨T, hT⟩ := DwindleTree.wellFormed_iff.mp ht
  · rw [hempty.root] at hroot
    simp at hroot
  refine ⟨T, hT, fun hsmall hsize => ?_⟩
  obtain rfl : T.id = rootId := Option.some.inj (hT.root.symm.trans hroot)
  obtain ⟨hactive', htract⟩ := tractable_of_snapshots hmap hactive hminima (.inl hsmall)
  have hexact : needsExact map = true := by
    obtain ⟨s, hs, hany⟩ := haspect
    rw [needsExact, HashMap.anyValue_eq_true]
    refine ⟨s.window, s, (snapshotMap_lookup hmap).mpr ⟨hs, rfl⟩, ?_⟩
    simpa [hactive s hs, Option.isSome_iff_ne_none] using hany
  have haddr : root.Addressable := ⟨hright, hbottom⟩
  have hok := surveyed_withRatios haddr hsize
  have hiff : ∀ ratios, ExactConsistent (t.withRatios ratios) T.id root snapshots ↔
      (T.FitsIn (Accepts map) root.size → ∀ overrides, ∃ targets,
        Placed map (overrideMap overrides) (exactLimits (Accepts map)) (T.withRatios ratios) root targets) :=
    fun ratios => by
      have h := exactConsistent_iff (hT.withRatios ratios) (hok ratios) hmap hexact hactive' htract
      rwa [Topology.withRatios_id, Topology.fitsIn_withRatios] at h
  have hself : ExactConsistent t T.id root snapshots ↔
      ExactConsistent (t.withRatios t.storedRatio) T.id root snapshots := by
    rw [t.withRatios_storedRatio]
  rw [hself, and_iff_right_of_imp fun h => h t.storedRatio]
  simp only [hiff]
  constructor
  · intro h hfits
    exact Topology.shareSafe_of_placed hactive' htract hT.ids_nodup
      ⟨le_rfl, fun axis ha => ⟨haddr.edgeFits axis, hsize axis ha⟩⟩ hfits fun ratios => h ratios hfits []
  · intro h ratios hfits overrides
    refine Topology.ShareSafe.placed hactive' htract (hok ratios) ?_ ?_
    · exact (Topology.fitsIn_withRatios ratios _ T root.size).mpr hfits
    · exact (Topology.shareSafe_withRatios ratios _ T root.size).mpr (h hfits)

end Consistency

def aspectWindow : LayoutWindowSnapshot ℚ :=
  ⟨⟨1⟩, false, { LayoutConstraints.unconstrained with minAspect := some (1 / 1000) }⟩

theorem solve_exact_consistent_broad : ∃ T map, twoWindows.Shape T ∧
    snapshotMap [aspectWindow, broadWindow] = .ok map ∧
    T.FitsIn (Accepts map) (rectOf 0 0 29 10).size ∧ ¬ T.ShareSafe (Accepts map) (rectOf 0 0 29 10).size := by
  obtain ⟨map, hmap⟩ : ∃ map, snapshotMap [aspectWindow, broadWindow] = .ok map :=
    Run.isOk_iff.mp (by decide +kernel)
  have hroot : twoWindows.root = some ⟨2, 1⟩ := by decide +kernel
  obtain ⟨T, hT, h⟩ := solve_exact_consistent_iff (DwindleTree.ofRun_wellFormed _) hroot
    (show (rectOf 0 0 29 10).x.val + _ ≤ _ by decide) (show (rectOf 0 0 29 10).y.val + _ ≤ _ by decide) hmap
    (by simp [aspectWindow, broadWindow]) ⟨aspectWindow, by simp, .inl (by simp [aspectWindow])⟩ (by
      intro s hs
      rw [List.mem_pair] at hs
      obtain rfl | rfl := hs <;> constructor <;>
        simp [aspectWindow, broadWindow, LayoutConstraints.unconstrained])
  have hfails : ¬ ExactConsistent twoWindows ⟨2, 1⟩ (rectOf 0 0 29 10) [aspectWindow, broadWindow] := by
    intro hcon
    have hsolved := hcon (by decide +kernel) []
    rw [← Run.isOk_iff] at hsolved
    exact absurd hsolved (by decide +kernel)
  have hcond := mt (h (fun axis => by cases axis <;> decide) fun axis _ => by cases axis <;> decide).mpr
    fun hall => hfails hall.1
  push Not at hcond
  exact ⟨T, map, hT, hmap, hcond⟩

/-- In a root 29 wide, 28 pixels for window 2 are what 95 % round to, but more than 95 %: `can_fit` holds
and no ratio is left for the split. -/
theorem exact_solver_rejects_fitting_tree : ∃ rootId, twoWindows.WellFormed ∧ twoWindows.root = some rootId ∧
    (∃ map, snapshotMap [aspectWindow, broadWindow] = .ok map) ∧
    subtreeFits twoWindows rootId (rectOf 0 0 29 10) [aspectWindow, broadWindow] = .ok true ∧
    ¬ ∃ solution, solveTreeWithRatioOverrides twoWindows (rectOf 0 0 29 10) [aspectWindow, broadWindow] [] =
      .ok solution := by
  refine ⟨⟨2, 1⟩, DwindleTree.ofRun_wellFormed _, by decide +kernel, Run.isOk_iff.mp (by decide +kernel), ?_, ?_⟩
  · decide +kernel
  · rw [← Run.isOk_iff, Bool.not_eq_true]
    decide +kernel

end Typhon.Layout
