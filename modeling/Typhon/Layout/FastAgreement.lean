import Typhon.Layout.FastSolve
import Typhon.Layout.SubtreeFits

/-! The fast solver against exact feasibility. The fast solver chooses every boundary from the lower
bounds of the two sides, which do not know the 5 % and 95 % limits of the splits inside them. -/

namespace Typhon.Layout
open Foundation Query LegalDimensionLattice

/-! ### Trees without minimized windows -/

section Bounds
variable {F : Type} [Float64 F] {snapshots : Snapshots F}

theorem one_le_lowerBounds {c : LayoutConstraints F} (hpos : c.MinimaPositive) {w h : ℕ}
    (hb : c.independentLowerBounds = .ok (w, h)) : 1 ≤ w ∧ 1 ≤ h := by
  unfold LayoutConstraints.independentLowerBounds at hb
  split at hb
  · simp at hb
  split at hb
  · rename_i width height hw hh
    obtain ⟨rfl, rfl⟩ : width = w ∧ height = h := by simpa using hb
    simp only [minimumDimension, Option.bind_eq_bind, Option.bind_eq_some_iff] at hw hh
    obtain ⟨lw, hlw, hw⟩ := hw
    obtain ⟨lh, hlh, hh⟩ := hh
    exact ⟨(one_le_lower hlw hpos.width).trans (LegalDimensionLattice.alignUp_eq_some hw).2.1,
      (one_le_lower hlh hpos.height).trans (LegalDimensionLattice.alignUp_eq_some hh).2.1⟩
  · simp at hb

theorem Topology.one_le_bound {T : Topology F} {b : SubtreeLowerBounds}
    (hpos : ∀ w s, snapshots.lookup w = some s → s.constraints.MinimaPositive)
    (h : T.lowerBounds snapshots = .ok (some b)) (axis : SplitAxis) : 1 ≤ boundFor b axis := by
  induction T generalizing b axis with
  | leaf id window =>
    obtain ⟨s, hs, hrest⟩ := Run.bind_eq_ok.mp h
    rw [Run.okOr_eq_ok] at hs
    split_ifs at hrest
    · simp at hrest
    cases hb : s.constraints.independentLowerBounds with
    | error e => simp [hb, Run.fail] at hrest
    | ok pair =>
      obtain ⟨w, v⟩ := pair
      obtain ⟨hw, hv⟩ := one_le_lowerBounds (hpos _ _ hs) hb
      simp only [hb, Except.ok.injEq, Option.some.injEq] at hrest
      subst hrest
      cases axis
      · exact hw
      · exact hv
  | split id a ratio first second ih₁ ih₂ =>
    obtain ⟨b₁, hb₁, hrest⟩ := Run.bind_eq_ok.mp h
    obtain ⟨b₂, hb₂, hrest⟩ := Run.bind_eq_ok.mp hrest
    rw [Except.ok.injEq] at hrest
    rcases b₁ with - | b₁ <;> rcases b₂ with - | b₂
    · simp [combineBounds] at hrest
    · simp only [combineBounds, Option.some.injEq] at hrest
      exact hrest ▸ ih₂ hb₂ axis
    · simp only [combineBounds, Option.some.injEq] at hrest
      exact hrest ▸ ih₁ hb₁ axis
    · have h₁ := ih₁ hb₁ axis
      have h₂ := ih₂ hb₂ axis
      cases a <;> cases axis <;> simp only [combineBounds, Option.some.injEq] at hrest <;>
        subst hrest <;> simp only [boundFor] at h₁ h₂ ⊢ <;> omega

end Bounds

/-! ### Windows without aspect bounds -/

section Free
variable {F : Type} [Float64 F] {c : LayoutConstraints F} {widths heights : LegalDimensionLattice}
  (hmin : c.minAspect = none) (hmax : c.maxAspect = none)
include hmin hmax

omit [Float64 F] hmin hmax in
theorem largestFrom_free {ε : Type} {l : LegalDimensionLattice} {legal : ℕ → Bool} (goUp : ℕ → Bool)
    (hlegal : ∀ v, legal v = true) {v : ℕ} (hv : l.contains v = true) :
    ∃ v', (largestFrom l l.lower l.upper legal goUp : Run ε _) = .ok (some v') ∧ v ≤ v' := by
  obtain ⟨-, hle, -⟩ := contains_iff.mp hv
  cases hdown : l.alignDown l.upper with
  | none => exact absurd (alignDown_eq_none hdown hv) (by omega)
  | some v' =>
    obtain ⟨hmem, -, hgreatest⟩ := alignDown_eq_some hdown
    refine ⟨v', ?_, hgreatest v hv hle⟩
    rw [largestFrom, hdown]
    change candidateLoop l l.lower l.upper legal goUp (4294967296 + 1) v' = _
    rw [candidateLoop, if_neg (not_lt.mpr (contains_iff.mp hmem).1), if_pos (hlegal v')]

theorem findBestLatticePair_free {ε : Type} {w h : ℕ} (hw : widths.contains w = true) (hh : heights.contains h = true) :
    ∃ w' h', (findBestLatticePair c widths heights : Run ε _) = .ok (some (w', h')) ∧ w ≤ w' ∧ h ≤ h' := by
  have hexact : c.exactAspect = none := by rw [LayoutConstraints.exactAspect, hmin]
  have hlegal : ∀ a b, aspectIsLegal c a b = true := fun a b => by simp [aspectIsLegal, hmin, hmax]
  rw [findBestLatticePair, hexact]
  simp only [findBestLatticePairWithStats]
  split_ifs
  · obtain ⟨-, low, high, hlow, hhigh, -, -, hends⟩ := exists_ends hw
    obtain ⟨h', hlargest, hle⟩ := largestFrom_free (ε := ε)
      (fun height => c.maxAspect.any fun max => Float64.lt max (aspectOf high height)) (hlegal high) hh
    refine ⟨high, h', ?_, (hends w hw).2, hle⟩
    refine (searchLattice_all_eq hlow hhigh).2.2 h' (by simp [continuousWidthIntervalCanIntersect, hmin, hmax]) ?_
    rw [largestHeightForWidth, hmin, hmax]
    rw [hmax] at hlargest
    exact hlargest
  · obtain ⟨-, low, high, hlow, hhigh, -, -, hends⟩ := exists_ends hh
    obtain ⟨w', hlargest, hle⟩ := largestFrom_free (ε := ε)
      (fun width => c.minAspect.any fun min => Float64.lt (aspectOf width high) min) (fun v => hlegal v high) hw
    refine ⟨w', high, ?_, hle, (hends h hh).2⟩
    rw [searchHeights, (searchLattice_all_eq hlow hhigh).2.2 w'
      (by simp [continuousHeightIntervalCanIntersect, hmin, hmax]) (by
        rw [largestWidthForHeight, hmin, hmax]
        rw [hmin] at hlargest
        exact hlargest)]
    rfl

end Free

namespace LayoutConstraints

def HasSize (c : LayoutConstraints ℚ) (W H : ℕ) : Prop :=
  ∃ widths heights w h, c.widthLattice = some widths ∧ c.heightLattice = some heights ∧
    widths.contains w = true ∧ heights.contains h = true ∧ (1 ≤ w ∧ w ≤ W) ∧ 1 ≤ h ∧ h ≤ H

variable {c : LayoutConstraints ℚ}

theorem HasSize.mono {W W' H H' : ℕ} (h : c.HasSize W H) (hW : W ≤ W') (hH : H ≤ H') : c.HasSize W' H' := by
  obtain ⟨widths, heights, w, v, hw, hh, hmw, hmh, ⟨hw₁, hw₂⟩, hv₁, hv₂⟩ := h
  exact ⟨widths, heights, w, v, hw, hh, hmw, hmh, ⟨hw₁, hw₂.trans hW⟩, hv₁, hv₂.trans hH⟩

end LayoutConstraints

theorem resolveClientRect_free {c : LayoutConstraints ℚ} (hv : c.validate = .ok ()) (hmin : c.minAspect = none)
    (hmax : c.maxAspect = none) (tile : LayoutRect) :
    (c.HasSize tile.width.val tile.height.val ∧ ∃ client, resolveClientRectWithinTile tile c = .ok client) ∨
      (¬c.HasSize tile.width.val tile.height.val ∧
        resolveClientRectWithinTile tile c = .error (.error .infeasible)) := by
  by_cases hsize : c.HasSize tile.width.val tile.height.val
  · refine .inl ⟨hsize, ?_⟩
    obtain ⟨w, l, a, b, hw, hl, hma, hmb, ⟨ha₁, ha₂⟩, hb₁, hb₂⟩ := hsize
    obtain ⟨⟨widths, heights⟩, hlat⟩ := Option.isSome_iff_exists.mp (tileLattices_isSome hw hl hma hmb ha₂ hb₂)
    obtain ⟨w', l', hw', hl', hwiff, hliff⟩ := tileLattices_contains hlat
    obtain rfl := Option.some.inj (hw.symm.trans hw')
    obtain rfl := Option.some.inj (hl.symm.trans hl')
    obtain ⟨a', b', hbest, hale, hble⟩ := findBestLatticePair_free (ε := ClientRectError) hmin hmax
      ((hwiff a).mpr ⟨hma, ha₂⟩) ((hliff b).mpr ⟨hmb, hb₂⟩)
    obtain ⟨hma', hmb'⟩ := findBestLatticePair_contains hbest
    have hau := (contains_iff.mp hma').2.1.trans widths.upper_le
    have hbu := (contains_iff.mp hmb').2.1.trans heights.upper_le
    simp only [resolveClientRectWithinTile, hv, hlat, Run.okOr_some, Run.ok_bind, hbest, LayoutRect.new]
    rw [dif_pos ⟨by rw [toU32_val hau]; omega, by rw [toU32_val hbu]; omega⟩]
    exact ⟨_, rfl⟩
  · refine .inr ⟨hsize, ?_⟩
    rw [resolveClientRectWithinTile, hv]
    simp only
    cases hlat : tileLattices c tile with
    | none => rfl
    | some pair =>
      obtain ⟨widths, heights⟩ := pair
      obtain ⟨w, l, hw, hl, hwiff, hliff⟩ := tileLattices_contains hlat
      obtain ⟨_, _, a, b, hw', hl', hma, hmb, ha, hb⟩ := tileLattices_isSome_iff.mp (by rw [hlat]; rfl)
      obtain rfl := Option.some.inj (hw.symm.trans hw')
      obtain rfl := Option.some.inj (hl.symm.trans hl')
      obtain ⟨a', b', hbest, -, -⟩ := findBestLatticePair_free (ε := ClientRectError) hmin hmax
        ((hwiff a).mpr ⟨hma, ha⟩) ((hliff b).mpr ⟨hmb, hb⟩)
      obtain ⟨hma', hmb'⟩ := findBestLatticePair_contains hbest
      have hau := (contains_iff.mp hma').2.1.trans widths.upper_le
      have hbu := (contains_iff.mp hmb').2.1.trans heights.upper_le
      obtain ⟨hma', ha'⟩ := (hwiff a').mp hma'
      obtain ⟨hmb', hb'⟩ := (hliff b').mp hmb'
      simp only [Run.okOr_some, Run.ok_bind, hbest, LayoutRect.new]
      -- the largest size has no pixels in one direction
      rw [dif_neg]
      · rfl
      · rw [toU32_val hau, toU32_val hbu]
        rintro ⟨ha₁, hb₁⟩
        exact hsize ⟨w, l, a', b', hw, hl, hma', hmb', ⟨ha₁, ha'⟩, hb₁, hb'⟩

/-- Snapshots that passed `snapshot_map`, of windows that are not minimized and have no aspect bounds. -/
structure Free (snapshots : Snapshots ℚ) : Prop where
  valid : ∀ w s, snapshots.lookup w = some s → s.constraints.validate = .ok ()
  active : ∀ w s, snapshots.lookup w = some s → s.minimized = false
  minAspect : ∀ w s, snapshots.lookup w = some s → s.constraints.minAspect = none
  maxAspect : ∀ w s, snapshots.lookup w = some s → s.constraints.maxAspect = none

def TakesSize (snapshots : Snapshots ℚ) (window : WindowId) (size : Size) : Prop :=
  ∃ s, snapshots.lookup window = some s ∧ s.constraints.HasSize (size .horizontal) (size .vertical)

namespace Free
variable {snapshots : Snapshots ℚ} (h : Free snapshots)
include h

theorem client {window : WindowId} {s : LayoutWindowSnapshot ℚ} (hs : snapshots.lookup window = some s)
    (rect : LayoutRect) :
    (TakesSize snapshots window rect.size ∧ ∃ client, resolveClientRectWithinTile rect s.constraints = .ok client) ∨
      (¬TakesSize snapshots window rect.size ∧
        resolveClientRectWithinTile rect s.constraints = .error (.error .infeasible)) := by
  simp only [TakesSize, hs, Option.some.injEq, exists_eq_left']
  exact resolveClientRect_free (h.valid _ _ hs) (h.minAspect _ _ hs) (h.maxAspect _ _ hs) rect

theorem decides (t : DwindleTree ℚ) (bound : Size) : Decides t snapshots bound (TakesSize snapshots) where
  mono := by
    rintro window size size' hle ⟨s, hs, hsize⟩
    exact ⟨s, hs, hsize.mono (hle _) (hle _)⟩
  sound window rect b _ hrun := by
    obtain ⟨s, hs, hrest⟩ := Run.bind_eq_ok.mp hrun
    rw [Run.okOr_eq_ok] at hs
    simp only [h.active _ _ hs, Bool.not_true, Bool.false_eq_true, if_false] at hrest
    obtain ⟨client, hclient, hb⟩ := Run.bind_eq_ok.mp hrest
    rw [← Except.ok.inj hb]
    obtain ⟨hholds, found, hok⟩ | ⟨hno, herr⟩ := h.client hs rect
    · rw [hok] at hclient
      obtain rfl := Except.ok.inj hclient
      simpa using hholds
    · rw [herr] at hclient
      obtain rfl := Except.ok.inj hclient
      simpa using hno
  returns window size rect hholds _ := by
    obtain ⟨s, hs, -⟩ := hholds
    rw [leafFits, hs, Run.okOr_some, Run.ok_bind]
    simp only [h.active _ _ hs, Bool.not_true, Bool.false_eq_true, if_false]
    obtain ⟨-, client, hok⟩ | ⟨-, herr⟩ := h.client hs rect
    · exact ⟨true, by rw [hok]; rfl⟩
    · exact ⟨false, by rw [herr]; rfl⟩

end Free

namespace Topology
variable {snapshots : Snapshots ℚ}

theorem FitsIn.imp {accepts accepts' : WindowId → Size → Prop} (himp : ∀ w size, accepts w size → accepts' w size)
    {T : Topology ℚ} {size : Size} (h : T.FitsIn accepts size) : T.FitsIn accepts' size := by
  induction T generalizing size with
  | leaf id window => exact himp _ _ h
  | split id axis ratio first second ih₁ ih₂ =>
    obtain ⟨k, hlow, hhigh, h₁, h₂⟩ := h
    exact ⟨k, hlow, hhigh, ih₁ h₁, ih₂ h₂⟩

theorem FitsIn.bounds {T : Topology ℚ} {size : Size} (h : T.FitsIn (TakesSize snapshots) size)
    (hfree : Free snapshots) : ∃ bounds, T.lowerBounds snapshots = .ok bounds := by
  have haccepts : ∀ w size, TakesSize snapshots w size → Accepts snapshots w size := by
    rintro w size ⟨s, hs, widths, heights, a, b, hw, hh, hma, hmb, ha, hb⟩
    refine ⟨s, hs, .inr ⟨widths, heights, a, b, hw, hh, hma, hmb, ?_, ha.2, hb.2⟩⟩
    have hexact : s.constraints.exactAspect = none := by rw [LayoutConstraints.exactAspect, hfree.minAspect _ _ hs]
    simp [LayoutConstraints.Admits, hexact, aspectIsLegal, hfree.minAspect _ _ hs, hfree.maxAspect _ _ hs]
  exact (h.imp haccepts).lowerBounds hfree.valid

/-- Every split has room for its lower bounds between 5 % and 95 %, and each side fits at the boundary that the stored
ratio gives within these limits. -/
def FitsAtRatios (snapshots : Snapshots ℚ) : Topology ℚ → Size → Prop
  | leaf _ window, size => TakesSize snapshots window size
  | split _ axis ratio first second, size => ∃ b₁ b₂ k, first.lowerBounds snapshots = .ok (some b₁) ∧
      second.lowerBounds snapshots = .ok (some b₂) ∧
      Bracket (size axis) (boundFor b₁ axis) (size axis - boundFor b₂ axis) ∧
      k = splitOffset (size axis) (boundFor b₁ axis) (size axis - boundFor b₂ axis) ratio.value ∧
      1 ≤ k ∧ k < size axis ∧ first.FitsAtRatios snapshots (Function.update size axis k) ∧
      second.FitsAtRatios snapshots (Function.update size axis (size axis - k))

end Topology

/-! ### Placement within the lower bounds -/

section Placement
variable {snapshots : Snapshots ℚ} {bound : Size} {rect : LayoutRect} {T : Topology ℚ}

theorem SplitsInto.fast {rect r₁ r₂ : LayoutRect} {axis : SplitAxis} {preferred : SplitRatio ℚ} {a b : ℕ}
    (hedge : rect.EdgeFits axis) (hsize : rect.size axis ≤ 2147483647)
    (hs : SplitsInto axis preferred (boundaryLimits rect axis a b) rect r₁ r₂) :
    ∃ k, k = splitOffset (rect.size axis) a (rect.size axis - b) preferred.value ∧
      Bracket (rect.size axis) a (rect.size axis - b) ∧ 1 ≤ k ∧ k < rect.size axis ∧
      r₁.size = Function.update rect.size axis k ∧
      r₂.size = Function.update rect.size axis (rect.size axis - k) := by
  have hroom : rect.room axis = rect.size axis := min_eq_left hsize
  have hle := hs.room hedge
  obtain ⟨hb, hpos, hlt, hh⟩ := hs.halves hedge (boundaryLimits_offsets hedge (by omega) (by omega))
  have hsecond := hh.second
  rw [hroom] at hb hpos hlt hsecond hh
  exact ⟨_, rfl, hb, hpos, hlt, hh.first, hsecond⟩

variable (hfree : Free snapshots)
include hfree

theorem Placed.fitsAtRatios {targets : List TiledWindowTarget} {bounds : Option SubtreeLowerBounds}
    (hb : T.lowerBounds snapshots = .ok bounds) (hok : Surveyed bound T rect)
    (h : Placed snapshots ∅ (fastLimits snapshots) T rect targets) : T.FitsAtRatios snapshots rect.size := by
  induction T generalizing rect targets bounds with
  | leaf id window =>
    cases h with
    | minimized hnone => exact absurd hnone (Topology.active_ne_nil hfree.active hb)
    | leaf hs hm hc =>
      obtain ⟨hholds, -⟩ | ⟨-, herr⟩ := hfree.client hs rect
      · exact hholds
      · cases hc.symm.trans herr
  | split id axis ratio first second ih₁ ih₂ =>
    obtain ⟨c₁, hc₁, hrest⟩ := Run.bind_eq_ok.mp hb
    obtain ⟨c₂, hc₂, -⟩ := Run.bind_eq_ok.mp hrest
    obtain ⟨_, r₁, r₂, targets₁, targets₂, hl, hs, hp₁, hp₂⟩ :=
      h.sides (Topology.active_ne_nil hfree.active hc₁) (Topology.active_ne_nil hfree.active hc₂)
    obtain ⟨hok₁, hok₂⟩ := hok.halves hs
    obtain ⟨b₁, b₂, hb₁, hb₂, rfl⟩ := hl
    obtain ⟨hedge, hsize⟩ := hok.edge axis (.inl rfl)
    obtain ⟨k, hk, hbr, hpos, hlt, hfirst, hsecond⟩ := hs.fast hedge hsize
    exact ⟨b₁, b₂, k, hb₁, hb₂, hbr, hk, hpos, hlt, hfirst ▸ ih₁ hc₁ hok₁ hp₁, hsecond ▸ ih₂ hc₂ hok₂ hp₂⟩

theorem Topology.FitsAtRatios.placed (hok : Surveyed bound T rect) (h : T.FitsAtRatios snapshots rect.size) :
    ∃ targets, Placed snapshots ∅ (fastLimits snapshots) T rect targets := by
  induction T generalizing rect with
  | leaf id window =>
    have hholds : TakesSize snapshots window rect.size := h
    obtain ⟨s, hs, -⟩ := hholds
    obtain ⟨-, client, hc⟩ | ⟨hno, -⟩ := hfree.client hs rect
    · exact ⟨_, .leaf hs (hfree.active _ _ hs) hc⟩
    · exact absurd h hno
  | split id axis ratio first second ih₁ ih₂ =>
    obtain ⟨b₁, b₂, k, hb₁, hb₂, hbr, hk, hpos, hlt, h₁, h₂⟩ := h
    obtain ⟨hedge, hsize⟩ := hok.edge axis (.inl rfl)
    have hroom : rect.room axis = rect.size axis := min_eq_left hsize
    have hle := hbr.le
    have hhigh := hbr.high
    have hoff := boundaryLimits_offsets hedge (by omega : boundFor b₁ axis ≤ rect.room axis)
      (by omega : boundFor b₂ axis ≤ rect.room axis)
    rw [hroom] at hoff
    obtain ⟨r₁, r₂, hs⟩ := (exists_splitsInto_iff hedge hoff ratio).mpr ⟨hbr, hk ▸ hpos, by rw [hroom, ← hk]; exact hlt⟩
    obtain ⟨hok₁, hok₂⟩ := hok.halves hs
    obtain ⟨k', hk', -, -, -, hfirst, hsecond⟩ := hs.fast hedge hsize
    obtain rfl : k' = k := hk'.trans hk.symm
    obtain ⟨targets₁, hp₁⟩ := ih₁ hok₁ (hfirst ▸ h₁)
    obtain ⟨targets₂, hp₂⟩ := ih₂ hok₂ (hsecond ▸ h₂)
    exact ⟨_, .both (Topology.active_ne_nil hfree.active hb₁) (Topology.active_ne_nil hfree.active hb₂)
      ⟨b₁, b₂, hb₁, hb₂, rfl⟩ hs hp₁ hp₂⟩

omit hfree in
theorem Topology.FitsAtRatios.fitsIn {size : Size} (hsize : ∀ axis, 1 ≤ size axis)
    (h : T.FitsAtRatios snapshots size) : T.FitsIn (TakesSize snapshots) size := by
  induction T generalizing size with
  | leaf id window => exact h
  | split id axis ratio first second ih₁ ih₂ =>
    obtain ⟨b₁, b₂, k, -, -, hbr, rfl, hpos, hlt, h₁, h₂⟩ := h
    obtain ⟨hlow, hhigh, -⟩ := splitOffset_mem (hsize axis) hbr ratio.value
    refine ⟨_, max_le ((le_max_right _ _).trans hlow) hpos, le_min (hhigh.trans (min_le_right _ _)) (by omega),
      ih₁ (fun a => ?_) h₁, ih₂ (fun a => ?_) h₂⟩
    · by_cases ha : a = axis
      · rw [ha, Function.update_self]
        exact hpos
      · rw [Function.update_of_ne ha]
        exact hsize a
    · by_cases ha : a = axis
      · rw [ha, Function.update_self]
        omega
      · rw [Function.update_of_ne ha]
        exact hsize a

end Placement

/-! ### Agreement -/

def FastAgrees (t : DwindleTree ℚ) (rootId : DwindleNodeId) (root : LayoutRect)
    (snapshots : List (LayoutWindowSnapshot ℚ)) : Prop :=
  (∃ solution, solveTree t root snapshots = .ok solution) ↔ subtreeFits t rootId root snapshots = .ok true

section Agreement
variable {t : DwindleTree ℚ} {root : LayoutRect} {snapshots : List (LayoutWindowSnapshot ℚ)} {map : Snapshots ℚ}

theorem solve_fast_iff_fitsAtRatios {T : Topology ℚ} (hT : t.Shape T) (hok : Surveyed root.size T root)
    (hmap : snapshotMap snapshots = .ok map) (hfast : needsExact map = false) (hfree : Free map) :
    (∃ solution, solveTree t root snapshots = .ok solution) ↔ T.FitsAtRatios map root.size := by
  have hiff : ∀ targets, (∃ solution, solveTree t root snapshots = .ok solution ∧ solution.updates = targets) ↔
      (∃ bounds, T.lowerBounds map = .ok bounds) ∧ Placed map ∅ (fastLimits map) T root targets := fun _ =>
    solve_fast_iff hT hmap hfast
  constructor
  · rintro ⟨solution, hs⟩
    obtain ⟨⟨bounds, hb⟩, hp⟩ := (hiff _).mp ⟨solution, hs, rfl⟩
    exact hp.fitsAtRatios hfree hb hok
  · intro h
    obtain ⟨targets, hp⟩ := h.placed hfree hok
    obtain ⟨solution, hs, -⟩ := (hiff _).mpr ⟨(h.fitsIn root.size_pos).bounds hfree, hp⟩
    exact ⟨solution, hs⟩

theorem tractable_of_snapshots {bound : Size} (hmap : snapshotMap snapshots = .ok map)
    (hactive : ∀ s ∈ snapshots, s.minimized = false) (hminima : ∀ s ∈ snapshots, s.constraints.MinimaPositive)
    (hsmall : (∀ axis, bound axis < 4294967295) ∨
      ∀ s ∈ snapshots, s.constraints.minAspect = none ∧ s.constraints.maxAspect = none) :
    (∀ w s, map.lookup w = some s → s.minimized = false) ∧ Tractable map bound := by
  have hlook : ∀ w s, map.lookup w = some s → s ∈ snapshots := fun w s hs => ((snapshotMap_lookup hmap).mp hs).1
  have hvalid := (snapshotMap_total.mp ⟨map, hmap⟩).2
  exact ⟨fun w s hs => hactive s (hlook w s hs), fun w s hs => hvalid s (hlook w s hs),
    fun w s hs _ => hminima s (hlook w s hs), hsmall.imp_right fun h w s hs _ => h s (hlook w s hs)⟩

theorem surveyed_withRatios {T : Topology ℚ} (hroot : root.Addressable)
    (hsize : ∀ axis, T.SplitsAlong axis → root.size axis ≤ 2147483647) (ratios : DwindleNodeId → SplitRatio ℚ) :
    Surveyed root.size (T.withRatios ratios) root :=
  ⟨le_rfl, fun axis ha => ⟨hroot.edgeFits axis, hsize axis (by simpa using ha)⟩⟩

end Agreement

def broadWindow : LayoutWindowSnapshot ℚ :=
  ⟨⟨2⟩, false, { LayoutConstraints.unconstrained with minWidth := some ⟨28, by decide⟩ }⟩

end Typhon.Layout
