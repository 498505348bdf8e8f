import Typhon.Layout.Feasible
import Typhon.Layout.Ratios
import Typhon.Layout.SizeSearch

/-! `subtree_fits` decides whether boundaries exist that give every window a size it accepts. -/

namespace Typhon.Layout
open Foundation Query

def Accepts (snapshots : Snapshots ℚ) (window : WindowId) (size : Size) : Prop :=
  ∃ s, snapshots.lookup window = some s ∧
    (s.minimized = true ∨ s.constraints.Fits (size .horizontal) (size .vertical))

theorem accepts_mono (snapshots : Snapshots ℚ) (window : WindowId) : Monotone (Accepts snapshots window) := by
  rintro size size' hle ⟨s, hs, hm | hfits⟩
  · exact ⟨s, hs, .inl hm⟩
  · exact ⟨s, hs, .inr (hfits.mono (hle _) (hle _))⟩

/-- Snapshots that passed `snapshot_map`, with minimum sizes of at least one pixel, in tiles below
`u32::MAX` unless no window has an aspect bound. -/
structure Tractable (snapshots : Snapshots ℚ) (bound : Size) : Prop where
  valid : ∀ w s, snapshots.lookup w = some s → s.constraints.validate = .ok ()
  minima : ∀ w s, snapshots.lookup w = some s → s.minimized = false → s.constraints.MinimaPositive
  small : (∀ axis, bound axis < 4294967295) ∨ ∀ w s, snapshots.lookup w = some s → s.minimized = false →
    s.constraints.minAspect = none ∧ s.constraints.maxAspect = none

section Leaf
variable {ctx : SolveContext ℚ} {bound : Size} {window : WindowId} {rect : LayoutRect}

theorem Tractable.finds {snapshots : Snapshots ℚ} (h : Tractable snapshots bound) {s : LayoutWindowSnapshot ℚ}
    (hs : snapshots.lookup window = some s) (hm : s.minimized = false) (hasp : s.constraints.AspectUsable)
    (hle : rect.size ≤ bound) : (s.constraints.Fits rect.width.val rect.height.val ∧
        ∃ client, resolveClientRectWithinTile rect s.constraints = .ok client) ∨
      (¬ s.constraints.Fits rect.width.val rect.height.val ∧
        resolveClientRectWithinTile rect s.constraints = .error (.error .infeasible)) := by
  refine resolveClientRect_finds (h.valid _ _ hs) (h.minima _ _ hs hm) hasp ?_
  exact h.small.imp (fun hb => ⟨(hle .horizontal).trans_lt (hb _), (hle .vertical).trans_lt (hb _)⟩)
    fun hno => hno _ _ hs hm

theorem leafFits_sound (hexact : ctx.exact = true) (h : Tractable ctx.snapshots bound) {b : Bool}
    (hle : rect.size ≤ bound) (hrun : leafFits ctx window rect = .ok b) :
    b = true ↔ Accepts ctx.snapshots window rect.size := by
  obtain ⟨s, hs, hrest⟩ := Run.bind_eq_ok.mp hrun
  rw [Run.okOr_eq_ok] at hs
  simp only [Accepts, hs, Option.some.injEq, exists_eq_left']
  cases hm : s.minimized with
  | true =>
    simp only [hm, if_true, Except.ok.injEq] at hrest
    simp [← hrest]
  | false =>
    simp only [hm, hexact, Bool.not_true, Bool.false_eq_true, if_false] at hrest
    simp only [Bool.false_eq_true, false_or]
    obtain ⟨client, hclient, hb⟩ := Run.bind_eq_ok.mp hrest
    rw [← Except.ok.inj hb]
    change client.isSome = true ↔ s.constraints.Fits rect.width.val rect.height.val
    by_cases hasp : s.constraints.AspectUsable
    · obtain ⟨hfits, found, hok⟩ | ⟨hno, herr⟩ := h.finds hs hm hasp hle
      · rw [hok] at hclient
        obtain rfl := Except.ok.inj hclient
        simpa using hfits
      · rw [herr] at hclient
        obtain rfl := Except.ok.inj hclient
        simpa using hno
    · obtain ⟨-, hc⟩ | ⟨-, hc⟩ := resolveClientRect_zero hasp (h.valid _ _ hs) rect
      · simp [hc, Run.dropError] at hclient
      · obtain rfl : none = client := by simpa [hc, Run.dropError] using hclient
        simpa using fun hfits => hasp (hfits.aspectUsable (h.minima _ _ hs hm))

theorem leafFits_returns (hexact : ctx.exact = true) (h : Tractable ctx.snapshots bound) {size : Size}
    (hacc : Accepts ctx.snapshots window size) (hle : rect.size ≤ bound) :
    ∃ b, leafFits ctx window rect = .ok b := by
  obtain ⟨s, hs, hfits⟩ := hacc
  rw [leafFits, hs, Run.okOr_some, Run.ok_bind]
  cases hm : s.minimized with
  | true => exact ⟨true, rfl⟩
  | false =>
    simp only [hm, Bool.false_eq_true, false_or] at hfits
    simp only [hexact, Bool.not_true, Bool.false_eq_true, if_false]
    obtain ⟨-, client, hok⟩ | ⟨-, herr⟩ := h.finds hs hm (hfits.aspectUsable (h.minima _ _ hs hm)) hle
    · exact ⟨true, by rw [hok]; rfl⟩
    · exact ⟨false, by rw [herr]; rfl⟩

theorem placed_leaf {snapshots : Snapshots ℚ} {overrides : HashMap DwindleNodeId (SplitRatio ℚ)} {limits : Limits ℚ}
    {id : DwindleNodeId} (h : Tractable snapshots bound)
    (hactive : ∀ w s, snapshots.lookup w = some s → s.minimized = false) (hle : rect.size ≤ bound)
    (hacc : Accepts snapshots window rect.size) :
    ∃ targets, Placed snapshots overrides limits (.leaf id window) rect targets := by
  obtain ⟨s, hs, hm | hfits⟩ := hacc
  · exact absurd hm (by simp [hactive _ _ hs])
  have hmin := h.minima _ _ hs (hactive _ _ hs)
  obtain ⟨-, client, hc⟩ | ⟨hno, -⟩ := h.finds hs (hactive _ _ hs) (hfits.aspectUsable hmin) hle
  · exact ⟨_, .leaf hs (hactive _ _ hs) hc⟩
  · exact absurd hfits hno

end Leaf

theorem Topology.FitsIn.exists_size {accepts : WindowId → Size → Prop} {T : Topology ℚ} {size : Size}
    (h : T.FitsIn accepts size) {w : WindowId} (hw : w ∈ T.windows) : ∃ size', accepts w size' := by
  induction T generalizing size with
  | leaf id window =>
    obtain rfl := List.mem_singleton.mp hw
    exact ⟨size, h⟩
  | split id axis ratio first second ih₁ ih₂ =>
    obtain ⟨k, -, -, h₁, h₂⟩ := h
    rw [Topology.windows, List.mem_append] at hw
    exact hw.elim (ih₁ h₁) (ih₂ h₂)

theorem Topology.FitsIn.lowerBounds {snapshots : Snapshots ℚ}
    (hvalid : ∀ w s, snapshots.lookup w = some s → s.constraints.validate = .ok ()) {T : Topology ℚ} {size : Size}
    (h : T.FitsIn (Accepts snapshots) size) : ∃ bounds, T.lowerBounds snapshots = .ok bounds := by
  induction T generalizing size with
  | leaf id window =>
    obtain ⟨s, hs, hm⟩ := h
    rw [Topology.lowerBounds, hs, Run.okOr_some, Run.ok_bind]
    by_cases hmin : s.minimized = true
    · exact ⟨none, by rw [if_pos hmin]⟩
    obtain ⟨widths, heights, w, v, hw, hh, hmw, hmh, -, -, -⟩ := hm.resolve_left hmin
    obtain ⟨lo, -, hlo, -⟩ := exists_cut hw hmw le_rfl
    obtain ⟨lo', -, hlo', -⟩ := exists_cut hh hmh le_rfl
    refine ⟨some ⟨lo, lo'⟩, ?_⟩
    simp [hmin, LayoutConstraints.independentLowerBounds, hvalid _ _ hs, minimumDimension, hw, hh, hlo, hlo']
  | split id axis ratio first second ih₁ ih₂ =>
    obtain ⟨k, -, -, h₁, h₂⟩ := h
    obtain ⟨b₁, hb₁⟩ := ih₁ h₁
    obtain ⟨b₂, hb₂⟩ := ih₂ h₂
    exact ⟨combineBounds axis b₁ b₂, by simp [Topology.lowerBounds, hb₁, hb₂]⟩

@[simp] theorem Topology.fitsIn_withRatios (ratios : DwindleNodeId → SplitRatio ℚ)
    (accepts : WindowId → Size → Prop) (T : Topology ℚ) (size : Size) :
    (T.withRatios ratios).FitsIn accepts size ↔ T.FitsIn accepts size := by
  induction T generalizing size with
  | leaf => rfl
  | split id axis ratio first second ih₁ ih₂ => simp only [Topology.withRatios, Topology.FitsIn, ih₁, ih₂]

@[simp] theorem Topology.splitsAlong_withRatios (ratios : DwindleNodeId → SplitRatio ℚ) (axis : SplitAxis)
    (T : Topology ℚ) : (T.withRatios ratios).SplitsAlong axis ↔ T.SplitsAlong axis := by
  induction T with
  | leaf => rfl
  | split id a ratio first second ih₁ ih₂ => simp only [Topology.withRatios, Topology.SplitsAlong, ih₁, ih₂]

section Tree
variable {t : DwindleTree ℚ} {T : Topology ℚ} {root : LayoutRect} {map : Snapshots ℚ} {bound : Size}

structure Decides (t : DwindleTree ℚ) (map : Snapshots ℚ) (bound : Size) (accepts : WindowId → Size → Prop) : Prop where
  mono : ∀ window, Monotone (accepts window)
  sound : ∀ (window : WindowId) (rect : LayoutRect) (b : Bool), rect.size ≤ bound →
    leafFits ⟨t, map, true⟩ window rect = .ok b → (b = true ↔ accepts window rect.size)
  returns : ∀ (window : WindowId) (size : Size) (rect : LayoutRect), accepts window size → rect.size ≤ bound →
    ∃ b, leafFits ⟨t, map, true⟩ window rect = .ok b

theorem Tractable.decides (h : Tractable map bound) : Decides t map bound (Accepts map) :=
  ⟨accepts_mono map, fun _ _ _ hle => leafFits_sound rfl h hle, fun _ _ _ hacc hle => leafFits_returns rfl h hacc hle⟩

variable {accepts : WindowId → Size → Prop}

theorem canFit_root_sound (hT : t.Shape T) (hmap : Decides t map bound accepts) (hok : Surveyed bound T root) :
    Sound (Coherent ⟨t, map, true⟩ accepts) (canFit ⟨t, map, true⟩ t.depthBound T.id root)
      fun b => b = true ↔ T.FitsIn accepts root.size :=
  canFit_sound rfl hmap.mono hmap.sound hT.denotes hok

theorem canFit_root_of_fits (hT : t.Shape T) (hmap : Decides t map bound accepts) (hok : Surveyed bound T root)
    (hfits : T.FitsIn accepts root.size) :
    ∃ s, (canFit ⟨t, map, true⟩ t.depthBound T.id root).run Feasibility.new = .ok (true, s) := by
  have hreturns : Query.Returns (canFit ⟨t, map, true⟩ t.depthBound T.id root) fun _ => True :=
    canFit_returns hT.denotes hT.height_le_depthBound (fun w hw r hr =>
      (hfits.exists_size hw).elim fun _ hacc => hmap.returns w _ r hacc hr) hok.size_le
  obtain ⟨b, s, hrun, -⟩ := hreturns Feasibility.new
  obtain rfl := (canFit_root_sound hT hmap hok coherent_new hrun).2.mpr hfits
  exact ⟨s, hrun⟩

theorem subtreeFits_iff {snapshots : List (LayoutWindowSnapshot ℚ)} (hT : t.Shape T)
    (hmap : snapshotMap snapshots = .ok map) (hdecides : Decides t map bound accepts) (hok : Surveyed bound T root) :
    subtreeFits t T.id root snapshots = .ok true ↔ T.FitsIn accepts root.size := by
  rw [subtreeFits, hmap, Run.ok_bind, Run.bind_eq_ok]
  constructor
  · rintro ⟨⟨b, s⟩, hrun, hb⟩
    exact (canFit_root_sound hT hdecides hok coherent_new hrun).2.mp (Except.ok.inj hb)
  · intro hfits
    obtain ⟨s, hrun⟩ := canFit_root_of_fits hT hdecides hok hfits
    exact ⟨(true, s), hrun, rfl⟩

end Tree

end Typhon.Layout
