import Typhon.Layout.Solve
import Typhon.Layout.TreeRuns

/-! What the solver reads from a tree before it places anything: the accepted snapshots, the lower
bounds of every subtree and the windows that take space. -/

namespace Typhon.Layout
open Foundation

variable {F : Type} [Float64 F]

/-! ### Accepted snapshots -/

variable {list : List (LayoutWindowSnapshot F)}

theorem snapshotMapFrom_ok {map map' : Snapshots F} (h : snapshotMapFrom map list = .ok map') :
    (list.map LayoutWindowSnapshot.window).Nodup ∧ (∀ s ∈ list, s.constraints.validate = .ok () ∧ s.window ∉ map) ∧
      ∀ w s, map'.lookup w = some s ↔ map.lookup w = some s ∨ s ∈ list ∧ s.window = w := by
  induction list generalizing map with
  | nil =>
    simp only [snapshotMapFrom, Except.ok.injEq] at h
    subst h
    simp
  | cons snapshot rest ih =>
    rw [snapshotMapFrom] at h
    cases hv : snapshot.constraints.validate with
    | error e => simp [hv, Run.fail] at h
    | ok =>
      simp only [hv] at h
      by_cases hmem : snapshot.window ∈ map
      · simp [hmem, Run.fail] at h
      rw [if_neg hmem] at h
      obtain ⟨hnd, hall, hlook⟩ := ih h
      have hfresh : map.lookup snapshot.window = none := Finmap.lookup_eq_none.mpr hmem
      refine ⟨?_, ?_, ?_⟩
      · rw [List.map_cons, List.nodup_cons]
        refine ⟨fun hin => ?_, hnd⟩
        obtain ⟨s, hs, hw⟩ := List.mem_map.mp hin
        exact (hall s hs).2 (by rw [hw]; exact Finmap.mem_insert.mpr (.inl rfl))
      · rintro s hs
        obtain rfl | hs := List.mem_cons.mp hs
        · exact ⟨hv, hmem⟩
        · exact ⟨(hall s hs).1, fun hin => (hall s hs).2 (Finmap.mem_insert.mpr (.inr hin))⟩
      · intro w s
        rw [hlook, HashMap.lookup_insert, List.mem_cons]
        by_cases hw : w = snapshot.window
        · subst hw
          simp only [if_true, Option.some.injEq, hfresh, reduceCtorEq, false_or]
          constructor
          · rintro (rfl | ⟨hs, hw⟩)
            · exact ⟨.inl rfl, rfl⟩
            · exact ⟨.inr hs, hw⟩
          · rintro ⟨rfl | hs, hw⟩
            · exact .inl rfl
            · exact .inr ⟨hs, hw⟩
        · rw [if_neg hw]
          refine or_congr_right ⟨fun h => ⟨.inr h.1, h.2⟩, ?_⟩
          rintro ⟨rfl | hs, hsw⟩
          · exact absurd hsw.symm hw
          · exact ⟨hs, hsw⟩

theorem snapshotMapFrom_total {map : Snapshots F} (hnd : (list.map LayoutWindowSnapshot.window).Nodup)
    (hall : ∀ s ∈ list, s.constraints.validate = .ok () ∧ s.window ∉ map) :
    ∃ map', snapshotMapFrom map list = .ok map' := by
  induction list generalizing map with
  | nil => exact ⟨map, rfl⟩
  | cons snapshot rest ih =>
    obtain ⟨hv, hmem⟩ := hall snapshot List.mem_cons_self
    rw [List.map_cons, List.nodup_cons] at hnd
    rw [snapshotMapFrom, hv]
    simp only [if_neg hmem]
    refine ih hnd.2 fun s hs => ⟨(hall s (List.mem_cons_of_mem _ hs)).1, fun hin => ?_⟩
    obtain hw | hin := Finmap.mem_insert.mp hin
    · exact hnd.1 (hw ▸ List.mem_map_of_mem hs)
    · exact (hall s (List.mem_cons_of_mem _ hs)).2 hin

theorem snapshotMap_total : (∃ map, snapshotMap list = .ok map) ↔ (list.map LayoutWindowSnapshot.window).Nodup ∧
      ∀ s ∈ list, s.constraints.validate = .ok () := by
  constructor
  · rintro ⟨map, h⟩
    obtain ⟨hnd, hall, -⟩ := snapshotMapFrom_ok h
    exact ⟨hnd, fun s hs => (hall s hs).1⟩
  · rintro ⟨hnd, hall⟩
    exact snapshotMapFrom_total hnd fun s hs => ⟨hall s hs, Finmap.notMem_empty⟩

theorem snapshotMap_lookup {map : Snapshots F}
    (h : snapshotMap list = .ok map) {w : WindowId} {s : LayoutWindowSnapshot F} :
    map.lookup w = some s ↔ s ∈ list ∧ s.window = w := by
  rw [(snapshotMapFrom_ok h).2.2 w s, HashMap.lookup_empty]
  simp

/-! ### Windows that take space -/

def isActive (snapshots : Snapshots F) (w : WindowId) : Bool :=
  (snapshots.lookup w).any fun snapshot => !snapshot.minimized

omit [Float64 F] in
theorem isActive_iff {snapshots : Snapshots F} {w : WindowId} :
    isActive snapshots w = true ↔ ∃ s, snapshots.lookup w = some s ∧ s.minimized = false := by
  simp [isActive, Option.any_eq_true]

namespace Topology

def active (snapshots : Snapshots F) (T : Topology F) : List WindowId :=
  T.windows.filter (isActive snapshots)

@[simp] theorem active_split (snapshots : Snapshots F) (id : DwindleNodeId) (axis : SplitAxis)
    (ratio : SplitRatio F) (first second : Topology F) : (split id axis ratio first second).active snapshots =
      first.active snapshots ++ second.active snapshots := by
  simp [active, windows]

variable {snapshots : Snapshots F}

theorem active_leaf {id : DwindleNodeId} {window : WindowId}
    {snapshot : LayoutWindowSnapshot F} (h : snapshots.lookup window = some snapshot) :
    (leaf id window).active snapshots = if snapshot.minimized then [] else [window] := by
  cases hm : snapshot.minimized <;> simp [active, windows, isActive, h, hm]

def lowerBounds (snapshots : Snapshots F) : Topology F → Run LayoutError (Option SubtreeLowerBounds)
  | leaf id window => do
    let snapshot ← Run.okOr (.missingSnapshot window) (snapshots.lookup window)
    if snapshot.minimized then .ok none
    else
      match snapshot.constraints.independentLowerBounds with
      | .error _ => Run.fail (leafInfeasible id window snapshot.constraints)
      | .ok (minWidth, minHeight) => .ok (some ⟨minWidth, minHeight⟩)
  | split _ axis _ first second => do
    let first ← first.lowerBounds snapshots
    let second ← second.lowerBounds snapshots
    .ok (combineBounds axis first second)

def Recorded (snapshots : Snapshots F) (requirements : Requirements) : Topology F → Prop
  | leaf id window => (leaf id window).lowerBounds snapshots = .ok (requirements.lookup id)
  | split id axis ratio first second =>
    (split id axis ratio first second).lowerBounds snapshots = .ok (requirements.lookup id) ∧
      first.Recorded snapshots requirements ∧ second.Recorded snapshots requirements

variable {T : Topology F}

theorem Recorded.top {requirements : Requirements} (h : T.Recorded snapshots requirements) :
    T.lowerBounds snapshots = .ok (requirements.lookup T.id) := by
  cases T with
  | leaf id window => exact h
  | split id axis ratio first second => exact h.1

theorem Recorded.congr {requirements requirements' : Requirements} (h : T.Recorded snapshots requirements)
    (heq : ∀ i ∈ T.ids, requirements'.lookup i = requirements.lookup i) : T.Recorded snapshots requirements' := by
  induction T with
  | leaf id window => rw [Recorded, heq id (by simp [ids]), h]
  | split id axis ratio first second ih₁ ih₂ =>
    obtain ⟨htop, h₁, h₂⟩ := h
    rw [Recorded, heq id (by simp [ids])]
    exact ⟨htop, ih₁ h₁ fun i hi => heq i (by simp [ids, hi]), ih₂ h₂ fun i hi => heq i (by simp [ids, hi])⟩

theorem combineBounds_eq_none {axis : SplitAxis} {first second : Option SubtreeLowerBounds} :
    combineBounds axis first second = none ↔ first = none ∧ second = none := by
  cases first <;> cases second <;> cases axis <;> simp [combineBounds]

variable {bounds : Option SubtreeLowerBounds}

theorem lowerBounds_none_iff (h : T.lowerBounds snapshots = .ok bounds) :
    bounds = none ↔ T.active snapshots = [] := by
  induction T generalizing bounds with
  | leaf id window =>
    obtain ⟨snapshot, hs, hrest⟩ := Run.bind_eq_ok.mp h
    rw [active_leaf (Run.okOr_eq_ok.mp hs)]
    cases hm : snapshot.minimized with
    | true => simpa [hm, eq_comm] using hrest
    | false =>
      cases hb : snapshot.constraints.independentLowerBounds with
      | error e => simp [hm, hb, Run.fail] at hrest
      | ok pair =>
        simp only [hm, hb, Bool.false_eq_true, if_false, Except.ok.injEq] at hrest
        simp [← hrest]
  | split id axis ratio first second ih₁ ih₂ =>
    obtain ⟨a, ha, hrest⟩ := Run.bind_eq_ok.mp h
    obtain ⟨b, hb, hrest⟩ := Run.bind_eq_ok.mp hrest
    rw [Except.ok.injEq] at hrest
    rw [← hrest, combineBounds_eq_none, active_split, List.append_eq_nil_iff, ih₁ ha, ih₂ hb]

theorem covered_of_lowerBounds (h : T.lowerBounds snapshots = .ok bounds) {w : WindowId} (hw : w ∈ T.windows) :
    ∃ s, snapshots.lookup w = some s := by
  induction T generalizing bounds with
  | leaf id window =>
    obtain rfl := List.mem_singleton.mp hw
    obtain ⟨s, hs, -⟩ := Run.bind_eq_ok.mp h
    exact ⟨s, Run.okOr_eq_ok.mp hs⟩
  | split id axis ratio first second ih₁ ih₂ =>
    obtain ⟨a, ha, hrest⟩ := Run.bind_eq_ok.mp h
    obtain ⟨b, hb, -⟩ := Run.bind_eq_ok.mp hrest
    rw [windows, List.mem_append] at hw
    exact hw.elim (ih₁ ha) (ih₂ hb)

theorem active_ne_nil (hactive : ∀ w s, snapshots.lookup w = some s → s.minimized = false)
    (h : T.lowerBounds snapshots = .ok bounds) : T.active snapshots ≠ [] := by
  have hall : T.active snapshots = T.windows := List.filter_eq_self.mpr fun w hw => by
    obtain ⟨s, hs⟩ := covered_of_lowerBounds h hw
    exact isActive_iff.mpr ⟨s, hs, hactive w s hs⟩
  rw [hall]
  exact T.windows_ne_nil

variable {depth : ℕ}

theorem exists_depth (h : T.height ≤ depth) : ∃ d, depth = d + 1 :=
  ⟨depth - 1, by cases T <;> simp only [height] at h <;> omega⟩

theorem exists_depth_split {id : DwindleNodeId} {axis : SplitAxis} {ratio : SplitRatio F} {first second : Topology F}
    (h : (split id axis ratio first second).height ≤ depth) :
    ∃ d, depth = d + 1 ∧ first.height ≤ d ∧ second.height ≤ d := by
  simp only [height] at h
  exact ⟨depth - 1, by omega, by omega, by omega⟩

end Topology

variable {id : DwindleNodeId} {parent : Option DwindleNodeId} {t : DwindleTree F}

theorem Denotes.nodeKind_leaf {window : WindowId} (h : Denotes t.nodes parent (.leaf id window)) :
    t.nodeKind id = some (.leaf window) := by
  rw [DwindleTree.nodeKind, show t.nodes.get id = _ from h]
  rfl

theorem Denotes.nodeKind_split {axis : SplitAxis} {ratio : SplitRatio F} {first second : Topology F}
    (h : Denotes t.nodes parent (.split id axis ratio first second)) :
    t.nodeKind id = some (.split axis ratio first.id second.id) := by
  rw [DwindleTree.nodeKind, h.1]
  rfl

theorem canFit_kind {ctx : SolveContext F} {depth : ℕ} {kind : DwindleNodeKind F}
    (hk : ctx.tree.nodeKind id = some kind) (rect : LayoutRect) : canFit ctx (depth + 1) id rect = (do
      modify fun s => { s with nodeVisits := addVisits s.nodeVisits 1 }
      match kind with
      | .leaf window => (leafFits ctx window rect : Run LayoutError Bool)
      | .split axis _ first second =>
        if !ctx.exact then pure true
        else do
          let range ← feasibleBoundaryRange F (minimumExtent (canFit ctx depth)) axis first second rect
          pure range.isSome) := by
  rw [canFit, hk]
  rfl

theorem recorded_insert {s : BoundsState} (bounds : Option SubtreeLowerBounds)
    (hfresh : s.requirements.lookup id = none) : ∃ s', (match bounds with
        | none => .ok (none, s)
        | some value => .ok (some value, { s with requirements := s.requirements.insert id value }) :
          Run LayoutError (Option SubtreeLowerBounds × BoundsState)) = .ok (bounds, s') ∧
      s'.requirements.lookup id = bounds ∧ ∀ i, i ≠ id → s'.requirements.lookup i = s.requirements.lookup i := by
  cases bounds with
  | none => exact ⟨s, rfl, hfresh, fun i _ => rfl⟩
  | some value =>
    refine ⟨_, rfl, ?_, fun i hi => ?_⟩
    · rw [HashMap.lookup_insert, if_pos rfl]
    · rw [HashMap.lookup_insert, if_neg hi]

theorem aggregateLowerBounds_spec (snapshots : Snapshots F) {T : Topology F}
    {depth : ℕ} {s : BoundsState} (hden : Denotes t.nodes parent T) (hnd : T.ids.Nodup) (hdepth : T.height ≤ depth)
    (hfresh : ∀ i ∈ T.ids, s.requirements.lookup i = none) : match T.lowerBounds snapshots with
    | .error e => aggregateLowerBounds t snapshots depth T.id s = .error e
    | .ok bounds => ∃ s', aggregateLowerBounds t snapshots depth T.id s = .ok (bounds, s') ∧
        T.Recorded snapshots s'.requirements ∧
        ∀ i, i ∉ T.ids → s'.requirements.lookup i = s.requirements.lookup i := by
  induction T generalizing parent depth s with
  | leaf id window =>
    obtain ⟨depth, rfl⟩ := Topology.exists_depth hdepth
    rw [Topology.id, aggregateLowerBounds, hden.nodeKind_leaf]
    have hid : s.requirements.lookup id = none := hfresh id (by simp [Topology.ids])
    cases hs : snapshots.lookup window with
    | none => simp [Topology.lowerBounds, hs, Run.okOr, Run.fail]
    | some snapshot =>
      cases hm : snapshot.minimized with
      | true =>
        simp only [Topology.lowerBounds, hs, hm, Run.okOr_some, Run.ok_bind, if_true]
        exact ⟨_, rfl, by simp [Topology.Recorded, Topology.lowerBounds, hs, hm, hid], fun i _ => rfl⟩
      | false =>
        cases hb : snapshot.constraints.independentLowerBounds with
        | error e =>
          simp [Topology.lowerBounds, hs, hm, hb, Run.fail]
        | ok pair =>
          simp only [Topology.lowerBounds, hs, hm, hb, Run.okOr_some, Run.ok_bind, if_false,
            Bool.false_eq_true]
          refine ⟨_, rfl, ?_, fun i hi => ?_⟩
          · simp [Topology.Recorded, Topology.lowerBounds, hs, hm, hb]
          · rw [HashMap.lookup_insert, if_neg (by simpa [Topology.ids] using hi)]
  | split id axis ratio first second ih₁ ih₂ =>
    obtain ⟨depth, rfl, hsides⟩ := Topology.exists_depth_split hdepth
    -- neither side touches the entries of the other, nor that of this node
    have hkind := hden.nodeKind_split
    obtain ⟨-, hden₁, hden₂⟩ := hden
    simp only [Topology.ids, List.nodup_cons, List.mem_append, not_or, List.nodup_append] at hnd
    obtain ⟨⟨hid₁, hid₂⟩, hnd₁, hnd₂, hdis⟩ := hnd
    simp only [Topology.ids, List.mem_cons, List.mem_append] at hfresh
    rw [Topology.id, aggregateLowerBounds, hkind]
    simp only [Run.okOr_some, Run.ok_bind]
    set s₀ : BoundsState := { s with nodeVisits := addVisits s.nodeVisits 1 }
    have h₁ := ih₁ hden₁ hnd₁ hsides.1 (s := s₀) fun i hi => hfresh i (.inr (.inl hi))
    rw [Topology.lowerBounds]
    cases hb₁ : first.lowerBounds snapshots with
    | error e =>
      simp only [hb₁] at h₁
      simp [h₁]
    | ok a =>
      simp only [hb₁] at h₁
      obtain ⟨s₁, hrun₁, hrec₁, hframe₁⟩ := h₁
      have h₂ := ih₂ hden₂ hnd₂ hsides.2 (s := s₁) fun i hi => by
        rw [hframe₁ i fun h => hdis i h i hi rfl]
        exact hfresh i (.inr (.inr hi))
      cases hb₂ : second.lowerBounds snapshots with
      | error e =>
        simp only [hb₂] at h₂
        simp [hrun₁, h₂]
      | ok b =>
        simp only [hb₂] at h₂
        obtain ⟨s₂, hrun₂, hrec₂, hframe₂⟩ := h₂
        have hid : s₂.requirements.lookup id = none := by
          rw [hframe₂ id hid₂, hframe₁ id hid₁]
          exact hfresh id (.inl rfl)
        obtain ⟨s₃, hrun₃, hlook, hframe₃⟩ := recorded_insert (combineBounds axis a b) hid
        simp only [hrun₁, hrun₂, Run.ok_bind]
        refine ⟨s₃, hrun₃, ⟨?_, ?_, ?_⟩, fun i hi => ?_⟩
        · simp [Topology.lowerBounds, hb₁, hb₂, hlook]
        · refine hrec₁.congr fun i hi => ?_
          rw [hframe₃ i (by rintro rfl; exact hid₁ hi), hframe₂ i fun h => hdis i hi i h rfl]
        · exact hrec₂.congr fun i hi => hframe₃ i (by rintro rfl; exact hid₂ hi)
        · simp only [Topology.ids, List.mem_cons, List.mem_append, not_or] at hi
          rw [hframe₃ i hi.1, hframe₂ i hi.2.2, hframe₁ i hi.2.1]

end Typhon.Layout
