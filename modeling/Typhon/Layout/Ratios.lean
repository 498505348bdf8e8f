import Typhon.Layout.Resolve

/-! Trees that differ in the ratios they store. -/

namespace Typhon.Layout
open Foundation

variable {F : Type} [Float64 F]

def DwindleNodeKind.withRatio (ratio : SplitRatio F) : DwindleNodeKind F → DwindleNodeKind F
  | .leaf window => .leaf window
  | .split axis _ first second => .split axis ratio first second

def DwindleTree.withRatios (ratios : DwindleNodeId → SplitRatio F) (t : DwindleTree F) : DwindleTree F :=
  { t with nodes := t.nodes.mapNodes fun id node => { node with kind := node.kind.withRatio (ratios id) } }

namespace Topology

def withRatios (ratios : DwindleNodeId → SplitRatio F) : Topology F → Topology F
  | leaf id window => leaf id window
  | split id axis _ first second => split id axis (ratios id) (first.withRatios ratios) (second.withRatios ratios)

variable (ratios : DwindleNodeId → SplitRatio F) (T : Topology F)

@[simp] theorem withRatios_id : (T.withRatios ratios).id = T.id := by
  cases T <;> rfl

@[simp] theorem withRatios_ids : (T.withRatios ratios).ids = T.ids := by
  induction T with
  | leaf => rfl
  | split id axis ratio first second ih₁ ih₂ => rw [withRatios, ids, ih₁, ih₂, ids]

@[simp] theorem withRatios_windows : (T.withRatios ratios).windows = T.windows := by
  induction T with
  | leaf => rfl
  | split id axis ratio first second ih₁ ih₂ => rw [withRatios, windows, ih₁, ih₂, windows]

@[simp] theorem withRatios_addLeaves (m : HashMap WindowId DwindleNodeId) :
    (T.withRatios ratios).addLeaves m = T.addLeaves m := by
  induction T generalizing m with
  | leaf => rfl
  | split id axis ratio first second ih₁ ih₂ => rw [withRatios, addLeaves, ih₁, ih₂, addLeaves]

@[simp] theorem withRatios_active (snapshots : Snapshots F) (T : Topology F) :
    (T.withRatios ratios).active snapshots = T.active snapshots := by
  rw [active, withRatios_windows, active]

theorem withRatios_congr {ratios ratios' : DwindleNodeId → SplitRatio F} {T : Topology F}
    (h : ∀ i ∈ T.ids, ratios i = ratios' i) : T.withRatios ratios = T.withRatios ratios' := by
  induction T with
  | leaf => rfl
  | split id axis ratio first second ih₁ ih₂ =>
    rw [withRatios, withRatios, h id (by simp [ids]), ih₁ fun i hi => h i (by simp [ids, hi]),
      ih₂ fun i hi => h i (by simp [ids, hi])]

theorem withRatios_update {ratios : DwindleNodeId → SplitRatio F} {T : Topology F} {id : DwindleNodeId}
    (h : id ∉ T.ids) (ratio : SplitRatio F) :
    T.withRatios (Function.update ratios id ratio) = T.withRatios ratios :=
  withRatios_congr fun i hi => by rw [Function.update_of_ne (by rintro rfl; exact h hi)]

end Topology

theorem Denotes.withRatios {nodes : DwindleArena F} {parent : Option DwindleNodeId} {T : Topology F}
    (ratios : DwindleNodeId → SplitRatio F) (h : Denotes nodes parent T) :
    Denotes (nodes.mapNodes fun id node => { node with kind := node.kind.withRatio (ratios id) }) parent
      (T.withRatios ratios) := by
  induction T generalizing parent with
  | leaf id window =>
    rw [Topology.withRatios, Denotes, Arena.get_mapNodes, show nodes.get id = _ from h]
    rfl
  | split id axis ratio first second ih₁ ih₂ =>
    refine ⟨?_, ih₁ h.2.1, ih₂ h.2.2⟩
    rw [Arena.get_mapNodes, h.1, Topology.withRatios_id, Topology.withRatios_id]
    rfl

theorem DwindleTree.Shape.withRatios {t : DwindleTree F} {T : Topology F}
    (ratios : DwindleNodeId → SplitRatio F) (h : t.Shape T) : (t.withRatios ratios).Shape (T.withRatios ratios) where
  root := by rw [Topology.withRatios_id]; exact h.root
  denotes := h.denotes.withRatios ratios
  ids_nodup := by rw [Topology.withRatios_ids]; exact h.ids_nodup
  no_orphan := fun i hi => by
    rw [DwindleTree.withRatios, Arena.get_mapNodes, Option.isSome_map] at hi
    rw [Topology.withRatios_ids]
    exact h.no_orphan i hi
  windows_nodup := by rw [Topology.withRatios_windows]; exact h.windows_nodup
  byWindow := by rw [Topology.withRatios_addLeaves]; exact h.byWindow
  order := by rw [Topology.withRatios_windows]; exact h.order

def DwindleTree.storedRatio (t : DwindleTree F) (id : DwindleNodeId) : SplitRatio F :=
  match t.nodeKind id with
  | some (.split _ ratio _ _) => ratio
  | _ => SplitRatio.default

theorem DwindleTree.withRatios_storedRatio (t : DwindleTree F) : t.withRatios t.storedRatio = t := by
  have key : t.nodes.mapNodes (fun id node => { node with kind := node.kind.withRatio (t.storedRatio id) }) =
      t.nodes := by
    refine Arena.mapNodes_eq_self fun id node h => ?_
    obtain ⟨parent, kind⟩ := node
    cases kind with
    | leaf window => rfl
    | split axis ratio first second => simp [storedRatio, nodeKind, h, DwindleNodeKind.withRatio]
  rw [withRatios, key]

theorem Placed.choose_ratio {snapshots : Snapshots F} {limits : Limits F} {id : DwindleNodeId} {axis : SplitAxis}
    {ratio : SplitRatio F} {first second : Topology F} {rect : LayoutRect} {pair : I32 × I32}
    (hnd : (Topology.split id axis ratio first second).ids.Nodup) (h₁ : first.active snapshots ≠ [])
    (h₂ : second.active snapshots ≠ [])
    (hlim : ∀ ratios p, limits axis (first.withRatios ratios) (second.withRatios ratios) rect p → p = pair)
    (h : ∀ ratios, ∃ targets,
      Placed snapshots ∅ limits ((Topology.split id axis ratio first second).withRatios ratios) rect targets)
    (preferred : SplitRatio F) : ∃ r₁ r₂, SplitsInto axis preferred pair rect r₁ r₂ ∧ ∀ ratios,
      (∃ targets, Placed snapshots ∅ limits (first.withRatios ratios) r₁ targets) ∧
      ∃ targets, Placed snapshots ∅ limits (second.withRatios ratios) r₂ targets := by
  simp only [Topology.ids, List.nodup_cons, List.mem_append, not_or] at hnd
  have hstep : ∀ ratios, ∃ r₁ r₂ targets₁ targets₂, SplitsInto axis preferred pair rect r₁ r₂ ∧
      Placed snapshots ∅ limits (first.withRatios ratios) r₁ targets₁ ∧
      Placed snapshots ∅ limits (second.withRatios ratios) r₂ targets₂ := by
    intro ratios
    obtain ⟨targets, hp⟩ := h (Function.update ratios id preferred)
    obtain ⟨p, r₁, r₂, targets₁, targets₂, hl, hs, hp₁, hp₂⟩ :=
      hp.sides (by simpa using h₁) (by simpa using h₂)
    obtain rfl := hlim _ p hl
    rw [Function.update_self, HashMap.lookup_empty, Option.getD_none] at hs
    rw [Topology.withRatios_update hnd.1.1] at hp₁
    rw [Topology.withRatios_update hnd.1.2] at hp₂
    exact ⟨r₁, r₂, targets₁, targets₂, hs, hp₁, hp₂⟩
  obtain ⟨r₁, r₂, _, _, hs, -, -⟩ := hstep fun _ => SplitRatio.default
  refine ⟨r₁, r₂, hs, fun ratios => ?_⟩
  obtain ⟨r₁', r₂', targets₁, targets₂, hs', hp₁, hp₂⟩ := hstep ratios
  obtain ⟨rfl, rfl⟩ := hs.unique hs'
  exact ⟨⟨targets₁, hp₁⟩, targets₂, hp₂⟩

end Typhon.Layout
