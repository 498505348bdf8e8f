import Typhon.Layout.Topology

/-! A tree seen from one of its subtrees: the frames from the subtree up to the root, and what the
link updates of the arena do to them. -/

namespace Typhon.Layout
open Foundation

variable {F : Type} [Float64 F]

structure Frame (F : Type) [Float64 F] where
  id : DwindleNodeId
  axis : SplitAxis
  ratio : SplitRatio F
  holeFirst : Bool
  sibling : Topology F

namespace Frame

variable (f : Frame F)

def fill (T : Topology F) : Topology F :=
  if f.holeFirst then .split f.id f.axis f.ratio T f.sibling
  else .split f.id f.axis f.ratio f.sibling T

def kind (child : DwindleNodeId) : DwindleNodeKind F :=
  if f.holeFirst then .split f.axis f.ratio child f.sibling.id
  else .split f.axis f.ratio f.sibling.id child

@[simp] theorem fill_id (T : Topology F) : (f.fill T).id = f.id := by
  unfold fill
  split_ifs <;> rfl

theorem fill_ids (T : Topology F) : (f.fill T).ids.Perm (T.ids ++ (f.id :: f.sibling.ids)) := by
  have h : (f.fill T).ids.Perm (f.id :: (T.ids ++ f.sibling.ids)) := by
    unfold fill
    split_ifs
    · exact .refl _
    · exact .cons _ List.perm_append_comm
  exact h.trans List.perm_middle.symm

theorem fill_leaves (T : Topology F) : (f.fill T).leaves.Perm (T.leaves ++ f.sibling.leaves) := by
  unfold fill
  split_ifs
  · exact .refl _
  · exact List.perm_append_comm

theorem denotes_fill {nodes : DwindleArena F} {parent : Option DwindleNodeId} {f : Frame F}
    {T : Topology F} : Denotes nodes parent (f.fill T) ↔
      nodes.get f.id = some ⟨parent, f.kind T.id⟩ ∧ Denotes nodes (some f.id) f.sibling ∧
        Denotes nodes (some f.id) T := by
  unfold fill kind
  split_ifs
  · rw [Denotes]
    exact and_congr_right fun _ => and_comm
  · rw [Denotes]

end Frame

def plug : List (Frame F) → Topology F → Topology F
  | [], T => T
  | f :: c, T => plug c (f.fill T)

variable (c : List (Frame F))

def holeParent : Option DwindleNodeId := c.head?.map Frame.id

def frameIds : List DwindleNodeId :=
  c.flatMap fun f => f.id :: f.sibling.ids

def frameLeaves : List (WindowId × DwindleNodeId) :=
  c.flatMap fun f => f.sibling.leaves

def DenotesFrames (nodes : DwindleArena F) : List (Frame F) → DwindleNodeId → Prop
  | [], _ => True
  | f :: c, child =>
    nodes.get f.id = some ⟨holeParent c, f.kind child⟩ ∧ Denotes nodes (some f.id) f.sibling ∧
      DenotesFrames nodes c f.id

theorem plug_id_congr {T S : Topology F} (h : T.id = S.id) : (plug c T).id = (plug c S).id := by
  induction c generalizing T S with
  | nil => exact h
  | cons f c ih => exact ih (by simp)

theorem ids_plug (T : Topology F) : (plug c T).ids.Perm (T.ids ++ frameIds c) := by
  induction c generalizing T with
  | nil => simp [plug, frameIds]
  | cons f c ih =>
    have h := (ih (f.fill T)).trans ((f.fill_ids T).append_right _)
    simpa [plug, frameIds] using h

theorem leaves_plug (T : Topology F) : (plug c T).leaves.Perm (T.leaves ++ frameLeaves c) := by
  induction c generalizing T with
  | nil => simp [plug, frameLeaves]
  | cons f c ih =>
    have h := (ih (f.fill T)).trans ((f.fill_leaves T).append_right _)
    simpa [plug, frameLeaves] using h

variable {T : Topology F} {c : List (Frame F)} {nodes : DwindleArena F}

theorem denotes_plug : Denotes nodes none (plug c T) ↔
      DenotesFrames nodes c T.id ∧ Denotes nodes (holeParent c) T := by
  induction c generalizing T with
  | nil => simp [plug, DenotesFrames, holeParent]
  | cons f c ih =>
    rw [plug, ih, Frame.denotes_fill, DenotesFrames, Frame.fill_id,
      show holeParent (f :: c) = some f.id from rfl]
    tauto

theorem exists_plug_leaf {w : WindowId} {i : DwindleNodeId}
    (h : (w, i) ∈ T.leaves) : ∃ c, T = plug c (.leaf i w) := by
  have key : ∀ c : List (Frame F), ∃ c', plug c T = plug c' (.leaf i w) := by
    induction T with
    | leaf id window =>
      intro c
      simp only [Topology.leaves, List.mem_singleton, Prod.mk.injEq] at h
      exact ⟨c, by rw [h.1, h.2]⟩
    | split id axis ratio first second ih₁ ih₂ =>
      intro c
      obtain h | h := List.mem_append.mp h
      · exact ih₁ h (⟨id, axis, ratio, true, second⟩ :: c)
      · exact ih₂ h (⟨id, axis, ratio, false, first⟩ :: c)
  exact key []

theorem DenotesFrames.congr {nodes nodes' : DwindleArena F}
    {child : DwindleNodeId} (h : DenotesFrames nodes c child)
    (heq : ∀ i ∈ frameIds c, nodes'.get i = nodes.get i) : DenotesFrames nodes' c child := by
  induction c generalizing child with
  | nil => trivial
  | cons f c ih =>
    obtain ⟨hf, hs, hc⟩ := h
    have hmem : ∀ i, i = f.id ∨ i ∈ f.sibling.ids ∨ i ∈ frameIds c → i ∈ frameIds (f :: c) :=
      fun i hi => by simpa [frameIds, or_assoc] using hi
    refine ⟨(heq _ (hmem _ (.inl rfl))).trans hf, hs.congr fun i hi => heq i (hmem i (.inr (.inl hi))),
      ih hc fun i hi => heq i (hmem i (.inr (.inr hi)))⟩

theorem Denotes.reparent {nodes nodes' : DwindleArena F} {p p' : Option DwindleNodeId}
    (h : Denotes nodes p T) (hnd : T.ids.Nodup)
    (htop : ∀ kind, nodes.get T.id = some ⟨p, kind⟩ → nodes'.get T.id = some ⟨p', kind⟩)
    (heq : ∀ i ∈ T.ids, i ≠ T.id → nodes'.get i = nodes.get i) : Denotes nodes' p' T := by
  cases T with
  | leaf id window => exact htop _ h
  | split id axis ratio first second =>
    obtain ⟨hid, h₁, h₂⟩ := h
    simp only [Topology.ids, List.nodup_cons, List.mem_append, not_or] at hnd
    have hne : ∀ i, i ∈ first.ids ∨ i ∈ second.ids → nodes'.get i = nodes.get i := by
      intro i hi
      refine heq i (by simpa [Topology.ids] using .inr hi) ?_
      rintro rfl
      exact hi.elim hnd.1.1 hnd.1.2
    exact ⟨htop _ hid, h₁.congr fun i hi => hne i (.inl hi), h₂.congr fun i hi => hne i (.inr hi)⟩

/-! ### Link updates -/

theorem setParent_eq {message : String} {id : DwindleNodeId}
    {node : DwindleNode F} (h : nodes.get id = some node) (parent : Option DwindleNodeId) :
    setParent message nodes id parent = .ok (nodes.set id { node with parent := parent }) := by
  rw [setParent, h, Run.expect_some, Run.ok_bind]

theorem replaceChild_frame {f : Frame F} {p : Option DwindleNodeId}
    {old : DwindleNodeId} (h : nodes.get f.id = some ⟨p, f.kind old⟩) (hne : f.sibling.id ≠ old)
    (new : DwindleNodeId) : replaceChild nodes f.id old new = .ok (nodes.set f.id ⟨p, f.kind new⟩) := by
  rw [replaceChild, h, Run.expect_some, Run.ok_bind]
  unfold Frame.kind
  split_ifs
  · simp
  · simp [hne]

theorem relink_frames {T S : Topology F}
    (h : DenotesFrames nodes c T.id) (hnd : (frameIds c).Nodup) (hT : T.id ∉ frameIds c) :
    ∃ nodes', relink (some (plug c T).id) nodes (holeParent c) T.id S.id =
        .ok (some (plug c S).id, nodes') ∧ Arena.Evolves nodes nodes' ∧
      DenotesFrames nodes' c S.id ∧ (∀ i ∉ frameIds c, nodes'.get i = nodes.get i) ∧
      ∀ i, (nodes'.get i).isSome ↔ (nodes.get i).isSome := by
  cases c with
  | nil => exact ⟨nodes, rfl, .refl, trivial, fun _ _ => rfl, fun _ => Iff.rfl⟩
  | cons f c =>
    obtain ⟨hf, hs, hc⟩ := h
    simp only [frameIds, List.flatMap_cons, List.cons_append, List.nodup_cons, List.mem_append,
      List.mem_cons, not_or] at hnd hT
    have hne : f.sibling.id ≠ T.id := fun he => hT.2.1 (he ▸ f.sibling.id_mem_ids)
    have hget := Arena.get_set hf ⟨holeParent c, f.kind S.id⟩
    have hother : ∀ i, i ≠ f.id → (nodes.set f.id ⟨holeParent c, f.kind S.id⟩).get i = nodes.get i :=
      fun i hi => by rw [hget, if_neg hi]
    refine ⟨nodes.set f.id ⟨holeParent c, f.kind S.id⟩, ?_, (Arena.Step.set hf _).evolves,
      ⟨by rw [hget, if_pos rfl], hs.congr fun i hi => hother i ?_, hc.congr fun i hi => hother i ?_⟩,
      fun i hi => hother i ?_, fun i => ?_⟩
    · rw [show holeParent (f :: c) = some f.id from rfl, relink, replaceChild_frame hf hne,
        Run.ok_bind, plug, plug, plug_id_congr c (S := f.fill S) (by simp)]
    · rintro rfl
      exact hnd.1.1 hi
    · rintro rfl
      exact hnd.1.2 hi
    · rintro rfl
      exact hi (by simp [frameIds])
    · rw [hget]
      split_ifs with hi
      · simp [hi, hf]
      · exact Iff.rfl

end Typhon.Layout
