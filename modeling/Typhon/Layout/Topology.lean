import Typhon.Layout.Dwindle

/-! The tree that a well-formed arena denotes, and the validator of the arena. -/

namespace Typhon.Layout
open Foundation

variable {F : Type} [Float64 F]

/-! ### The validator -/

structure ValidationState where
  visited : Finset DwindleNodeId
  leaves : HashMap WindowId DwindleNodeId

def validateNode (nodes : DwindleArena F) :
    ℕ → DwindleNodeId → Option DwindleNodeId → ValidationState → Run String ValidationState
  | 0, _, _, _ => Run.diverge
  | fuel + 1, id, expectedParent, s =>
    if id ∈ s.visited then Run.fail "cycle or duplicate child"
    else do
      let s := { s with visited := insert id s.visited }
      let node ← Run.okOr "child points at a stale node" (nodes.get id)
      if node.parent ≠ expectedParent then Run.fail "parent link mismatch"
      else
        match node.kind with
        | .leaf window =>
          if window ∈ s.leaves then Run.fail "duplicate window leaf"
          else .ok { s with leaves := s.leaves.insert window id }
        | .split _ ratio first second =>
          if first = second ∨ (SplitRatio.new ratio.value).isNone then
            Run.fail "invalid split node"
          else do
            let s ← validateNode nodes fuel first (some id) s
            validateNode nodes fuel second (some id) s

def DwindleTree.debugValidate (t : DwindleTree F) : Run String Unit :=
  match t.root with
  | none =>
    if t.nodes.liveCount ≠ 0 ∨ t.byWindow ≠ ∅ ∨ t.insertionOrder ≠ [] then
      Run.fail "empty tree retains live nodes or windows"
    else .ok ()
  | some root =>
    match t.nodes.get root with
    | none => Run.fail "root is stale"
    | some node =>
      if node.parent.isSome then Run.fail "root has a parent"
      else do
        -- every nested call visits a further live node, so the slot count bounds the depth
        let s ← validateNode t.nodes (t.nodes.slots.length + 1) root none ⟨∅, ∅⟩
        if s.visited.card ≠ t.nodes.liveCount then Run.fail "tree contains an orphan live node"
        else if s.leaves ≠ t.byWindow then Run.fail "by_window does not match leaf membership"
        else if t.insertionOrder.length ≠ s.leaves.len ∨
            t.insertionOrder.toFinset.card ≠ t.insertionOrder.length ∨
            (t.insertionOrder.any fun window => decide (window ∉ s.leaves)) = true then
          Run.fail "insertion order does not match leaves"
        else .ok ()

def DwindleTree.WellFormed (t : DwindleTree F) : Prop := t.debugValidate = .ok ()

/-! ### Trees -/

inductive Topology (F : Type) [Float64 F] where
  | leaf (id : DwindleNodeId) (window : WindowId)
  | split (id : DwindleNodeId) (axis : SplitAxis) (ratio : SplitRatio F)
      (first second : Topology F)

namespace Topology

def id : Topology F → DwindleNodeId
  | leaf id _ => id
  | split id _ _ _ _ => id

def ids : Topology F → List DwindleNodeId
  | leaf id _ => [id]
  | split id _ _ first second => id :: (first.ids ++ second.ids)

def windows : Topology F → List WindowId
  | leaf _ window => [window]
  | split _ _ _ first second => first.windows ++ second.windows

def leaves : Topology F → List (WindowId × DwindleNodeId)
  | leaf id window => [(window, id)]
  | split _ _ _ first second => first.leaves ++ second.leaves

def height : Topology F → ℕ
  | leaf _ _ => 1
  | split _ _ _ first second => max first.height second.height + 1

def find (window : WindowId) : Topology F → Option DwindleNodeId
  | leaf id w => if window = w then some id else none
  | split _ _ _ first second => (first.find window).or (second.find window)

def addLeaves : Topology F → HashMap WindowId DwindleNodeId → HashMap WindowId DwindleNodeId
  | leaf id window, m => m.insert window id
  | split _ _ _ first second, m => second.addLeaves (first.addLeaves m)

@[simp] theorem id_leaf (id : DwindleNodeId) (window : WindowId) : (leaf id window : Topology F).id = id := rfl

@[simp] theorem id_split (id : DwindleNodeId) (axis : SplitAxis) (ratio : SplitRatio F)
    (first second : Topology F) : (split id axis ratio first second).id = id := rfl

theorem id_mem_ids (T : Topology F) : T.id ∈ T.ids := by
  cases T <;> simp [id, ids]

theorem windows_ne_nil (T : Topology F) : T.windows ≠ [] := by
  induction T with
  | leaf => simp [windows]
  | split id axis ratio first second ih₁ _ => simp [windows, ih₁]

theorem height_le (T : Topology F) : T.height ≤ T.ids.length := by
  induction T with
  | leaf => simp [height, ids]
  | split id axis ratio first second ih₁ ih₂ =>
    simp only [height, ids, List.length_cons, List.length_append]
    omega

variable {w : WindowId} {T : Topology F}

theorem find_isSome : (T.find w).isSome ↔ w ∈ T.windows := by
  induction T with
  | leaf id window => by_cases h : w = window <;> simp [find, windows, h]
  | split id axis ratio first second ih₁ ih₂ => simp [find, windows, ih₁, ih₂]

theorem find_eq_none : T.find w = none ↔ w ∉ T.windows := by
  rw [← find_isSome, Option.not_isSome_iff_eq_none]

theorem lookup_addLeaves (hnd : T.windows.Nodup) (m : HashMap WindowId DwindleNodeId) (w : WindowId) :
    (T.addLeaves m).lookup w = (T.find w).or (m.lookup w) := by
  induction T generalizing m with
  | leaf id window =>
    rw [addLeaves, HashMap.lookup_insert, find]
    split_ifs <;> rfl
  | split id axis ratio first second ih₁ ih₂ =>
    rw [windows, List.nodup_append] at hnd
    rw [addLeaves, ih₂ hnd.2.1, ih₁ hnd.1, find, ← Option.or_assoc]
    congr 1
    cases h₁ : first.find w with
    | none => simp
    | some i =>
      have hw : w ∉ second.windows := fun h₂ =>
        hnd.2.2 w (find_isSome.mp (by simp [h₁])) w h₂ rfl
      rw [find_eq_none.mpr hw]
      rfl

theorem map_leaves (T : Topology F) : T.leaves.map Prod.fst = T.windows := by
  induction T with
  | leaf => rfl
  | split id axis ratio first second ih₁ ih₂ => rw [leaves, List.map_append, ih₁, ih₂, windows]

theorem mem_windows_of_leaf {i : DwindleNodeId} (h : (w, i) ∈ T.leaves) : w ∈ T.windows := by
  rw [← map_leaves]
  exact List.mem_map_of_mem h

theorem find_eq_some (hnd : T.windows.Nodup) {i : DwindleNodeId} : T.find w = some i ↔ (w, i) ∈ T.leaves := by
  induction T with
  | leaf id window =>
    simp only [find, leaves, List.mem_singleton, Prod.mk.injEq]
    split_ifs with h <;> simp [h, eq_comm]
  | split id axis ratio first second ih₁ ih₂ =>
    rw [windows, List.nodup_append] at hnd
    rw [find, leaves, List.mem_append, Option.or_eq_some_iff, ih₁ hnd.1, ih₂ hnd.2.1, find_eq_none]
    refine or_congr_right ⟨fun h => h.2, fun h => ⟨fun hw => ?_, h⟩⟩
    exact hnd.2.2 w hw w (mem_windows_of_leaf h) rfl

theorem eq_addLeaves_iff (hnd : T.windows.Nodup) {m : HashMap WindowId DwindleNodeId} :
    m = T.addLeaves ∅ ↔ ∀ w i, m.lookup w = some i ↔ (w, i) ∈ T.leaves := by
  have hlook : ∀ w, (T.addLeaves ∅).lookup w = T.find w := fun w => by
    rw [lookup_addLeaves hnd, HashMap.lookup_empty, Option.or_none]
  constructor
  · rintro rfl w i
    rw [hlook, find_eq_some hnd]
  · intro h
    refine Finmap.ext_lookup fun w => Option.ext fun i => ?_
    rw [hlook, find_eq_some hnd]
    exact h w i

theorem mem_addLeaves (hnd : T.windows.Nodup) {m : HashMap WindowId DwindleNodeId} :
    w ∈ T.addLeaves m ↔ w ∈ T.windows ∨ w ∈ m := by
  rw [← Finmap.lookup_isSome, lookup_addLeaves hnd, Option.isSome_or, Bool.or_eq_true, find_isSome,
    Finmap.lookup_isSome]

end Topology

def Denotes (nodes : DwindleArena F) : Option DwindleNodeId → Topology F → Prop
  | parent, .leaf id window => nodes.get id = some ⟨parent, .leaf window⟩
  | parent, .split id axis ratio first second =>
    nodes.get id = some ⟨parent, .split axis ratio first.id second.id⟩ ∧
      Denotes nodes (some id) first ∧ Denotes nodes (some id) second

variable {T : Topology F} {parent : Option DwindleNodeId}

theorem Denotes.congr {nodes nodes' : DwindleArena F} (h : Denotes nodes parent T)
    (heq : ∀ i ∈ T.ids, nodes'.get i = nodes.get i) : Denotes nodes' parent T := by
  induction T generalizing parent with
  | leaf id window =>
    rw [Denotes, heq id (by simp [Topology.ids])]
    exact h
  | split id axis ratio first second ih₁ ih₂ =>
    obtain ⟨hid, h₁, h₂⟩ := h
    rw [Denotes, heq id (by simp [Topology.ids])]
    exact ⟨hid, ih₁ h₁ fun i hi => heq i (by simp [Topology.ids, hi]),
      ih₂ h₂ fun i hi => heq i (by simp [Topology.ids, hi])⟩

variable {nodes : DwindleArena F}

theorem Denotes.live (h : Denotes nodes parent T) : ∀ i ∈ T.ids, (nodes.get i).isSome := by
  induction T generalizing parent with
  | leaf id window =>
    intro i hi
    rw [Topology.ids, List.mem_singleton] at hi
    subst hi
    rw [show nodes.get i = _ from h]
    rfl
  | split id axis ratio first second ih₁ ih₂ =>
    obtain ⟨hid, h₁, h₂⟩ := h
    intro i hi
    rw [Topology.ids, List.mem_cons, List.mem_append] at hi
    obtain rfl | hi | hi := hi
    · rw [hid]
      rfl
    · exact ih₁ h₁ i hi
    · exact ih₂ h₂ i hi

theorem Denotes.get_id (h : Denotes nodes parent T) : ∃ kind, nodes.get T.id = some ⟨parent, kind⟩ := by
  cases T with
  | leaf id window => exact ⟨_, h⟩
  | split id axis ratio first second => exact ⟨_, h.1⟩

structure DwindleTree.Shape (t : DwindleTree F) (T : Topology F) : Prop where
  root : t.root = some T.id
  denotes : Denotes t.nodes none T
  ids_nodup : T.ids.Nodup
  no_orphan : ∀ i, (t.nodes.get i).isSome → i ∈ T.ids
  windows_nodup : T.windows.Nodup
  byWindow : t.byWindow = T.addLeaves ∅
  order : t.insertionOrder.Perm T.windows

structure DwindleTree.IsEmpty (t : DwindleTree F) : Prop where
  root : t.root = none
  no_node : ∀ i, t.nodes.get i = none
  byWindow : t.byWindow = ∅
  order : t.insertionOrder = []

/-! ### The validator accepts exactly the denoted trees -/

structure Visitable (s : ValidationState) (T : Topology F) : Prop where
  ids_nodup : T.ids.Nodup
  unvisited : ∀ i ∈ T.ids, i ∉ s.visited
  windows_nodup : T.windows.Nodup
  unseen : ∀ w ∈ T.windows, w ∉ s.leaves

def ValidationState.visit (s : ValidationState) (T : Topology F) : ValidationState :=
  ⟨s.visited ∪ T.ids.toFinset, T.addLeaves s.leaves⟩

def ValidationState.enter (s : ValidationState) (id : DwindleNodeId) : ValidationState :=
  { s with visited := insert id s.visited }

variable {id : DwindleNodeId} {s : ValidationState}

theorem visitable_leaf {window : WindowId} :
    Visitable s (.leaf id window : Topology F) ↔ id ∉ s.visited ∧ window ∉ s.leaves := by
  constructor
  · intro h
    exact ⟨h.unvisited id (by simp [Topology.ids]), h.unseen window (by simp [Topology.windows])⟩
  · rintro ⟨h₁, h₂⟩
    exact ⟨by simp [Topology.ids], by simpa [Topology.ids] using h₁,
      by simp [Topology.windows], by simpa [Topology.windows] using h₂⟩

theorem visitable_split {axis : SplitAxis} {ratio : SplitRatio F} {first second : Topology F} :
    Visitable s (.split id axis ratio first second) ↔ id ∉ s.visited ∧
      Visitable (s.enter id) first ∧ Visitable ((s.enter id).visit first) second := by
  constructor
  · rintro ⟨hids, hvis, hws, huns⟩
    simp only [Topology.ids, List.nodup_cons, List.nodup_append, List.mem_append, List.mem_cons,
      not_or] at hids hvis
    simp only [Topology.windows, List.nodup_append, List.mem_append] at hws huns
    obtain ⟨⟨hid₁, hid₂⟩, hn₁, hn₂, hdisj⟩ := hids
    refine ⟨hvis id (.inl rfl), ⟨hn₁, fun i hi => ?_, hws.1, fun w hw => huns w (.inl hw)⟩,
      hn₂, fun i hi => ?_, hws.2.1, fun w hw => ?_⟩
    · rw [ValidationState.enter, Finset.mem_insert, not_or]
      exact ⟨fun h => hid₁ (h ▸ hi), hvis i (.inr (.inl hi))⟩
    · rw [ValidationState.visit, ValidationState.enter, Finset.mem_union, Finset.mem_insert,
        List.mem_toFinset, not_or, not_or]
      exact ⟨⟨fun h => hid₂ (h ▸ hi), hvis i (.inr (.inr hi))⟩, fun h => hdisj i h i hi rfl⟩
    · rw [ValidationState.visit, Topology.mem_addLeaves hws.1, not_or]
      exact ⟨fun h => hws.2.2 w h w hw rfl, huns w (.inr hw)⟩
  · rintro ⟨hid, h₁, h₂⟩
    have hvis₁ : ∀ i ∈ first.ids, i ≠ id ∧ i ∉ s.visited := fun i hi => by
      simpa [ValidationState.enter] using h₁.unvisited i hi
    have hvis₂ : ∀ i ∈ second.ids, i ≠ id ∧ i ∉ s.visited ∧ i ∉ first.ids := fun i hi => by
      simpa [ValidationState.enter, ValidationState.visit] using h₂.unvisited i hi
    have huns₂ : ∀ w ∈ second.windows, w ∉ first.windows ∧ w ∉ s.leaves := fun w hw => by
      have := h₂.unseen w hw
      rwa [ValidationState.visit, Topology.mem_addLeaves h₁.windows_nodup, not_or] at this
    refine ⟨?_, ?_, ?_, ?_⟩
    · rw [Topology.ids, List.nodup_cons, List.nodup_append, List.mem_append, not_or]
      exact ⟨⟨fun h => (hvis₁ id h).1 rfl, fun h => (hvis₂ id h).1 rfl⟩, h₁.ids_nodup, h₂.ids_nodup,
        fun a ha b hb hab => (hvis₂ b hb).2.2 (hab ▸ ha)⟩
    · intro i hi
      rw [Topology.ids, List.mem_cons, List.mem_append] at hi
      obtain rfl | hi | hi := hi
      · exact hid
      · exact (hvis₁ i hi).2
      · exact (hvis₂ i hi).2.1
    · rw [Topology.windows, List.nodup_append]
      exact ⟨h₁.windows_nodup, h₂.windows_nodup, fun a ha b hb hab => (huns₂ b hb).1 (hab ▸ ha)⟩
    · intro w hw
      rw [Topology.windows, List.mem_append] at hw
      exact hw.elim (h₁.unseen w) fun hw => (huns₂ w hw).2

theorem visit_split (s : ValidationState) (id : DwindleNodeId) (axis : SplitAxis)
    (ratio : SplitRatio F) (first second : Topology F) :
    s.visit (.split id axis ratio first second) = ((s.enter id).visit first).visit second := by
  simp only [ValidationState.visit, ValidationState.enter, Topology.ids, Topology.addLeaves,
    List.toFinset_cons, List.toFinset_append, Finset.insert_union, Finset.union_insert,
    Finset.union_assoc]

theorem visit_leaf (s : ValidationState) (id : DwindleNodeId) (window : WindowId) :
    s.visit (.leaf id window : Topology F) = ⟨insert id s.visited, s.leaves.insert window id⟩ := by
  simp [ValidationState.visit, Topology.ids, Topology.addLeaves]

theorem validateNode_sound {fuel : ℕ} {s s' : ValidationState} (h : validateNode nodes fuel id parent s = .ok s') :
    ∃ T : Topology F, T.id = id ∧ Denotes nodes parent T ∧ Visitable s T ∧ s' = s.visit T := by
  induction fuel generalizing id parent s s' with
  | zero => exact absurd h (by simp [validateNode, Run.diverge])
  | succ fuel ih =>
    rw [validateNode] at h
    split_ifs at h with hid
    · exact absurd h (by simp [Run.fail])
    obtain ⟨⟨nodeParent, kind⟩, hnode, hk⟩ := Run.bind_eq_ok.mp h
    rw [Run.okOr_eq_ok] at hnode
    split_ifs at hk with hparent
    · exact absurd hk (by simp [Run.fail])
    rw [not_not] at hparent
    subst hparent
    cases kind with
    | leaf window =>
      simp only at hk
      split_ifs at hk with hw
      · exact absurd hk (by simp [Run.fail])
      refine ⟨.leaf id window, rfl, hnode, visitable_leaf.mpr ⟨hid, hw⟩, ?_⟩
      rw [visit_leaf]
      exact (Except.ok.inj hk).symm
    | split axis ratio first second =>
      simp only at hk
      split_ifs at hk with hbad
      · exact absurd hk (by simp [Run.fail])
      obtain ⟨s₁, h₁, h₂⟩ := Run.bind_eq_ok.mp hk
      obtain ⟨T₁, rfl, hd₁, hv₁, rfl⟩ := ih h₁
      obtain ⟨T₂, rfl, hd₂, hv₂, rfl⟩ := ih h₂
      exact ⟨.split id axis ratio T₁ T₂, rfl, ⟨hnode, hd₁, hd₂⟩, visitable_split.mpr ⟨hid, hv₁, hv₂⟩,
        (visit_split s id axis ratio T₁ T₂).symm⟩

theorem validateNode_complete {fuel : ℕ} (hfuel : T.height ≤ fuel)
    (hd : Denotes nodes parent T) (hv : Visitable s T) :
    validateNode nodes fuel T.id parent s = .ok (s.visit T) := by
  induction T generalizing fuel parent s with
  | leaf id window =>
    obtain ⟨fuel, rfl⟩ : ∃ n, fuel = n + 1 := ⟨fuel - 1, by simp only [Topology.height] at hfuel; omega⟩
    obtain ⟨hid, hw⟩ := visitable_leaf.mp hv
    rw [Topology.id, validateNode, if_neg hid, show nodes.get id = _ from hd, Run.okOr_some, Run.ok_bind]
    simp only [ne_eq, not_true_eq_false, if_false, if_neg hw, visit_leaf]
  | split id axis ratio first second ih₁ ih₂ =>
    simp only [Topology.height] at hfuel
    obtain ⟨fuel, rfl⟩ : ∃ n, fuel = n + 1 := ⟨fuel - 1, by omega⟩
    obtain ⟨hid, hv₁, hv₂⟩ := visitable_split.mp hv
    obtain ⟨hnode, hd₁, hd₂⟩ := hd
    have hne : first.id ≠ second.id := fun heq => by
      have := hv₂.unvisited second.id second.id_mem_ids
      simp [ValidationState.visit, ← heq, first.id_mem_ids] at this
    rw [Topology.id, validateNode, if_neg hid, hnode, Run.okOr_some, Run.ok_bind]
    simp only [ne_eq, not_true_eq_false, if_false, SplitRatio.new_value, Option.isNone_some,
      Bool.false_eq_true, or_false, if_neg hne]
    have h₁ : validateNode nodes fuel first.id (some id) (s.enter id) = _ :=
      ih₁ (le_trans (le_max_left _ _) (Nat.le_of_succ_le_succ hfuel)) hd₁ hv₁
    have h₂ : validateNode nodes fuel second.id (some id) ((s.enter id).visit first) = _ :=
      ih₂ (le_trans (le_max_right _ _) (Nat.le_of_succ_le_succ hfuel)) hd₂ hv₂
    rw [ValidationState.enter] at h₁
    rw [h₁, Run.ok_bind, visit_split, ← h₂]
    rfl

theorem card_ids_eq_liveCount (hlive : ∀ i ∈ T.ids, (nodes.get i).isSome) :
    T.ids.toFinset.card = nodes.liveCount ↔ ∀ i, (nodes.get i).isSome → i ∈ T.ids := by
  have hsub : T.ids.toFinset ⊆ nodes.liveIds.toFinset := fun i hi => by
    rw [List.mem_toFinset] at hi ⊢
    exact Arena.mem_liveIds.mpr (hlive i hi)
  have hcard : nodes.liveIds.toFinset.card = nodes.liveCount := by
    rw [List.toFinset_card_of_nodup nodes.nodup_liveIds, Arena.length_liveIds]
  constructor
  · intro h i hi
    have heq := Finset.eq_of_subset_of_card_le hsub (by rw [hcard, h])
    rw [← List.mem_toFinset, heq, List.mem_toFinset]
    exact Arena.mem_liveIds.mpr hi
  · intro h
    rw [← hcard]
    congr 1
    refine hsub.antisymm fun i hi => ?_
    rw [List.mem_toFinset] at hi ⊢
    exact h i (Arena.mem_liveIds.mp hi)

theorem Topology.toFinset_windows_eq_keys (hnd : T.windows.Nodup) : (T.addLeaves ∅).keys = T.windows.toFinset := by
  ext w
  rw [Finmap.mem_keys, mem_addLeaves hnd, List.mem_toFinset]
  simp [Finmap.notMem_empty]

theorem insertionOrder_iff (hnd : T.windows.Nodup) (order : List WindowId) :
    ¬ (order.length ≠ (T.addLeaves ∅).len ∨ order.toFinset.card ≠ order.length ∨
      (order.any fun window => decide (window ∉ T.addLeaves ∅)) = true) ↔ order.Perm T.windows := by
  have hlen : (T.addLeaves ∅).len = T.windows.length := by
    rw [HashMap.len, Topology.toFinset_windows_eq_keys hnd, List.toFinset_card_of_nodup hnd]
  have hmem : ∀ w, w ∈ T.addLeaves ∅ ↔ w ∈ T.windows := fun w => by
    rw [← Finmap.mem_keys, Topology.toFinset_windows_eq_keys hnd, List.mem_toFinset]
  rw [hlen]
  simp only [not_or, not_not, List.any_eq_true, decide_eq_true_eq, not_exists, not_and, hmem]
  constructor
  · rintro ⟨hl, hcard, hsub⟩
    have hnodup : order.Nodup :=
      Multiset.coe_nodup.mp (Multiset.toFinset_card_eq_card_iff_nodup.mp hcard)
    exact (List.subperm_of_subset hnodup hsub).perm_of_length_le hl.ge
  · intro h
    exact ⟨h.length_eq, List.toFinset_card_of_nodup (h.nodup_iff.mpr hnd), fun w hw => h.mem_iff.mp hw⟩

namespace DwindleTree

variable {t : DwindleTree F}

theorem debugValidate_none (h : t.root = none) : t.debugValidate = .ok () ↔ t.IsEmpty := by
  have hzero : t.nodes.liveCount = 0 ↔ ∀ i, t.nodes.get i = none := by
    rw [← Arena.length_liveIds, List.length_eq_zero_iff, List.eq_nil_iff_forall_not_mem]
    exact forall_congr' fun i => by rw [Arena.mem_liveIds, Option.not_isSome_iff_eq_none]
  rw [debugValidate, h]
  simp only
  split_ifs with hbad
  · refine iff_of_false (by simp [Run.fail]) fun he => ?_
    exact hbad.elim (fun h => h (hzero.mpr he.no_node)) fun h => h.elim (· he.byWindow) (· he.order)
  · simp only [not_or, not_not] at hbad
    exact iff_of_true rfl ⟨h, hzero.mp hbad.1, hbad.2.1, hbad.2.2⟩

theorem shape_of_debugValidate {root : DwindleNodeId} (hroot : t.root = some root)
    (h : t.debugValidate = .ok ()) : ∃ T, t.Shape T := by
  rw [debugValidate, hroot] at h
  simp only at h
  split at h
  · exact absurd h (by simp [Run.fail])
  split_ifs at h with hp
  · exact absurd h (by simp [Run.fail])
  obtain ⟨s, hs, hk⟩ := Run.bind_eq_ok.mp h
  obtain ⟨T, rfl, hd, hv, rfl⟩ := validateNode_sound hs
  split_ifs at hk with hcard hleaves horder
  · exact absurd hk (by simp [Run.fail])
  · exact absurd hk (by simp [Run.fail])
  · exact absurd hk (by simp [Run.fail])
  rw [not_not] at hcard hleaves
  simp only [ValidationState.visit, Finset.empty_union] at hcard
  exact ⟨T, hroot, hd, hv.ids_nodup, (card_ids_eq_liveCount hd.live).mp hcard, hv.windows_nodup,
    hleaves.symm, (insertionOrder_iff hv.windows_nodup _).mp horder⟩

theorem Shape.debugValidate {T : Topology F} (h : t.Shape T) : t.debugValidate = .ok () := by
  obtain ⟨kind, hget⟩ := h.denotes.get_id
  have hv : Visitable ⟨∅, ∅⟩ T := ⟨h.ids_nodup, fun _ _ => Finset.notMem_empty _, h.windows_nodup,
    fun _ _ => Finmap.notMem_empty⟩
  have hcard := (card_ids_eq_liveCount h.denotes.live).mpr h.no_orphan
  have hfuel : T.height ≤ t.nodes.slots.length + 1 := by
    have h₁ := T.height_le
    rw [← List.toFinset_card_of_nodup h.ids_nodup, hcard, Arena.liveCount] at h₁
    exact (h₁.trans List.countP_le_length).trans (Nat.le_succ _)
  have horder := (insertionOrder_iff h.windows_nodup t.insertionOrder).mpr h.order
  rw [DwindleTree.debugValidate, h.root]
  simp only [hget, Option.isSome_none, Bool.false_eq_true, if_false]
  rw [validateNode_complete hfuel h.denotes hv, Run.ok_bind]
  simp only [ValidationState.visit, Finset.empty_union, hcard, h.byWindow, ne_eq, not_true_eq_false,
    if_false]
  exact if_neg horder

theorem wellFormed_iff : t.WellFormed ↔ t.IsEmpty ∨ ∃ T, t.Shape T := by
  constructor
  · intro h
    cases hroot : t.root with
    | none => exact .inl ((debugValidate_none hroot).mp h)
    | some root => exact .inr (shape_of_debugValidate hroot h)
  · rintro (h | ⟨T, h⟩)
    · exact (debugValidate_none h.root).mpr h
    · exact h.debugValidate

end DwindleTree
end Typhon.Layout
