import Typhon.Layout.Zipper

/-! Runs of the tree operations: what each call does to the denoted tree, and what holds of the
arena after every run. -/

namespace Typhon.Layout
open Foundation SplitRatio

variable {F : Type} [Float64 F]

inductive TreeOp (F : Type) where
  | insert (window : WindowId) (hint : InsertHint)
  | remove (window : WindowId)
  | setSplitRatio (id : DwindleNodeId) (ratio : F)

namespace DwindleTree

def step (t : DwindleTree F) :
    TreeOp F → Run Empty (Except DwindleTreeError Unit × DwindleTree F)
  | .insert window hint => do
    let (result, t) ← t.insert window hint
    .ok (result.map fun _ => (), t)
  | .remove window => t.remove window
  | .setSplitRatio id ratio => .ok (t.setSplitRatio id ratio)

def run : List (TreeOp F) → DwindleTree F → Run Empty (DwindleTree F)
  | [], t => .ok t
  | op :: ops, t => do
    let (_, t) ← t.step op
    run ops t

def Exhausted (t : DwindleTree F) (window : WindowId) : Prop :=
  (t.nodes.free = [] ∧ 4294967296 ≤ t.nodes.slots.length) ∨
    ∃ leaf nodes, (t.nodes.insert "Dwindle arena exhausted" ⟨none, .leaf window⟩ : Run Empty _) =
      .ok (leaf, nodes) ∧ nodes.free = [] ∧ 4294967296 ≤ nodes.slots.length

/-! ### Reading and building shapes -/

variable {T : Topology F} {t : DwindleTree F}

theorem Shape.lookup (h : t.Shape T) (w : WindowId)
    (i : DwindleNodeId) : t.byWindow.lookup w = some i ↔ (w, i) ∈ T.leaves :=
  (Topology.eq_addLeaves_iff h.windows_nodup).mp h.byWindow w i

theorem Shape.mem_byWindow (h : t.Shape T) {w : WindowId} : w ∈ t.byWindow ↔ w ∈ T.windows := by
  rw [h.byWindow, Topology.mem_addLeaves h.windows_nodup]
  simp [Finmap.notMem_empty]

theorem Shape.exists_leaf (h : t.Shape T) {w : WindowId}
    (hw : w ∈ T.windows) : ∃ i c, t.byWindow.lookup w = some i ∧ T = plug c (.leaf i w) := by
  rw [← Topology.map_leaves, List.mem_map] at hw
  obtain ⟨⟨w, i⟩, hmem, rfl⟩ := hw
  obtain ⟨c, hc⟩ := exists_plug_leaf hmem
  exact ⟨i, c, (h.lookup w i).mpr hmem, hc⟩

theorem Shape.of_leaves (hroot : t.root = some T.id) (hd : Denotes t.nodes none T) (hids : T.ids.Nodup)
    (horphan : ∀ i, (t.nodes.get i).isSome → i ∈ T.ids)
    (hmap : ∀ w i, t.byWindow.lookup w = some i ↔ (w, i) ∈ T.leaves)
    (horder : t.insertionOrder.Perm T.windows) (hnd : t.insertionOrder.Nodup) : t.Shape T := by
  have hws : T.windows.Nodup := horder.nodup_iff.mp hnd
  exact ⟨hroot, hd, hids, horphan, hws, (Topology.eq_addLeaves_iff hws).mpr hmap, horder⟩

/-! ### The anchor of an insertion -/

variable {nodes : DwindleArena F}

theorem firstLeafFrom_eq {fuel : ℕ}
    {parent : Option DwindleNodeId} (h : Denotes nodes parent T) (hfuel : T.height ≤ fuel) :
    firstLeafFrom nodes fuel T.id = .ok T.windows.head? := by
  induction T generalizing fuel parent with
  | leaf id window =>
    obtain ⟨fuel, rfl⟩ : ∃ n, fuel = n + 1 := ⟨fuel - 1, by simp only [Topology.height] at hfuel; omega⟩
    rw [Topology.id, firstLeafFrom, show nodes.get id = _ from h]
    rfl
  | split id axis ratio first second ih₁ _ =>
    simp only [Topology.height] at hfuel
    obtain ⟨fuel, rfl⟩ : ∃ n, fuel = n + 1 := ⟨fuel - 1, by omega⟩
    rw [Topology.id, firstLeafFrom, h.1]
    simp only [Topology.windows, List.head?_append_of_ne_nil _ first.windows_ne_nil]
    exact ih₁ h.2.1 (le_trans (le_max_left _ _) (Nat.le_of_succ_le_succ hfuel))

theorem Shape.height_le_slots (h : t.Shape T) : T.height ≤ t.nodes.slots.length := by
  have hcard := (card_ids_eq_liveCount h.denotes.live).mpr h.no_orphan
  have hle := T.height_le
  rw [← List.toFinset_card_of_nodup h.ids_nodup, hcard] at hle
  exact hle.trans List.countP_le_length

theorem Shape.anchorWindow (h : t.Shape T) (hd : Denotes nodes none T)
    (hlen : t.nodes.slots.length ≤ nodes.slots.length) (hint : InsertHint) :
    ∃ v ∈ T.windows, ({ t with nodes := nodes } : DwindleTree F).anchorWindow hint = .ok (some v) := by
  have hmem : ∀ (o : Option WindowId) v,
      o.filter ({ t with nodes := nodes } : DwindleTree F).containsWindow = some v → v ∈ T.windows := by
    intro o v ho
    have hv := (Option.filter_eq_some_iff.mp ho).2
    exact h.mem_byWindow.mp (by simpa [containsWindow] using hv)
  unfold DwindleTree.anchorWindow
  split
  · exact ⟨_, hmem _ _ ‹_›, rfl⟩
  split
  · exact ⟨_, hmem _ _ ‹_›, rfl⟩
  obtain ⟨v, vs, hvs⟩ := List.exists_cons_of_ne_nil T.windows_ne_nil
  refine ⟨v, by simp [hvs], ?_⟩
  rw [firstLeafWindow, h.root]
  simp only
  rw [firstLeafFrom_eq hd (by have := h.height_le_slots; omega), hvs]
  rfl

/-! ### Insertion -/

theorem setParent_pair (m₁ m₂ : String) {x y : DwindleNodeId}
    {px py : Option DwindleNodeId} {kx ky : DwindleNodeKind F} (hxy : x ≠ y)
    (hx : nodes.get x = some ⟨px, kx⟩) (hy : nodes.get y = some ⟨py, ky⟩) (p : Option DwindleNodeId) :
    ∃ nodes₁ nodes₂, setParent m₁ nodes x p = .ok nodes₁ ∧ setParent m₂ nodes₁ y p = .ok nodes₂ ∧
      Arena.Evolves nodes nodes₂ ∧ nodes₂.get x = some ⟨p, kx⟩ ∧ nodes₂.get y = some ⟨p, ky⟩ ∧
      ∀ i, i ≠ x → i ≠ y → nodes₂.get i = nodes.get i := by
  have hg₁ := Arena.get_set hx ⟨p, kx⟩
  have hy₁ : (nodes.set x ⟨p, kx⟩).get y = some ⟨py, ky⟩ := by rw [hg₁, if_neg hxy.symm, hy]
  have hg₂ := Arena.get_set hy₁ ⟨p, ky⟩
  refine ⟨_, _, setParent_eq hx p, setParent_eq hy₁ p,
    (Arena.Step.set hx _).evolves.trans (Arena.Step.set hy₁ _).evolves, ?_, ?_, fun i hix hiy => ?_⟩
  · rw [hg₂, if_neg hxy, hg₁, if_pos rfl]
  · rw [hg₂, if_pos rfl]
  · rw [hg₂, if_neg hiy, hg₁, if_neg hix]

def insertFrame (hint : InsertHint) (split leaf : DwindleNodeId) (window : WindowId) : Frame F :=
  ⟨split, (insertPlacement hint).1, default, !(insertPlacement hint).2, .leaf leaf window⟩

theorem insert_links {c : List (Frame F)} {anchor leaf split : DwindleNodeId}
    {v window : WindowId} {nodes₁ nodes₂ : DwindleArena F} {e : String} {hint : InsertHint}
    (h : t.Shape (plug c (.leaf anchor v)))
    (hleaf : (t.nodes.insert e ⟨none, .leaf window⟩ : Run Empty _) = .ok (leaf, nodes₁))
    (hsplit : (nodes₁.insert e ⟨holeParent c, (insertFrame hint split leaf window : Frame F).kind anchor⟩ :
      Run Empty _) = .ok (split, nodes₂)) {m₁ m₂ : String} {first second : DwindleNodeId}
    (hfs : first = anchor ∧ second = leaf ∨ first = leaf ∧ second = anchor) :
    ∃ nodes₃ nodes₄ nodes₅, setParent m₁ nodes₂ first (some split) = .ok nodes₃ ∧
      setParent m₂ nodes₃ second (some split) = .ok nodes₄ ∧ relink t.root nodes₄ (holeParent c) anchor split =
        .ok (some (plug (insertFrame hint split leaf window :: c) (.leaf anchor v)).id, nodes₅) ∧
      Arena.Evolves t.nodes nodes₅ ∧
      Denotes nodes₅ none (plug (insertFrame hint split leaf window :: c) (.leaf anchor v)) ∧
      (plug (insertFrame hint split leaf window :: c) (.leaf anchor v)).ids.Nodup ∧ ∀ i, (nodes₅.get i).isSome →
        i ∈ (plug (insertFrame hint split leaf window :: c) (.leaf anchor v)).ids := by
  set g : Frame F := insertFrame hint split leaf window with hg
  obtain ⟨hframes, hanchor⟩ := denotes_plug.mp h.denotes
  have hget₁ := Arena.get_insert hleaf
  have hget₂ := Arena.get_insert hsplit
  have hfresh := Arena.get_of_insert hleaf
  have hfresh₂ := Arena.get_of_insert hsplit
  have hnd := (ids_plug c (.leaf anchor v)).nodup_iff.mp h.ids_nodup
  have hlive : ∀ i ∈ anchor :: frameIds c, (t.nodes.get i).isSome := fun i hi =>
    h.denotes.live i ((ids_plug c (.leaf anchor v)).mem_iff.mpr hi)
  -- the two new ids differ from each other and from every node of the tree
  have hsl : split ≠ leaf := by
    rintro rfl
    rw [hget₁, if_pos rfl] at hfresh₂
    exact absurd hfresh₂ (by simp)
  have hnew : ∀ i ∈ anchor :: frameIds c, i ≠ leaf ∧ i ≠ split := by
    intro i hi
    have hl : i ≠ leaf := by
      rintro rfl
      have := hlive i hi
      simp [hfresh] at this
    refine ⟨hl, ?_⟩
    rintro rfl
    have := hlive i hi
    rw [hget₁, if_neg hl] at hfresh₂
    simp [hfresh₂] at this
  have hold : ∀ i, i ≠ leaf → i ≠ split → nodes₂.get i = t.nodes.get i := fun i hl hs => by
    rw [hget₂, if_neg hs, hget₁, if_neg hl]
  have ha := hnew anchor (by simp)
  have hga : nodes₂.get anchor = some ⟨holeParent c, .leaf v⟩ := by
    rw [hold anchor ha.1 ha.2]
    exact hanchor
  have hgl : nodes₂.get leaf = some ⟨none, .leaf window⟩ := by
    rw [hget₂, if_neg hsl.symm, hget₁, if_pos rfl]
  have hpair : ∃ nodes₃ nodes₄, setParent m₁ nodes₂ first (some split) = .ok nodes₃ ∧
      setParent m₂ nodes₃ second (some split) = .ok nodes₄ ∧ Arena.Evolves nodes₂ nodes₄ ∧
      nodes₄.get anchor = some ⟨some split, .leaf v⟩ ∧
      nodes₄.get leaf = some ⟨some split, .leaf window⟩ ∧
      ∀ i, i ≠ anchor → i ≠ leaf → nodes₄.get i = nodes₂.get i := by
    obtain ⟨rfl, rfl⟩ | ⟨rfl, rfl⟩ := hfs
    · exact setParent_pair m₁ m₂ ha.1 hga hgl (some split)
    · obtain ⟨n₃, n₄, e₁, e₂, e₃, e₄, e₅, e₆⟩ :=
        setParent_pair m₁ m₂ ha.1.symm hgl hga (some split)
      exact ⟨n₃, n₄, e₁, e₂, e₃, e₅, e₄, fun i hi hj => e₆ i hj hi⟩
  obtain ⟨nodes₃, nodes₄, hp₁, hp₂, hev, hga₄, hgl₄, hget₄⟩ := hpair
  simp only [Topology.ids, List.singleton_append, List.nodup_cons] at hnd
  have hkeep : ∀ i ∈ frameIds c, nodes₄.get i = t.nodes.get i := fun i hi => by
    obtain ⟨hl, hs⟩ := hnew i (by simp [hi])
    rw [hget₄ i (fun he => hnd.1 (he ▸ hi)) hl, hold i hl hs]
  obtain ⟨nodes₅, hrelink, hev₅, hframes₅, hget₅, hsome₅⟩ := relink_frames
    (T := .leaf anchor v) (S := g.fill (.leaf anchor v)) (hframes.congr hkeep) hnd.2 hnd.1
  have hout : ∀ i, i = anchor ∨ i = leaf ∨ i = split → nodes₅.get i = nodes₄.get i := by
    refine fun i hi => hget₅ i fun hmem => ?_
    obtain ⟨hl, hs⟩ := hnew i (by simp [hmem])
    obtain rfl | rfl | rfl := hi
    · exact hnd.1 hmem
    · exact hl rfl
    · exact hs rfl
  have hgs : nodes₅.get split = some ⟨holeParent c, g.kind anchor⟩ := by
    rw [hout split (by simp), hget₄ split ha.2.symm hsl, hget₂, if_pos rfl]
  have hids : (plug (g :: c) (.leaf anchor v)).ids.Perm (anchor :: split :: leaf :: frameIds c) :=
    ids_plug (g :: c) (.leaf anchor v)
  refine ⟨nodes₃, nodes₄, nodes₅, hp₁, hp₂, ?_, ?_, denotes_plug.mpr ⟨⟨hgs, ?_, ?_⟩, ?_⟩, ?_, ?_⟩
  · rw [Frame.fill_id] at hrelink
    rw [h.root]
    exact hrelink
  · exact (((Arena.Step.insert hleaf).evolves.trans (Arena.Step.insert hsplit).evolves).trans hev).trans
      hev₅
  · exact (hout leaf (by simp)).trans hgl₄
  · simpa only [Frame.fill_id] using hframes₅
  · exact (hout anchor (by simp)).trans hga₄
  · rw [hids.nodup_iff]
    simp only [List.nodup_cons, List.mem_cons, not_or]
    exact ⟨⟨ha.2, ha.1, hnd.1⟩, ⟨hsl, fun hm => (hnew split (by simp [hm])).2 rfl⟩,
      fun hm => (hnew leaf (by simp [hm])).1 rfl, hnd.2⟩
  · intro i hi
    rw [hids.mem_iff]
    by_cases hi₃ : i = anchor ∨ i = leaf ∨ i = split
    · obtain rfl | rfl | rfl := hi₃ <;> simp
    · simp only [not_or] at hi₃
      rw [hsome₅, hget₄ i hi₃.1 hi₃.2.1, hold i hi₃.2.1 hi₃.2.2] at hi
      have hmem := (ids_plug c (.leaf anchor v)).mem_iff.mp (h.no_orphan i hi)
      simp only [Topology.ids, List.singleton_append, List.mem_cons] at hmem
      simp [hmem.resolve_left hi₃.1]

theorem insertFrame_kind (hint : InsertHint) (split leaf anchor : DwindleNodeId) (window : WindowId) :
    (insertFrame hint split leaf window : Frame F).kind anchor = .split (insertPlacement hint).1 default
        (if (insertPlacement hint).2 then (leaf, anchor) else (anchor, leaf)).1
        (if (insertPlacement hint).2 then (leaf, anchor) else (anchor, leaf)).2 := by
  unfold insertFrame Frame.kind
  cases (insertPlacement hint).2 <;> rfl

variable {window : WindowId} {leaf : DwindleNodeId} {T T' : Topology F}

theorem lookup_insert_leaf (h : t.Shape T) (hw : window ∉ T.windows)
    (hT' : T'.leaves.Perm ((window, leaf) :: T.leaves)) (w : WindowId) (i : DwindleNodeId) :
    (t.byWindow.insert window leaf).lookup w = some i ↔ (w, i) ∈ T'.leaves := by
  rw [HashMap.lookup_insert, hT'.mem_iff, List.mem_cons, Prod.mk.injEq]
  split_ifs with hwi
  · subst hwi
    simp only [Option.some.injEq, true_and]
    exact ⟨fun he => .inl he.symm, fun he => (he.resolve_right fun hm =>
      hw (Topology.mem_windows_of_leaf hm)).symm⟩
  · rw [h.lookup]
    exact ⟨.inr, fun hm => hm.resolve_left fun he => hwi he.1⟩

theorem insert_of_contains (h : window ∈ t.byWindow)
    (hint : InsertHint) : t.insert window hint = .ok (.error (.duplicateWindow window), t) :=
  if_pos (by simpa [containsWindow] using h)

def InsertFault (t : DwindleTree F) (window : WindowId) (fault : Fault Empty) : Prop :=
  t.nodes.FreeValid → fault = .panic "Dwindle arena exhausted" ∧ t.Exhausted window

theorem insert_empty (h : t.IsEmpty) (window : WindowId) (hint : InsertHint) :
    (∃ leaf t', t.insert window hint = .ok (.ok leaf, t') ∧ t'.Shape (.leaf leaf window) ∧
      t'.insertionOrder = t.insertionOrder ++ [window] ∧ Arena.Evolves t.nodes t'.nodes) ∨
    ∃ fault, t.insert window hint = .error fault ∧ t.InsertFault window fault := by
  have hnot : t.containsWindow window = false := by simp [containsWindow, h.byWindow, Finmap.notMem_empty]
  unfold DwindleTree.insert
  simp only [hnot, Bool.false_eq_true, if_false, h.root]
  obtain ⟨leaf, nodes, hins⟩ | ⟨fault, hins, hfull⟩ :=
    Arena.insert_ok_or_fault (ε := Empty) "Dwindle arena exhausted" t.nodes ⟨none, .leaf window⟩
  · rw [hins, Run.ok_bind]
    have hget := Arena.get_insert hins
    refine .inl ⟨leaf, _, rfl, Shape.of_leaves rfl ?_ (by simp [Topology.ids]) (fun i hi => ?_)
      (fun w i => ?_) ?_ ?_, rfl, (Arena.Step.insert hins).evolves⟩
    · simp [Denotes, hget]
    · simp only [hget, h.no_node] at hi
      split_ifs at hi with he
      · simp [Topology.ids, he]
      · simp at hi
    · simp only [h.byWindow, HashMap.lookup_insert, HashMap.lookup_empty, Topology.leaves,
        List.mem_singleton, Prod.mk.injEq]
      split_ifs with hw <;> simp [hw, eq_comm]
    · simp [h.order, Topology.windows]
    · simp [h.order]
  · rw [hins]
    exact .inr ⟨fault, rfl, fun hv => ⟨(hfull hv).1, .inl (hfull hv).2⟩⟩

theorem insert_nonempty (h : t.Shape T) (hw : window ∉ T.windows) (hint : InsertHint) :
    (∃ leaf split anchor v c t', t.insert window hint = .ok (.ok leaf, t') ∧ T = plug c (.leaf anchor v) ∧
      t'.Shape (plug (insertFrame hint split leaf window :: c) (.leaf anchor v)) ∧
      t'.insertionOrder = t.insertionOrder ++ [window] ∧ Arena.Evolves t.nodes t'.nodes) ∨
    ∃ fault, t.insert window hint = .error fault ∧ t.InsertFault window fault := by
  have hnot : t.containsWindow window = false := by simpa [containsWindow, h.mem_byWindow] using hw
  unfold DwindleTree.insert
  simp only [hnot, Bool.false_eq_true, if_false, h.root]
  -- the leaf is stored first, so the arena may be full for it or only for the split
  obtain ⟨leaf, nodes₁, hleaf⟩ | ⟨fault, hins, hfull⟩ :=
    Arena.insert_ok_or_fault (ε := Empty) "Dwindle arena exhausted" t.nodes ⟨none, .leaf window⟩
  swap
  · rw [hins]
    exact .inr ⟨fault, rfl, fun hv => ⟨(hfull hv).1, .inl (hfull hv).2⟩⟩
  rw [hleaf, Run.ok_bind]
  simp only
  have hget₁ := Arena.get_insert hleaf
  have hd₁ : Denotes nodes₁ none T := h.denotes.congr fun i hi => by
    rw [hget₁, if_neg]
    rintro rfl
    have := h.denotes.live i hi
    simp [Arena.get_of_insert hleaf] at this
  obtain ⟨v, hvT, hanchor⟩ := h.anchorWindow hd₁ (Arena.length_insert hleaf) hint
  obtain ⟨anchor, c, hlook, rfl⟩ := h.exists_leaf hvT
  have hga : nodes₁.get anchor = some ⟨holeParent c, .leaf v⟩ := (denotes_plug.mp hd₁).2
  simp only [h.root] at hanchor
  rw [hanchor, Run.ok_bind, Run.expect_some, Run.ok_bind, hlook, Run.expect_some, Run.ok_bind, hga,
    Run.expect_some, Run.ok_bind]
  have hfs : ∀ b : Bool, (if b = true then (leaf, anchor) else (anchor, leaf)).1 = anchor ∧
      (if b = true then (leaf, anchor) else (anchor, leaf)).2 = leaf ∨
      (if b = true then (leaf, anchor) else (anchor, leaf)).1 = leaf ∧
      (if b = true then (leaf, anchor) else (anchor, leaf)).2 = anchor := by
    intro b
    cases b <;> simp
  obtain ⟨split, nodes₂, hsplit⟩ | ⟨fault, hins, hfull⟩ :=
    Arena.insert_ok_or_fault (ε := Empty) "Dwindle arena exhausted" nodes₁
      ⟨holeParent c, .split (insertPlacement hint).1 default
        (if (insertPlacement hint).2 = true then (leaf, anchor) else (anchor, leaf)).1
        (if (insertPlacement hint).2 = true then (leaf, anchor) else (anchor, leaf)).2⟩
  swap
  · rw [hins]
    refine .inr ⟨fault, rfl, fun hv => ?_⟩
    obtain ⟨hfault, hfull⟩ := hfull (Arena.freeValid_insert hv hleaf)
    exact ⟨hfault, .inr ⟨leaf, nodes₁, hleaf, hfull⟩⟩
  have hframe : (nodes₁.insert "Dwindle arena exhausted" ⟨holeParent c,
      (insertFrame hint split leaf window : Frame F).kind anchor⟩ : Run Empty _) = .ok (split, nodes₂) := by
    rw [insertFrame_kind]
    exact hsplit
  obtain ⟨nodes₃, nodes₄, nodes₅, hp₁, hp₂, hrelink, hev, hd, hids, horphan⟩ :=
    insert_links h hleaf hframe (hfs (insertPlacement hint).2)
  rw [h.root] at hrelink
  have hperm := leaves_plug (insertFrame hint split leaf window :: c) (.leaf anchor v)
  have hleaves : (plug (insertFrame hint split leaf window :: c) (.leaf anchor v)).leaves.Perm
      ((window, leaf) :: (plug c (.leaf anchor v)).leaves) :=
    hperm.trans ((List.Perm.swap _ _ _).trans (.cons _ (leaves_plug c (.leaf anchor v)).symm))
  have hwindows := hleaves.map Prod.fst
  rw [List.map_cons, Topology.map_leaves, Topology.map_leaves] at hwindows
  have horder : (t.insertionOrder ++ [window]).Perm
      (plug (insertFrame hint split leaf window :: c) (.leaf anchor v)).windows :=
    (List.perm_append_comm.trans (.cons _ h.order)).trans hwindows.symm
  have hnd : (t.insertionOrder ++ [window]).Nodup := by
    rw [List.perm_append_comm.nodup_iff]
    exact List.nodup_cons.mpr ⟨fun hm => hw (h.order.mem_iff.mp hm), h.order.nodup_iff.mpr h.windows_nodup⟩
  rw [hsplit, Run.ok_bind, hp₁, Run.ok_bind, hp₂, Run.ok_bind, hrelink, Run.ok_bind]
  exact .inl ⟨leaf, split, anchor, v, c, _, rfl, rfl,
    Shape.of_leaves rfl hd hids horphan (lookup_insert_leaf h hw hleaves) horder hnd, rfl, hev⟩

/-! ### Removal -/

theorem lookup_erase_leaf (h : t.Shape T) (hT : T.leaves.Perm ((window, leaf) :: T'.leaves))
    (w : WindowId) (i : DwindleNodeId) : (t.byWindow.erase window).lookup w = some i ↔ (w, i) ∈ T'.leaves := by
  have hnd := (hT.map Prod.fst).nodup_iff.mp (T.map_leaves ▸ h.windows_nodup)
  rw [List.map_cons, Topology.map_leaves, List.nodup_cons] at hnd
  rw [HashMap.lookup_erase]
  split_ifs with hw
  · subst hw
    simp only [false_iff]
    exact fun hm => hnd.1 (Topology.mem_windows_of_leaf hm)
  · rw [h.lookup, hT.mem_iff, List.mem_cons, Prod.mk.injEq]
    exact or_iff_right fun he => hw he.1

theorem order_erase_leaf (h : t.Shape T) (hT : T.leaves.Perm ((window, leaf) :: T'.leaves)) :
    (t.insertionOrder.filter fun candidate => candidate ≠ window).Perm T'.windows := by
  have hws := hT.map Prod.fst
  rw [List.map_cons, Topology.map_leaves, Topology.map_leaves] at hws
  have hnot : window ∉ T'.windows := (List.nodup_cons.mp (hws.nodup_iff.mp h.windows_nodup)).1
  have hperm := (h.order.trans hws).filter fun candidate => decide (candidate ≠ window)
  have hall : T'.windows.filter (fun candidate => decide (candidate ≠ window)) = T'.windows :=
    List.filter_eq_self.mpr fun w hw => by simpa using fun he : w = window => hnot (he ▸ hw)
  rwa [List.filter_cons_of_neg (by simp), hall] at hperm

theorem remove_of_not_mem (h : window ∉ t.byWindow) :
    t.remove window = .ok (.error (.unknownWindow window), t) := by
  rw [DwindleTree.remove, Finmap.lookup_eq_none.mpr h]

theorem remove_root (h : t.Shape (.leaf leaf window)) :
    ∃ t', t.remove window = .ok (.ok (), t') ∧ t'.IsEmpty ∧ Arena.Evolves t.nodes t'.nodes := by
  have hlook : t.byWindow.lookup window = some leaf := (h.lookup _ _).mpr (by simp [Topology.leaves])
  have hget : t.nodes.get leaf = some ⟨none, .leaf window⟩ := h.denotes
  obtain ⟨nodes, hrem⟩ := Arena.remove_of_get hget
  unfold DwindleTree.remove
  rw [hlook]
  simp only [hget, Run.expect_some, Run.ok_bind, hrem]
  refine ⟨_, rfl, ⟨rfl, fun i => ?_, ?_, ?_⟩, (Arena.Step.remove hrem).evolves⟩
  · rw [Arena.get_remove hrem]
    split_ifs with hi
    · rfl
    · refine Option.not_isSome_iff_eq_none.mp fun hs => hi ?_
      simpa [Topology.ids] using h.no_orphan i hs
  · refine Finmap.ext_lookup fun w => ?_
    rw [HashMap.lookup_erase, HashMap.lookup_empty]
    split_ifs with hw
    · rfl
    · refine Option.eq_none_iff_forall_ne_some.mpr fun i hi => hw ?_
      have := (h.lookup w i).mp hi
      simp only [Topology.leaves, List.mem_singleton, Prod.mk.injEq] at this
      exact this.1
  · have horder : t.insertionOrder = [window] := List.perm_singleton.mp h.order
    simp [horder]

theorem remove_split {g : Frame F} {c : List (Frame F)} (h : t.Shape (plug (g :: c) (.leaf leaf window))) :
    ∃ t', t.remove window = .ok (.ok (), t') ∧ t'.Shape (plug c g.sibling) ∧ Arena.Evolves t.nodes t'.nodes ∧
      t'.insertionOrder = t.insertionOrder.filter fun candidate => candidate ≠ window := by
  obtain ⟨⟨hg, hsib, hframes⟩, hleaf⟩ := denotes_plug.mp h.denotes
  have hids := ids_plug (g :: c) (.leaf leaf window)
  have hperm : (plug (g :: c) (.leaf leaf window)).ids.Perm
      (leaf :: g.id :: (g.sibling.ids ++ frameIds c)) := by
    simpa [frameIds, Topology.ids] using hids
  have hnd := hperm.nodup_iff.mp h.ids_nodup
  simp only [List.nodup_cons, List.mem_cons, List.mem_append, not_or, List.nodup_append] at hnd
  obtain ⟨⟨hlg, hls, hlc⟩, ⟨hgs, hgc⟩, hsnd, hcnd, hdisj⟩ := hnd
  have hleaves : (plug (g :: c) (.leaf leaf window)).leaves.Perm
      ((window, leaf) :: (plug c g.sibling).leaves) := by
    refine (leaves_plug (g :: c) (.leaf leaf window)).trans (.cons _ ?_)
    simpa [frameLeaves] using (leaves_plug c g.sibling).symm
  have hlook : t.byWindow.lookup window = some leaf :=
    (h.lookup _ _).mpr (hleaves.mem_iff.mpr (by simp))
  have hget : t.nodes.get leaf = some ⟨some g.id, .leaf window⟩ := hleaf
  -- the two removals
  obtain ⟨nodes₁, hrem₁⟩ := Arena.remove_of_get hget
  have hget₁ := Arena.get_remove hrem₁
  have hg₁ : nodes₁.get g.id = some ⟨holeParent c, g.kind leaf⟩ := by
    rw [hget₁, if_neg (Ne.symm hlg)]
    exact hg
  obtain ⟨nodes₂, hrem₂⟩ := Arena.remove_of_get hg₁
  have hget₂ : ∀ i, nodes₂.get i = if i = g.id ∨ i = leaf then none else t.nodes.get i := fun i => by
    rw [Arena.get_remove hrem₂, hget₁]
    by_cases h₁ : i = g.id <;> by_cases h₂ : i = leaf <;> simp [h₁, h₂]
  have hkeep₂ : ∀ i, i ∈ g.sibling.ids ∨ i ∈ frameIds c → nodes₂.get i = t.nodes.get i := by
    intro i hi
    rw [hget₂, if_neg]
    rintro (rfl | rfl)
    · exact hi.elim hgs hgc
    · exact hi.elim hls hlc
  -- the sibling moves up
  obtain ⟨kind, hsibTop⟩ := hsib.get_id
  have hs₂ : nodes₂.get g.sibling.id = some ⟨some g.id, kind⟩ := by
    rw [hkeep₂ _ (.inl g.sibling.id_mem_ids), hsibTop]
  have hget₃ := Arena.get_set hs₂ ⟨holeParent c, kind⟩
  have hsc : g.sibling.id ∉ frameIds c := fun hm => hdisj _ g.sibling.id_mem_ids _ hm rfl
  have hframes₃ : DenotesFrames (nodes₂.set g.sibling.id ⟨holeParent c, kind⟩) c
      (g.fill (.leaf leaf window)).id := by
    rw [Frame.fill_id]
    refine hframes.congr fun i hi => ?_
    rw [hget₃, if_neg (fun he : i = g.sibling.id => hsc (he ▸ hi)), hkeep₂ i (.inr hi)]
  obtain ⟨nodes₄, hrelink, hev₄, hframes₄, hget₄, hsome₄⟩ :=
    relink_frames (S := g.sibling) hframes₃ hcnd (by rwa [Frame.fill_id])
  have hroot : t.root = some (plug c (g.fill (.leaf leaf window))).id := h.root
  have hchoice : ∀ axis ratio first second, g.kind leaf = .split axis ratio first second →
      (if first = leaf then second else first) = g.sibling.id := by
    intro axis ratio first second hk
    have hne : g.sibling.id ≠ leaf := fun he => hls (he ▸ g.sibling.id_mem_ids)
    unfold Frame.kind at hk
    split_ifs at hk <;> simp only [DwindleNodeKind.split.injEq] at hk
    · rw [if_pos hk.2.2.1.symm, hk.2.2.2]
    · rw [← hk.2.2.1, if_neg hne]
  have hsib₄ : Denotes nodes₄ (holeParent c) g.sibling := by
    have hout : ∀ i ∈ g.sibling.ids, nodes₄.get i = _ := fun i hi =>
      hget₄ i fun hm => hdisj i hi i hm rfl
    refine hsib.reparent hsnd (fun k hk => ?_) fun i hi hne => ?_
    · rw [hsibTop, Option.some.injEq, DwindleNode.mk.injEq] at hk
      rw [hout _ g.sibling.id_mem_ids, hget₃, if_pos rfl, hk.2]
    · rw [hout i hi, hget₃, if_neg hne, hkeep₂ i (.inl hi)]
  have horphan : ∀ i, (nodes₄.get i).isSome → i ∈ (plug c g.sibling).ids := by
    intro i hi
    rw [(ids_plug c g.sibling).mem_iff]
    rw [hsome₄, hget₃] at hi
    split_ifs at hi with he
    · simp [he, g.sibling.id_mem_ids]
    · rw [hget₂] at hi
      split_ifs at hi with hgl
      · simp at hi
      · have hmem := hperm.mem_iff.mp (h.no_orphan i hi)
        simp only [List.mem_cons, not_or] at hmem hgl
        exact (hmem.resolve_left hgl.2).resolve_left hgl.1
  have horder := order_erase_leaf h hleaves
  have hids' : (plug c g.sibling).ids.Nodup :=
    (ids_plug c g.sibling).nodup_iff.mpr (List.nodup_append.mpr ⟨hsnd, hcnd, hdisj⟩)
  have hnd' : (t.insertionOrder.filter fun candidate => candidate ≠ window).Nodup :=
    (h.order.nodup_iff.mpr h.windows_nodup).filter _
  unfold DwindleTree.remove
  rw [hlook]
  simp only [hget, Run.expect_some, Run.ok_bind, hg]
  cases hk : g.kind leaf with
  | leaf w =>
    unfold Frame.kind at hk
    split_ifs at hk
  | split axis ratio first second =>
    simp only [show g.kind (Topology.leaf leaf window).id = _ from hk, hrem₁, hrem₂,
      Run.expect_some, Run.ok_bind, hchoice axis ratio first second hk]
    rw [setParent_eq hs₂, Run.ok_bind, hroot]
    rw [Frame.fill_id] at hrelink
    rw [hrelink, Run.ok_bind]
    refine ⟨_, rfl, Shape.of_leaves rfl (denotes_plug.mpr ⟨hframes₄, hsib₄⟩) hids' horphan
      (lookup_erase_leaf h hleaves) horder hnd', ?_, rfl⟩
    exact (((Arena.Step.remove hrem₁).evolves.trans (Arena.Step.remove hrem₂).evolves).trans
      (Arena.Step.set hs₂ _).evolves).trans hev₄

end DwindleTree

/-! ### Ratio updates -/

def Topology.setRatio (target : DwindleNodeId) (ratio : SplitRatio F) : Topology F → Topology F
  | .leaf id window => .leaf id window
  | .split id axis old first second =>
    .split id axis (if id = target then ratio else old) (first.setRatio target ratio)
      (second.setRatio target ratio)

namespace Topology
variable (target : DwindleNodeId) (ratio : SplitRatio F) (T : Topology F)

@[simp] theorem setRatio_id : (T.setRatio target ratio).id = T.id := by
  cases T <;> rfl

@[simp] theorem setRatio_ids : (T.setRatio target ratio).ids = T.ids := by
  induction T with
  | leaf => rfl
  | split id axis old first second ih₁ ih₂ => simp [setRatio, ids, ih₁, ih₂]

@[simp] theorem setRatio_leaves : (T.setRatio target ratio).leaves = T.leaves := by
  induction T with
  | leaf => rfl
  | split id axis old first second ih₁ ih₂ => simp [setRatio, leaves, ih₁, ih₂]

@[simp] theorem setRatio_windows : (T.setRatio target ratio).windows = T.windows := by
  rw [← map_leaves, setRatio_leaves, map_leaves]

end Topology

theorem Denotes.setRatio {nodes : DwindleArena F} {target first second : DwindleNodeId}
    {q p : Option DwindleNodeId} {axis : SplitAxis} {old : SplitRatio F} {T : Topology F}
    (hnode : nodes.get target = some ⟨q, .split axis old first second⟩) (ratio : SplitRatio F)
    (h : Denotes nodes p T) :
    Denotes (nodes.set target ⟨q, .split axis ratio first second⟩) p (T.setRatio target ratio) := by
  have hget := Arena.get_set hnode ⟨q, .split axis ratio first second⟩
  induction T generalizing p with
  | leaf id window =>
    have hid : nodes.get id = some ⟨p, .leaf window⟩ := h
    rw [Topology.setRatio, Denotes, hget, if_neg, hid]
    rintro rfl
    rw [hnode] at hid
    simp at hid
  | split id axis' old' T₁ T₂ ih₁ ih₂ =>
    obtain ⟨hid, h₁, h₂⟩ := h
    refine ⟨?_, ih₁ h₁, ih₂ h₂⟩
    rw [hget, Topology.setRatio_id, Topology.setRatio_id]
    split_ifs with he
    · subst he
      rw [hnode] at hid
      simp only [Option.some.injEq, DwindleNode.mk.injEq, DwindleNodeKind.split.injEq] at hid
      simp [hid.1, hid.2.1, hid.2.2.2.1, hid.2.2.2.2]
    · exact hid

namespace DwindleTree

theorem setSplitRatio_cases (t : DwindleTree F) (id : DwindleNodeId) (ratio : F) :
    (new ratio = none ∧ t.setSplitRatio id ratio = (.error .invalidRatio, t)) ∨
    ((new ratio).isSome ∧ t.nodes.get id = none ∧ t.setSplitRatio id ratio = (.error .unknownNode, t)) ∨
    (∃ q window, t.nodes.get id = some ⟨q, .leaf window⟩ ∧ t.setSplitRatio id ratio = (.error .nodeIsNotSplit, t)) ∨
    ∃ r q axis old first second, new ratio = some r ∧ t.nodes.get id = some ⟨q, .split axis old first second⟩ ∧
      t.setSplitRatio id ratio = (.ok (), { t with nodes := t.nodes.set id ⟨q, .split axis r first second⟩ }) := by
  unfold setSplitRatio
  cases hr : new ratio with
  | none => exact .inl ⟨rfl, rfl⟩
  | some r =>
    cases hn : t.nodes.get id with
    | none => exact .inr (.inl ⟨rfl, rfl, rfl⟩)
    | some node =>
      obtain ⟨q, kind⟩ := node
      cases kind with
      | leaf window => exact .inr (.inr (.inl ⟨q, window, rfl, rfl⟩))
      | split axis old first second =>
        exact .inr (.inr (.inr ⟨r, q, axis, old, first, second, rfl, rfl, rfl⟩))

/-! ### Steps and runs -/

structure Sound (t : DwindleTree F) : Prop where
  wellFormed : t.WellFormed
  freeValid : t.nodes.FreeValid

theorem sound_empty : (empty : DwindleTree F).Sound :=
  ⟨wellFormed_iff.mpr (.inl ⟨rfl, Arena.get_empty, rfl, rfl⟩), Arena.freeValid_empty⟩

theorem step_spec {t : DwindleTree F} (h : t.Sound) (op : TreeOp F) :
    (∃ result t', t.step op = .ok (result, t') ∧ t'.WellFormed ∧ Arena.Evolves t.nodes t'.nodes ∧
      ∀ e, result = .error e → t' = t) ∨
    ∃ window hint, op = .insert window hint ∧ t.Exhausted window ∧
      t.step op = .error (.panic "Dwindle arena exhausted") := by
  have hwf := wellFormed_iff.mp h.wellFormed
  have hsame : Arena.Evolves t.nodes t.nodes := .refl
  cases op with
  | insert window hint =>
    by_cases hmem : window ∈ t.byWindow
    · refine .inl ⟨.error (.duplicateWindow window), t, ?_, h.wellFormed, hsame, fun _ _ => rfl⟩
      rw [step, insert_of_contains hmem]
      rfl
    · have key : (∃ leaf t', t.insert window hint = .ok (.ok leaf, t') ∧ t'.WellFormed ∧
          Arena.Evolves t.nodes t'.nodes) ∨
          (t.insert window hint = .error (.panic "Dwindle arena exhausted") ∧ t.Exhausted window) := by
        have hfault : (∃ fault, t.insert window hint = .error fault ∧ t.InsertFault window fault) →
            t.insert window hint = .error (.panic "Dwindle arena exhausted") ∧ t.Exhausted window := by
          rintro ⟨fault, hins, hf⟩
          obtain ⟨rfl, hfull⟩ := hf h.freeValid
          exact ⟨hins, hfull⟩
        obtain he | ⟨T, hT⟩ := hwf
        · refine (insert_empty he window hint).imp ?_ hfault
          rintro ⟨leaf, t', h₁, h₂, -, h₃⟩
          exact ⟨leaf, t', h₁, h₂.debugValidate, h₃⟩
        · refine (insert_nonempty hT (fun hw => hmem (hT.mem_byWindow.mpr hw)) hint).imp ?_ hfault
          rintro ⟨leaf, split, anchor, v, c, t', h₁, -, h₂, -, h₃⟩
          exact ⟨leaf, t', h₁, h₂.debugValidate, h₃⟩
      obtain ⟨leaf, t', hins, hwf', hev⟩ | ⟨hins, hfull⟩ := key
      · refine .inl ⟨.ok (), t', ?_, hwf', hev, fun e he => by simp at he⟩
        rw [step, hins]
        rfl
      · refine .inr ⟨window, hint, rfl, hfull, ?_⟩
        rw [step, hins]
        rfl
  | remove window =>
    refine .inl ?_
    by_cases hmem : window ∈ t.byWindow
    · obtain he | ⟨T, hT⟩ := hwf
      · rw [he.byWindow] at hmem
        exact absurd hmem Finmap.notMem_empty
      · obtain ⟨i, c, -, rfl⟩ := hT.exists_leaf (hT.mem_byWindow.mp hmem)
        cases c with
        | nil =>
          obtain ⟨t', h₁, h₂, h₃⟩ := remove_root hT
          exact ⟨.ok (), t', h₁, wellFormed_iff.mpr (.inl h₂), h₃, fun e he => by simp at he⟩
        | cons g c =>
          obtain ⟨t', h₁, h₂, h₃, -⟩ := remove_split hT
          exact ⟨.ok (), t', h₁, h₂.debugValidate, h₃, fun e he => by simp at he⟩
    · exact ⟨_, t, remove_of_not_mem hmem, h.wellFormed, hsame, fun _ _ => rfl⟩
  | setSplitRatio id ratio =>
    refine .inl ?_
    rw [step]
    obtain ⟨-, heq⟩ | ⟨-, -, heq⟩ | ⟨q, window, -, heq⟩ | ⟨r, q, axis, old, first, second, -, hn, heq⟩ :=
      setSplitRatio_cases t id ratio
    · exact ⟨_, t, by rw [heq], h.wellFormed, hsame, fun _ _ => rfl⟩
    · exact ⟨_, t, by rw [heq], h.wellFormed, hsame, fun _ _ => rfl⟩
    · exact ⟨_, t, by rw [heq], h.wellFormed, hsame, fun _ _ => rfl⟩
    · refine ⟨_, _, by rw [heq], ?_, (Arena.Step.set hn _).evolves, fun e he => by simp at he⟩
      obtain he | ⟨T, hT⟩ := hwf
      · exact absurd (he.no_node id) (by simp [hn])
      · have hsome : ∀ i, ((t.nodes.set id ⟨q, .split axis r first second⟩).get i).isSome →
            (t.nodes.get i).isSome := fun i hi => by
          rw [Arena.get_set hn] at hi
          split_ifs at hi with hii
          · simp [hii, hn]
          · exact hi
        refine Shape.debugValidate (T := T.setRatio id r) (Shape.of_leaves ?_ (hT.denotes.setRatio hn r)
          ?_ (fun i hi => ?_) (fun w i => ?_) ?_ (hT.order.nodup_iff.mpr hT.windows_nodup))
        · rw [Topology.setRatio_id]
          exact hT.root
        · rw [Topology.setRatio_ids]
          exact hT.ids_nodup
        · rw [Topology.setRatio_ids]
          exact hT.no_orphan i (hsome i hi)
        · rw [Topology.setRatio_leaves]
          exact hT.lookup w i
        · rw [Topology.setRatio_windows]
          exact hT.order

theorem step_sound {t t' : DwindleTree F} {op : TreeOp F} {result : Except DwindleTreeError Unit}
    (h : t.Sound) (hstep : t.step op = .ok (result, t')) :
    t'.Sound ∧ Arena.Evolves t.nodes t'.nodes ∧ ∀ e, result = .error e → t' = t := by
  obtain ⟨result', t'', heq, hwf, hev, herr⟩ | ⟨window, hint, -, -, heq⟩ := step_spec h op
  · rw [hstep, Except.ok.injEq, Prod.mk.injEq] at heq
    obtain ⟨rfl, rfl⟩ := heq
    exact ⟨⟨hwf, hev.freeValid h.freeValid⟩, hev, herr⟩
  · rw [hstep] at heq
    exact absurd heq (by simp)

theorem run_sound {t t' : DwindleTree F} {ops : List (TreeOp F)} (h : t.Sound)
    (hrun : run ops t = .ok t') : t'.Sound ∧ Arena.Evolves t.nodes t'.nodes := by
  induction ops generalizing t with
  | nil =>
    rw [run, Except.ok.injEq] at hrun
    exact hrun ▸ ⟨h, .refl⟩
  | cons op ops ih =>
    obtain ⟨⟨result, t₁⟩, hstep, hrest⟩ := Run.bind_eq_ok.mp hrun
    obtain ⟨h₁, hev, -⟩ := step_sound h hstep
    obtain ⟨h', hev'⟩ := ih h₁ hrest
    exact ⟨h', hev.trans hev'⟩

theorem run_ok_or_exhausted {t : DwindleTree F} (h : t.Sound) (ops : List (TreeOp F)) : (∃ t', run ops t = .ok t') ∨
    ∃ before window hint after t', ops = before ++ .insert window hint :: after ∧
      run before t = .ok t' ∧ t'.Exhausted window ∧ run ops t = .error (.panic "Dwindle arena exhausted") := by
  induction ops generalizing t with
  | nil => exact .inl ⟨t, rfl⟩
  | cons op ops ih =>
    obtain ⟨result, t₁, hstep, -⟩ | ⟨window, hint, rfl, hfull, hstep⟩ := step_spec h op
    · have hcons : ∀ rest, run (op :: rest) t = run rest t₁ := fun rest => by
        rw [run, hstep, Run.ok_bind]
      obtain ⟨t', hrun⟩ | ⟨before, window, hint, after, t', rfl, hbefore, hfull, hrun⟩ :=
        ih (step_sound h hstep).1
      · exact .inl ⟨t', (hcons ops).trans hrun⟩
      · exact .inr ⟨op :: before, window, hint, after, t', rfl, (hcons before).trans hbefore, hfull,
          (hcons _).trans hrun⟩
    · refine .inr ⟨[], window, hint, ops, t, rfl, rfl, hfull, ?_⟩
      rw [run, hstep]
      rfl

def ofRun (ops : List (TreeOp F)) : DwindleTree F := (run ops empty).toOption.getD empty

theorem ofRun_wellFormed (ops : List (TreeOp F)) : (ofRun ops).WellFormed := by
  unfold ofRun
  cases h : run ops empty with
  | error e => exact sound_empty.wellFormed
  | ok t => exact (run_sound sound_empty h).1.wellFormed

/-- Every run from the empty tree ends in a validated tree, whose failing calls change nothing. The one
fault is an allocation in an arena with `2 ^ 32` slots and none free. -/
theorem run_validates (ops : List (TreeOp F)) :
    (∃ t, run ops empty = .ok t ∧ t.debugValidate = .ok () ∧ (t.IsEmpty ∨ ∃ T, t.Shape T) ∧
      ∀ op e t', t.step op = .ok (.error e, t') → t' = t) ∨
    ∃ before window hint after t, ops = before ++ .insert window hint :: after ∧
      run before empty = .ok t ∧ t.Exhausted window ∧
      run ops empty = .error (.panic "Dwindle arena exhausted") := by
  refine (run_ok_or_exhausted sound_empty ops).imp_left ?_
  rintro ⟨t, hrun⟩
  have h := (run_sound sound_empty hrun).1
  exact ⟨t, hrun, h.wellFormed, wellFormed_iff.mp h.wellFormed,
    fun op e t' hstep => (step_sound h hstep).2.2 e rfl⟩

/-- An id whose node was live and has been removed stays unknown for the rest of the run. -/
theorem run_stale {before removal later : List (TreeOp F)} {t₁ t₂ t₃ : DwindleTree F}
    {id : DwindleNodeId} (hbefore : run before empty = .ok t₁) (hlive : (t₁.nodeKind id).isSome)
    (hremoval : run removal t₁ = .ok t₂) (hgone : t₂.nodeKind id = none) (hlater : run later t₂ = .ok t₃) :
    t₃.nodeKind id = none ∧ t₃.parentOf id = none ∧
      (∀ ratio, (SplitRatio.new ratio).isSome → t₃.setSplitRatio id ratio = (.error .unknownNode, t₃)) ∧
      ∀ ratio, SplitRatio.new ratio = none → t₃.setSplitRatio id ratio = (.error .invalidRatio, t₃) := by
  have h₁ := (run_sound sound_empty hbefore).1
  obtain ⟨h₂, hev₁⟩ := run_sound h₁ hremoval
  have hev₂ := (run_sound h₂ hlater).2
  rw [nodeKind, Option.isSome_map] at hlive
  have hretired := hev₁.retired_of_get_eq_none h₁.freeValid hlive (Option.map_eq_none_iff.mp hgone)
  have hnone : t₃.nodes.get id = none := (hev₂.retired hretired).get_eq_none
  refine ⟨by rw [nodeKind, hnone]; rfl, by rw [parentOf, hnone]; rfl, fun ratio hr => ?_, fun ratio hr => ?_⟩
  · obtain ⟨hr', -⟩ | ⟨-, -, heq⟩ | ⟨q, w, hn, -⟩ | ⟨r, q, axis, old, a, b, -, hn, -⟩ :=
      setSplitRatio_cases t₃ id ratio
    · simp [hr'] at hr
    · exact heq
    · simp [hnone] at hn
    · simp [hnone] at hn
  · rw [setSplitRatio, hr]

theorem exists_reused_slot : ∃ t₁ t₂ t₃ : DwindleTree ℚ,
    run [.insert ⟨1⟩ InsertHint.none] empty = .ok t₁ ∧ (t₁.nodeKind ⟨0, 1⟩).isSome ∧
    run [.remove ⟨1⟩] t₁ = .ok t₂ ∧ t₂.nodeKind ⟨0, 1⟩ = none ∧
    run [.insert ⟨2⟩ InsertHint.none] t₂ = .ok t₃ ∧ (t₃.nodeKind ⟨0, 2⟩).isSome :=
  ⟨_, _, _, rfl, rfl, rfl, rfl, rfl, rfl⟩

theorem run_stale_reused_slot : ∃ t₃ : DwindleTree ℚ, (t₃.nodeKind ⟨0, 2⟩).isSome ∧
    t₃.nodeKind ⟨0, 1⟩ = none ∧ t₃.parentOf ⟨0, 1⟩ = none ∧
    t₃.setSplitRatio ⟨0, 1⟩ (SplitRatio.default : SplitRatio ℚ).value = (.error .unknownNode, t₃) := by
  obtain ⟨t₁, t₂, t₃, h₁, hlive, h₂, hgone, h₃, hnew⟩ := exists_reused_slot
  obtain ⟨hkind, hparent, hratio, -⟩ := run_stale h₁ hlive h₂ hgone h₃
  exact ⟨t₃, hnew, hkind, hparent, hratio _ (by rw [new_value]; rfl)⟩

theorem stale_id_invalid_ratio : ∃ t₁ t₂ : DwindleTree ℚ,
    run [.insert ⟨1⟩ InsertHint.none] empty = .ok t₁ ∧ (t₁.nodeKind ⟨0, 1⟩).isSome ∧
    run [.remove ⟨1⟩] t₁ = .ok t₂ ∧ t₂.nodeKind ⟨0, 1⟩ = none ∧
    (t₂.setSplitRatio ⟨0, 1⟩ 2).1 = .error .invalidRatio ∧ (t₂.setSplitRatio ⟨0, 1⟩ 2).1 ≠ .error .unknownNode := by
  obtain ⟨t₁, t₂, t₃, h₁, hlive, h₂, hgone, -⟩ := exists_reused_slot
  have hnew : new (2 : ℚ) = none := by
    have hbad : accepts (2 : ℚ) = false := by decide +kernel
    simp [new, hbad]
  have hanswer : (t₂.setSplitRatio ⟨0, 1⟩ 2).1 = .error .invalidRatio := by rw [setSplitRatio, hnew]
  exact ⟨t₁, t₂, h₁, hlive, h₂, hgone, hanswer, by simp [hanswer]⟩

end DwindleTree
end Typhon.Layout
