import Typhon.Layout.SolveOutcome

/-! The reflow of one location: solve the tree, and while that is infeasible move the last inserted window
that the witness names out of it. -/

namespace Typhon.Layout
open Foundation Query LayoutConstraints

variable {F : Type} [Float64 F]

/-- The fields of a desktop window that a layout reads. Its `WindowConstraints` are those of the layout. -/
structure DesktopWindow (F : Type) where
  id : WindowId
  minimized : Bool
  constraints : LayoutConstraints F

structure DesktopWindows (F : Type) where
  table : HashMap WindowId (DesktopWindow F)
  keyed : ∀ id window, table.lookup id = some window → window.id = id

def snapshotForWindow (window : DesktopWindow F) : LayoutWindowSnapshot F :=
  ⟨window.id, window.minimized, window.constraints.normalized⟩

def candidateLayoutSnapshotsForTree (windows : DesktopWindows F) (tree : DwindleTree F) :
    List (LayoutWindowSnapshot F) :=
  tree.windows.filterMap fun id => (windows.table.lookup id).map snapshotForWindow

structure PreparedLocationReflow (F : Type) [Float64 F] where
  candidateTree : DwindleTree F
  finalSolution : TiledLayoutSolution F
  fallbackWindows : List WindowId

inductive ReflowTurn (F : Type) [Float64 F] where
  | solved (solution : TiledLayoutSolution F)
  | dropped (window : WindowId) (tree : DwindleTree F)
  | aborted

def reflowTurn (windows : DesktopWindows F) (root : LayoutRect) (tree : DwindleTree F) : Run Empty (ReflowTurn F) :=
  match solveTree tree root (candidateLayoutSnapshotsForTree windows tree) with
  | .ok solution => .ok (.solved solution)
  | .error (.error (.constraintInfeasible witness)) =>
    match (tree.leaves.reverse.map Prod.fst).find? fun window => decide (window ∈ witness.windows) with
    | none => .ok .aborted
    | some window => do
      match ← tree.remove window with
      | (.ok (), tree) => .ok (.dropped window tree)
      | (.error _, _) => .ok .aborted
  | .error (.error _) => .ok .aborted
  | .error (.panic message) => Run.panic message
  | .error .diverge => Run.diverge

def reflowLoop (windows : DesktopWindows F) (root : LayoutRect) :
    ℕ → DwindleTree F → List WindowId → Run Empty (Option (PreparedLocationReflow F))
  | 0, _, _ => Run.diverge
  | turns + 1, tree, fallback => do
    match ← reflowTurn windows root tree with
    | .solved solution => .ok (some ⟨tree, solution, fallback⟩)
    | .dropped window tree => reflowLoop windows root turns tree (fallback ++ [window])
    | .aborted => .ok none

/-- A turn that does not end the loop takes a window out of the tree, so a loop that ends needs at most one turn more
than there are windows. -/
def prepareLocationReflow (windows : DesktopWindows F) (root : LayoutRect) (tree : DwindleTree F) :
    Run Empty (Option (PreparedLocationReflow F)) :=
  reflowLoop windows root (tree.windows.length + 1) tree []

/-! ### Snapshots of a candidate tree -/

theorem LayoutConstraints.validate_normalized (c : LayoutConstraints F) : c.normalized.validate = .ok () := by
  have hsize : ∀ min max : Option U32, sizesReversed min (if sizesReversed min max then none else max) = false :=
    fun min max => by
      cases h : sizesReversed min max with
      | true => cases min <;> rfl
      | false => simpa using h
  have hstep : ∀ step : Option U32, ((step.filter fun s => 0 < s.val).any fun s => s.val = 0) = false := fun step => by
    cases step with
    | none => rfl
    | some s =>
      by_cases hs : 0 < s.val
      · simp [Option.filter, hs, hs.ne']
      · simp [Option.filter, hs]
  have haspect : ∀ aspect : Option F, aspectInvalid (if aspectInvalid aspect then none else aspect) = false :=
    fun aspect => by
      cases h : aspectInvalid aspect with
      | true => rfl
      | false => simpa using h
  unfold validate normalized
  simp only [hsize, hstep, Bool.false_eq_true, if_false]
  by_cases hrev : aspectsReversed (if aspectInvalid c.minAspect then none else c.minAspect)
      (if aspectInvalid c.maxAspect then none else c.maxAspect) = true
  · simp only [if_pos hrev]
    rfl
  · simp [hrev, haspect]

section Snapshots
variable (windows : DesktopWindows F) {tree : DwindleTree F}

variable {windows} in
theorem mem_candidateSnapshots {s : LayoutWindowSnapshot F} : s ∈ candidateLayoutSnapshotsForTree windows tree ↔
      ∃ w ∈ tree.windows, ∃ d, windows.table.lookup w = some d ∧ snapshotForWindow d = s := by
  simp [candidateLayoutSnapshotsForTree]

theorem candidateSnapshots_windows :
    (candidateLayoutSnapshotsForTree windows tree).map LayoutWindowSnapshot.window =
      tree.windows.filter fun w => (windows.table.lookup w).isSome := by
  rw [candidateLayoutSnapshotsForTree, List.map_filterMap, ← List.filterMap_eq_filter]
  refine List.filterMap_congr fun w _ => ?_
  cases hd : windows.table.lookup w with
  | none => simp [Option.guard, hd]
  | some d => simp [Option.guard, hd, snapshotForWindow, windows.keyed w d hd]

theorem exists_snapshotMap (hnd : tree.windows.Nodup) :
    ∃ map, snapshotMap (candidateLayoutSnapshotsForTree windows tree) = .ok map ∧ ∀ w s,
      map.lookup w = some s ↔ w ∈ tree.windows ∧ ∃ d, windows.table.lookup w = some d ∧ snapshotForWindow d = s := by
  obtain ⟨map, hmap⟩ := snapshotMap_total.mpr (⟨candidateSnapshots_windows windows ▸ hnd.filter _, fun s hs => by
    obtain ⟨w, -, d, -, rfl⟩ := mem_candidateSnapshots.mp hs
    exact d.constraints.validate_normalized⟩ :
      ((candidateLayoutSnapshotsForTree windows tree).map LayoutWindowSnapshot.window).Nodup ∧ _)
  refine ⟨map, hmap, fun w s => ?_⟩
  rw [snapshotMap_lookup hmap, mem_candidateSnapshots]
  constructor
  · rintro ⟨⟨v, hv, d, hd, rfl⟩, rfl⟩
    rw [show (snapshotForWindow d).window = v from windows.keyed v d hd]
    exact ⟨hv, d, hd, rfl⟩
  · rintro ⟨hw, d, hd, rfl⟩
    exact ⟨⟨w, hw, d, hd, rfl⟩, windows.keyed w d hd⟩

end Snapshots

/-! ### One turn -/

variable {t : DwindleTree F}

theorem DwindleTree.WellFormed.nodup (h : t.WellFormed) : t.windows.Nodup := by
  obtain he | ⟨T, hT⟩ := wellFormed_iff.mp h
  · rw [windows, he.order]
    exact List.nodup_nil
  · exact hT.order.nodup_iff.mpr hT.windows_nodup

theorem DwindleTree.WellFormed.leaves (h : t.WellFormed) : t.leaves.map Prod.fst = t.windows := by
  have hall : ∀ w ∈ t.windows, (t.byWindow.lookup w).isSome = true := fun w hw => by
    obtain he | ⟨T, hT⟩ := wellFormed_iff.mp h
    · rw [windows, he.order] at hw
      simp at hw
    · exact Finmap.lookup_isSome.mpr (hT.mem_byWindow.mpr (hT.order.mem_iff.mp hw))
  rw [DwindleTree.leaves, List.map_filterMap]
  conv_rhs => rw [← List.filterMap_some (l := t.windows)]
  refine List.filterMap_congr fun w hw => ?_
  obtain ⟨i, hi⟩ := Option.isSome_iff_exists.mp (hall w hw)
  simp [hi]

theorem DwindleTree.WellFormed.remove (h : t.WellFormed) {w : WindowId} (hw : w ∈ t.windows) :
    ∃ t', t.remove w = .ok (.ok (), t') ∧ t'.WellFormed ∧ t'.windows = t.windows.filter fun v => v ≠ w := by
  obtain he | ⟨T, hT⟩ := wellFormed_iff.mp h
  · rw [windows, he.order] at hw
    simp at hw
  obtain ⟨i, c, -, rfl⟩ := hT.exists_leaf (hT.order.mem_iff.mp hw)
  cases c with
  | nil =>
    obtain ⟨t', hrem, hempty, -⟩ := remove_root hT
    refine ⟨t', hrem, wellFormed_iff.mpr (.inl hempty), ?_⟩
    have horder : t.insertionOrder = [w] := List.perm_singleton.mp hT.order
    simp [windows, hempty.order, horder]
  | cons g c =>
    obtain ⟨t', hrem, hT', -, horder⟩ := remove_split hT
    exact ⟨t', hrem, hT'.debugValidate, horder⟩

theorem reflowTurn_of_names {windows : DesktopWindows F} {root : LayoutRect} {tree : DwindleTree F}
    (h : tree.WellFormed) {names : List WindowId} (hsub : ∀ w ∈ names, w ∈ tree.windows)
    {witness : ConstraintInfeasibility} (hne : witness.windows ≠ []) (hnames : ∀ w ∈ witness.windows, w ∈ names)
    (hsolve : solveTree tree root (candidateLayoutSnapshotsForTree windows tree) =
      .error (.error (.constraintInfeasible witness))) :
    ∃ w tree', reflowTurn windows root tree = .ok (.dropped w tree') ∧ w ∈ names ∧ tree'.WellFormed ∧
      tree'.windows = tree.windows.filter fun v => v ≠ w := by
  obtain ⟨v, hv⟩ := List.exists_mem_of_ne_nil _ hne
  have hmap : tree.leaves.reverse.map Prod.fst = tree.windows.reverse := by rw [List.map_reverse, h.leaves]
  have hsome : (tree.windows.reverse.find? fun window => decide (window ∈ witness.windows)).isSome = true := by
    rw [List.find?_isSome]
    exact ⟨v, List.mem_reverse.mpr (hsub v (hnames v hv)), by simpa using hv⟩
  obtain ⟨w, hw⟩ := Option.isSome_iff_exists.mp hsome
  have hwit : w ∈ witness.windows := by simpa using List.find?_some hw
  obtain ⟨tree', hrem, hwf, horder⟩ := h.remove (hsub w (hnames w hwit))
  refine ⟨w, tree', ?_, hnames w hwit, hwf, horder⟩
  simp only [reflowTurn, hsolve, hmap, hw, hrem, Run.ok_bind]

/-! ### Whole reflows -/

section Meaning
variable (windows : DesktopWindows F)

def Candidate (root : LayoutRect) : DwindleTree F → DwindleTree F → Prop :=
  Relation.ReflTransGen fun tree tree' => ∃ w, reflowTurn windows root tree = .ok (.dropped w tree')

def DesktopWindows.Active (w : WindowId) : Prop :=
  ∃ d, windows.table.lookup w = some d ∧ d.minimized = false

def SolvedOrNamed (root : LayoutRect) (tree : DwindleTree F) : Prop :=
  (∃ solution, solveTree tree root (candidateLayoutSnapshotsForTree windows tree) = .ok solution) ∨
    ∃ witness, solveTree tree root (candidateLayoutSnapshotsForTree windows tree) =
      .error (.error (.constraintInfeasible witness)) ∧
      ∃ w ∈ witness.windows, w ∈ tree.windows ∧ windows.Active w

/-- A reflow that converges: it ends with a solved tree, that tree and the dropped windows make up the
original windows, only active ones are dropped, and all it meets on the way are infeasibilities that
name an active window of the candidate tree. -/
structure Converges (root : LayoutRect) (tree : DwindleTree F) : Prop where
  ends : ∃ prepared, prepareLocationReflow windows root tree = .ok (some prepared) ∧
    (prepared.candidateTree.windows ++ prepared.fallbackWindows).Perm tree.windows ∧
    (prepared.candidateTree.windows ++ prepared.fallbackWindows).Nodup ∧
    ∀ w ∈ prepared.fallbackWindows, windows.Active w
  meets : ∀ candidate, Candidate windows root tree candidate → SolvedOrNamed windows root candidate

structure Reflowable (root : LayoutRect) (tree : DwindleTree F) : Prop where
  wellFormed : tree.WellFormed
  covered : ∀ w ∈ tree.windows, ∃ d, windows.table.lookup w = some d
  minima : ∀ w ∈ tree.windows, ∀ d, windows.table.lookup w = some d → d.constraints.MinimaPositive
  addressable : root.Addressable

/-- For every active window of the tree the search for a client rectangle answers in every tile within the bound. -/
def DesktopWindows.Settle (bound : Size) (tree : DwindleTree F) : Prop :=
  ∀ w ∈ tree.windows, ∀ d, windows.table.lookup w = some d → d.minimized = false →
    d.constraints.normalized.Settles bound

end Meaning

section Reflow
variable {windows : DesktopWindows F} {root : LayoutRect} {tree : DwindleTree F}

section Drop
variable {tree' : DwindleTree F} {w : WindowId} (horder : tree'.windows = tree.windows.filter fun v => v ≠ w)
include horder

theorem Reflowable.drop (h : Reflowable windows root tree) (hwf : tree'.WellFormed) :
    Reflowable windows root tree' := by
  have hsub : ∀ v ∈ tree'.windows, v ∈ tree.windows := fun v hv => (List.mem_filter.mp (horder ▸ hv)).1
  exact ⟨hwf, fun v hv => h.covered v (hsub v hv), fun v hv => h.minima v (hsub v hv), h.addressable⟩

theorem DesktopWindows.Settle.drop {bound : Size} (h : windows.Settle bound tree) : windows.Settle bound tree' :=
  fun v hv => h v (List.mem_filter.mp (horder ▸ hv)).1

end Drop

section Lawful
variable [LawfulFloat64 F]

theorem reflowTurn_cases (h : Reflowable windows root tree) (hsettle : windows.Settle root.size tree) :
    SolvedOrNamed windows root tree ∧ ((∃ solution, reflowTurn windows root tree = .ok (.solved solution)) ∨
      ∃ w tree', reflowTurn windows root tree = .ok (.dropped w tree') ∧ w ∈ tree.windows ∧ windows.Active w ∧
        tree'.WellFormed ∧ tree'.windows = tree.windows.filter fun v => v ≠ w) := by
  have hsolved : ∀ solution, solveTree tree root (candidateLayoutSnapshotsForTree windows tree) = .ok solution →
      reflowTurn windows root tree = .ok (.solved solution) := fun solution hs => by rw [reflowTurn, hs]
  obtain ⟨map, hmap, hlook⟩ := exists_snapshotMap windows h.wellFormed.nodup
  obtain he | ⟨T, hT⟩ := DwindleTree.wellFormed_iff.mp h.wellFormed
  · have hs : ∃ solution, solveTree tree root (candidateLayoutSnapshotsForTree windows tree) = .ok solution := by
      rw [solveTree, solveTreeWithRatioOverrides, hmap, Run.ok_bind, he.root]
      exact ⟨_, rfl⟩
    obtain ⟨solution, hs⟩ := hs
    exact ⟨.inl ⟨solution, hs⟩, .inl ⟨solution, hsolved solution hs⟩⟩
  have hmem : ∀ w, w ∈ T.windows ↔ w ∈ tree.windows := fun w => hT.order.mem_iff.symm
  have hsettled : Settled map root.size := fun w s hs hm => by
    obtain ⟨hw, d, hd, rfl⟩ := (hlook w s).mp hs
    exact hsettle w hw d hd hm
  have hcov : ∀ w ∈ T.windows, ∃ s, map.lookup w = some s := fun w hw => by
    obtain ⟨d, hd⟩ := h.covered w ((hmem w).mp hw)
    exact ⟨_, (hlook w _).mpr ⟨(hmem w).mp hw, d, hd, rfl⟩⟩
  have hminima : ∀ w s, map.lookup w = some s → s.constraints.MinimaPositive := fun w s hs => by
    obtain ⟨hw, d, hd, rfl⟩ := (hlook w s).mp hs
    exact ⟨(h.minima w hw d hd).width, (h.minima w hw d hd).height⟩
  have hactive : ∀ w ∈ T.active map, w ∈ tree.windows ∧ windows.Active w := fun w hw => by
    obtain ⟨hw, hact⟩ := List.mem_filter.mp hw
    obtain ⟨s, hs, hm⟩ := isActive_iff.mp hact
    obtain ⟨hw, d, hd, rfl⟩ := (hlook w s).mp hs
    exact ⟨hw, d, hd, hm⟩
  obtain ⟨solution, hs⟩ | ⟨_, hs, witness, rfl, hne, hnames⟩ :=
    solve_outcome [] hT hmap hcov h.addressable hsettled hminima
  · exact ⟨.inl ⟨solution, hs⟩, .inl ⟨solution, hsolved solution hs⟩⟩
  · obtain ⟨v, hv⟩ := List.exists_mem_of_ne_nil _ hne
    refine ⟨.inr ⟨witness, hs, v, hv, hactive v (hnames v hv)⟩, .inr ?_⟩
    obtain ⟨w, tree', hturn, hw, hwf, horder⟩ := reflowTurn_of_names h.wellFormed (fun w hw => (hactive w hw).1) hne
      hnames hs
    exact ⟨w, tree', hturn, (hactive w hw).1, (hactive w hw).2, hwf, horder⟩

theorem reflowLoop_ends {turns : ℕ} {fallback : List WindowId} (h : Reflowable windows root tree)
    (hsettle : windows.Settle root.size tree) (hturns : tree.windows.length < turns)
    (hdropped : ∀ w ∈ fallback, windows.Active w) :
    ∃ prepared, reflowLoop windows root turns tree fallback = .ok (some prepared) ∧
      (prepared.candidateTree.windows ++ prepared.fallbackWindows).Perm (tree.windows ++ fallback) ∧
      ∀ w ∈ prepared.fallbackWindows, windows.Active w := by
  induction turns generalizing tree fallback with
  | zero => omega
  | succ turns ih =>
    obtain ⟨-, ⟨solution, hturn⟩ | ⟨w, tree', hturn, hw, hact, hwf, horder⟩⟩ := reflowTurn_cases h hsettle
    · exact ⟨⟨tree, solution, fallback⟩, by rw [reflowLoop, hturn]; rfl, List.Perm.refl _, hdropped⟩
    · have hperm : tree.windows.Perm (tree'.windows ++ [w]) := by
        have hfilter : tree.windows.filter (fun v => v ≠ w) = tree.windows.erase w := by
          rw [h.wellFormed.nodup.erase_eq_filter]
          exact List.filter_congr fun v _ => by rw [Bool.eq_iff_iff]; simp
        rw [horder, hfilter]
        exact (List.perm_cons_erase hw).trans (List.perm_append_singleton _ _).symm
      have hlen := hperm.length_eq
      rw [List.length_append, List.length_singleton] at hlen
      have hdropped' : ∀ v ∈ fallback ++ [w], windows.Active v := fun v hv => by
        obtain hv | hv := List.mem_append.mp hv
        · exact hdropped v hv
        · exact List.mem_singleton.mp hv ▸ hact
      obtain ⟨prepared, hloop, hall, hdrop⟩ := ih (h.drop horder hwf) (hsettle.drop horder) (by omega) hdropped'
      refine ⟨prepared, by rw [reflowLoop, hturn]; exact hloop, hall.trans ?_, hdrop⟩
      have hmove : (tree'.windows ++ (fallback ++ [w])).Perm (tree'.windows ++ ([w] ++ fallback)) :=
        List.perm_append_comm.append_left _
      rw [← List.append_assoc tree'.windows [w]] at hmove
      exact hmove.trans (hperm.symm.append_right _)

theorem Candidate.reflowable {candidate : DwindleTree F} (h : Reflowable windows root tree)
    (hsettle : windows.Settle root.size tree) (hc : Candidate windows root tree candidate) :
    Reflowable windows root candidate ∧ windows.Settle root.size candidate := by
  induction hc with
  | refl => exact ⟨h, hsettle⟩
  | tail _ hturn ih =>
    obtain ⟨v, hturn⟩ := hturn
    obtain ⟨-, ⟨solution, hturn'⟩ | ⟨w, tree', hturn', -, -, hwf, horder⟩⟩ := reflowTurn_cases ih.1 ih.2
    · rw [hturn'] at hturn
      simp at hturn
    · rw [hturn', Except.ok.injEq, ReflowTurn.dropped.injEq] at hturn
      obtain ⟨rfl, rfl⟩ := hturn
      exact ⟨ih.1.drop horder hwf, ih.2.drop horder⟩

theorem Reflowable.converges (h : Reflowable windows root tree) (hsettle : windows.Settle root.size tree) :
    Converges windows root tree := by
  have hnone : ∀ w ∈ ([] : List WindowId), windows.Active w := by simp
  obtain ⟨prepared, hloop, hperm, hdrop⟩ := reflowLoop_ends h hsettle (Nat.lt_succ_self _) hnone
  rw [List.append_nil] at hperm
  refine ⟨⟨prepared, hloop, hperm, hperm.nodup_iff.mpr h.wellFormed.nodup, hdrop⟩, fun candidate hc => ?_⟩
  obtain ⟨hre, hset⟩ := hc.reflowable h hsettle
  exact (reflowTurn_cases hre hset).1

end Lawful

/-! ### One window alone -/

theorem exists_single (w : WindowId) : ∃ (t : DwindleTree F) (leaf : DwindleNodeId),
    t.Shape (.leaf leaf w) ∧ t.windows = [w] := by
  obtain ⟨leaf, t', -, hshape, horder, -⟩ | ⟨fault, hfault, -⟩ :=
    DwindleTree.insert_empty (t := (DwindleTree.empty : DwindleTree F)) ⟨rfl, Arena.get_empty, rfl, rfl⟩ w .none
  · exact ⟨t', leaf, hshape, horder⟩
  · cases hfault

theorem resolveClientRect_moved {c : LayoutConstraints F} {tile tile' : LayoutRect} (hwidth : tile.width = tile'.width)
    (hheight : tile.height = tile'.height) (h : (∃ client, resolveClientRectWithinTile tile c = .ok client) ∨
      resolveClientRectWithinTile tile c = .error (.error .infeasible)) :
    (∃ client, resolveClientRectWithinTile tile' c = .ok client) ∨
      resolveClientRectWithinTile tile' c = .error (.error .infeasible) := by
  have hlat : tileLattices c tile = tileLattices c tile' := by rw [tileLattices, tileLattices, hwidth, hheight]
  unfold resolveClientRectWithinTile at *
  rw [hlat] at h
  split at h
  · simp [Run.fail] at h
  · cases hpair : tileLattices c tile' with
    | none => exact .inr rfl
    | some pair =>
      simp only [hpair, Run.okOr_some, Run.ok_bind] at h ⊢
      generalize findBestLatticePair c pair.1 pair.2 = best at h ⊢
      rcases best with fault | best
      · refine h.imp_left ?_
        rintro ⟨client, ⟨⟩⟩
      · rw [Run.ok_bind] at h ⊢
        cases best with
        | none => exact .inr rfl
        | some size =>
          simp only [Run.okOr_some, Run.ok_bind, LayoutRect.new] at h ⊢
          split_ifs at h ⊢
          · exact .inl ⟨_, rfl⟩
          · exact .inr rfl

theorem Converges.settles {leaf : DwindleNodeId} {w : WindowId} {d : DesktopWindow F} (hT : tree.Shape (.leaf leaf w))
    (hwindows : tree.windows = [w]) (hd : windows.table.lookup w = some d) (hm : d.minimized = false)
    (h : Converges windows root tree) :
    (∃ client, resolveClientRectWithinTile root d.constraints.normalized = .ok client) ∨
      resolveClientRectWithinTile root d.constraints.normalized = .error (.error .infeasible) := by
  have hwf : tree.WellFormed := hT.debugValidate
  obtain ⟨map, hmap, hlook⟩ := exists_snapshotMap windows hwf.nodup
  have hs : map.lookup w = some (snapshotForWindow d) := (hlook w _).mpr ⟨by rw [hwindows]; simp, d, hd, rfl⟩
  have hvalid : d.constraints.normalized.validate = .ok () := d.constraints.validate_normalized
  cases hc : resolveClientRectWithinTile root d.constraints.normalized with
  | ok client => exact .inl ⟨client, rfl⟩
  | error fault =>
    have herror : ∃ e, fault = .error e := by
      by_contra hbreak
      push Not at hbreak
      obtain ⟨fault', hfault, hno⟩ := solve_leaf_breaks hT hmap hs hm hvalid hc hbreak
      obtain ⟨solution, hsolve⟩ | ⟨witness, hsolve, -⟩ := h.meets tree .refl
      · cases hfault.symm.trans hsolve
      · exact hno _ (Except.error.inj (hfault.symm.trans hsolve))
    obtain ⟨e, rfl⟩ := herror
    rw [resolveClientRect_error _ hvalid hc]
    exact .inr rfl

end Reflow

section Exact
variable (windows : DesktopWindows ℚ) (root : LayoutRect)

def DesktopWindows.DividesByZero (w : WindowId) : Prop :=
  ∃ d, windows.table.lookup w = some d ∧ d.minimized = false ∧ d.constraints.normalized.Degenerate ∧
    d.constraints.normalized.OffersIn root.width.val root.height.val

/-- The root is shorter than `u32::MAX`, or no active window of the tree has an aspect bound. -/
def DesktopWindows.Small (tree : DwindleTree ℚ) : Prop :=
  (∀ axis, root.size axis < 4294967295) ∨ ∀ w ∈ tree.windows, ∀ d, windows.table.lookup w = some d →
    d.minimized = false → d.constraints.normalized.minAspect = none ∧ d.constraints.normalized.maxAspect = none

variable {windows : DesktopWindows ℚ} {root : LayoutRect} {tree : DwindleTree ℚ}

theorem Reflowable.settle_iff (h : Reflowable windows root tree) (hsmall : windows.Small root tree) :
    windows.Settle root.size tree ↔ ∀ w ∈ tree.windows, ¬ windows.DividesByZero root w := by
  have hiff : ∀ w ∈ tree.windows, ∀ d, windows.table.lookup w = some d → d.minimized = false →
      (d.constraints.normalized.Settles root.size ↔ ¬ (d.constraints.normalized.Degenerate ∧
        d.constraints.normalized.OffersIn root.width.val root.height.val)) := fun w hw d hd hm =>
    LayoutConstraints.settles_iff d.constraints.validate_normalized ⟨(h.minima w hw d hd).width,
      (h.minima w hw d hd).height⟩ (hsmall.imp_right fun hno => hno w hw d hd hm)
  constructor
  · rintro hsettle w hw ⟨d, hd, hm, hzero⟩
    exact (hiff w hw d hd hm).mp (hsettle w hw d hd hm) hzero
  · exact fun hno w hw d hd hm => (hiff w hw d hd hm).mpr fun hzero => hno w hw ⟨d, hd, hm, hzero⟩

end Exact

def DesktopWindows.empty : DesktopWindows F := ⟨∅, fun id window h => by simp at h⟩

def DesktopWindows.insert (windows : DesktopWindows F) (window : DesktopWindow F) : DesktopWindows F where
  table := windows.table.insert window.id window
  keyed := fun id w h => by
    rw [HashMap.lookup_insert] at h
    split_ifs at h with heq
    · rw [← Option.some.inj h, heq]
    · exact windows.keyed id w h

def besidePlain (second : DesktopWindow ℚ) : DesktopWindows ℚ :=
  (DesktopWindows.empty.insert ⟨⟨1⟩, false, .unconstrained⟩).insert second

theorem besidePlain_lookup (second : DesktopWindow ℚ) (w : WindowId) : (besidePlain second).table.lookup w =
      if w = second.id then some second else if w = ⟨1⟩ then some ⟨⟨1⟩, false, .unconstrained⟩ else none := by
  simp [besidePlain, DesktopWindows.insert, DesktopWindows.empty, HashMap.lookup_insert]

theorem reflowable_besidePlain {second : DesktopWindow ℚ} (hid : second.id = ⟨2⟩)
    (hmin : second.constraints.MinimaPositive) :
    Reflowable (besidePlain second) (rectOf 0 0 100 100) twoWindows := by
  have hwindows : twoWindows.windows = [⟨1⟩, ⟨2⟩] := by decide +kernel
  refine ⟨DwindleTree.ofRun_wellFormed _, fun w hw => ?_, fun w hw d hd => ?_, by decide, by decide⟩
  · rw [besidePlain_lookup, hid]
    rw [hwindows, List.mem_pair] at hw
    obtain rfl | rfl := hw
    · exact ⟨_, rfl⟩
    · exact ⟨_, rfl⟩
  · rw [besidePlain_lookup] at hd
    split_ifs at hd
    · exact Option.some.inj hd ▸ hmin
    · obtain rfl := Option.some.inj hd
      constructor <;> simp [unconstrained]

def hugeWindow : DesktopWindow ℚ :=
  ⟨⟨2⟩, false, { (unconstrained : LayoutConstraints ℚ) with minWidth := some ⟨200, by decide⟩ }⟩

theorem hugeWindow_whole (root : LayoutRect) (w : WindowId) : ¬ (besidePlain hugeWindow).DividesByZero root w := by
  rintro ⟨d, hd, -, ⟨a, ha, -⟩, -⟩
  rw [besidePlain_lookup] at hd
  split_ifs at hd
  · obtain rfl := Option.some.inj hd
    simp [hugeWindow, unconstrained, normalized, aspectInvalid,
      aspectsReversed] at ha
  · obtain rfl := Option.some.inj hd
    simp [unconstrained, normalized, aspectInvalid, aspectsReversed] at ha

def threadWindow : DesktopWindow ℚ :=
  ⟨⟨2⟩, false, { (unconstrained : LayoutConstraints ℚ) with
    minAspect := some (1 / 1000000000000000)
    maxAspect := some (1 / 1000000000000000) }⟩

end Typhon.Layout
