import Typhon.Layout.Migration

/-! A migration loses no window. Each one that moves is at its new location or floats, and each other one stays where it
was. -/

namespace Typhon.Layout
open Foundation

variable {F : Type} [Float64 F]

/-! ### One tree -/

namespace DwindleTree
variable {t : DwindleTree F} {w : WindowId}

theorem WellFormed.mem_byWindow (h : t.WellFormed) : w ∈ t.byWindow ↔ w ∈ t.windows := by
  obtain he | ⟨T, hT⟩ := wellFormed_iff.mp h
  · rw [he.byWindow, windows, he.order]
    simp [Finmap.notMem_empty]
  · rw [hT.mem_byWindow]
    exact hT.order.mem_iff.symm

theorem WellFormed.containsWindow_iff (h : t.WellFormed) : t.containsWindow w = true ↔ w ∈ t.windows := by
  rw [containsWindow, decide_eq_true_eq, h.mem_byWindow]

theorem Sound.remove (h : t.Sound) (hw : w ∈ t.windows) :
    ∃ t', t.remove w = .ok (.ok (), t') ∧ t'.Sound ∧ t'.windows = t.windows.filter fun v => v ≠ w := by
  obtain ⟨t', hrem, -, hwindows⟩ := h.wellFormed.remove hw
  have hstep : t.step (.remove w) = .ok (.ok (), t') := hrem
  exact ⟨t', hrem, (step_sound h hstep).1, hwindows⟩

theorem Sound.insert (h : t.Sound) (hw : w ∉ t.windows) (hint : InsertHint) :
    (∃ leaf t', t.insert w hint = .ok (.ok leaf, t') ∧ t'.Sound ∧ t'.windows = t.windows ++ [w]) ∨
      t.insert w hint = .error (.panic "Dwindle arena exhausted") ∧ t.Exhausted w := by
  have hfault : (∃ fault, t.insert w hint = .error fault ∧ t.InsertFault w fault) →
      t.insert w hint = .error (.panic "Dwindle arena exhausted") ∧ t.Exhausted w := by
    rintro ⟨fault, hins, hf⟩
    obtain ⟨rfl, hfull⟩ := hf h.freeValid
    exact ⟨hins, hfull⟩
  obtain he | ⟨T, hT⟩ := wellFormed_iff.mp h.wellFormed
  · refine (insert_empty he w hint).imp ?_ hfault
    rintro ⟨leaf, t', hins, hshape, horder, hev⟩
    exact ⟨leaf, t', hins, ⟨hshape.debugValidate, hev.freeValid h.freeValid⟩, horder⟩
  · refine (insert_nonempty hT (fun hmem => hw (hT.order.mem_iff.mpr hmem)) hint).imp ?_ hfault
    rintro ⟨leaf, split, anchor, v, c, t', hins, -, hshape, horder, hev⟩
    exact ⟨leaf, t', hins, ⟨hshape.debugValidate, hev.freeValid h.freeValid⟩, horder⟩

def stepWindows (windows : List WindowId) : TreeOp F → List WindowId
  | .insert window _ => if window ∈ windows then windows else windows ++ [window]
  | .remove window => windows.filter fun candidate => candidate ≠ window
  | .setSplitRatio _ _ => windows

theorem Sound.step_windows (h : t.Sound) (op : TreeOp F) : Run.Outcome (· = .panic "Dwindle arena exhausted")
      (fun answer => answer.2.Sound ∧ answer.2.windows = stepWindows t.windows op) (t.step op) := by
  cases op with
  | insert window hint =>
    rw [step, stepWindows]
    split_ifs with hw
    · rw [insert_of_contains (h.wellFormed.mem_byWindow.mpr hw)]
      exact ⟨h, rfl⟩
    · obtain ⟨leaf, t', hins, ht', hwindows⟩ | ⟨hins, -⟩ := h.insert hw hint <;> rw [hins]
      · exact ⟨ht', hwindows⟩
      · rfl
  | remove window =>
    rw [step, stepWindows]
    by_cases hw : window ∈ t.windows
    · obtain ⟨t', hrem, ht', hwindows⟩ := h.remove hw
      rw [hrem]
      exact ⟨ht', hwindows⟩
    · rw [remove_of_not_mem (mt h.wellFormed.mem_byWindow.mp hw)]
      exact ⟨h, (List.filter_eq_self.mpr fun v hv => by simpa using ne_of_mem_of_not_mem hv hw).symm⟩
  | setSplitRatio id ratio =>
    have hstep : t.step (.setSplitRatio id ratio) = .ok (t.setSplitRatio id ratio) := rfl
    refine ⟨(step_sound h hstep).1, ?_⟩
    obtain ⟨-, heq⟩ | ⟨-, -, heq⟩ | ⟨q, v, -, heq⟩ | ⟨r, q, axis, old, a, b, -, -, heq⟩ :=
      setSplitRatio_cases t id ratio <;> rw [heq] <;> rfl

/-- Every run of insertions, removals and new ratios leaves the windows that were inserted and not removed since, in
the order of their insertion, unless it meets a full arena. -/
theorem windows_after_run (ops : List (TreeOp F)) :
    Run.Outcome (· = .panic "Dwindle arena exhausted") (fun t => t.windows = ops.foldl stepWindows [])
      (run ops empty) := by
  suffices hrun : ∀ {t : DwindleTree F}, t.Sound → Run.Outcome (· = .panic "Dwindle arena exhausted")
      (fun t' => t'.windows = ops.foldl stepWindows t.windows) (run ops t) from hrun sound_empty
  induction ops with
  | nil => exact fun _ => rfl
  | cons op ops ih =>
    intro t h
    refine (h.step_windows op).bind fun answer _ hanswer => ?_
    rw [List.foldl_cons, ← hanswer.2]
    exact ih hanswer.1

theorem WellFormed.windows_of_len (h : t.WellFormed) (hlen : t.len = 0) : w ∉ t.windows := by
  rw [← h.mem_byWindow, ← Finmap.mem_keys]
  rw [len, HashMap.len, Finset.card_eq_zero] at hlen
  rw [hlen]
  exact Finset.notMem_empty w

end DwindleTree

/-! ### Where the windows are -/

def Holds (trees : Spaces F) (location : WorkspaceLocation) (w : WindowId) : Prop :=
  ∃ tree, trees.lookup location = some tree ∧ w ∈ tree.windows

def SoundTrees (trees : Spaces F) : Prop := ∀ location tree, trees.lookup location = some tree → tree.Sound

variable {trees : Spaces F}

theorem holds_of_lookup {l : WorkspaceLocation} {tree : DwindleTree F}
    (h : trees.lookup l = some tree) (w : WindowId) : Holds trees l w ↔ w ∈ tree.windows := by
  constructor
  · rintro ⟨tree', h', hw⟩
    rw [h] at h'
    exact Option.some.inj h' ▸ hw
  · exact fun hw => ⟨tree, h, hw⟩

theorem holds_insert (l l' : WorkspaceLocation) (tree : DwindleTree F) (w : WindowId) :
    Holds (trees.insert l tree) l' w ↔ if l' = l then w ∈ tree.windows else Holds trees l' w := by
  simp only [Holds, HashMap.lookup_insert]
  split_ifs with hl
  · simp
  · rfl

theorem SoundTrees.insert (h : SoundTrees trees) (l : WorkspaceLocation) {tree : DwindleTree F}
    (htree : tree.Sound) : SoundTrees (trees.insert l tree) := by
  intro l' tree' hl'
  rw [HashMap.lookup_insert] at hl'
  split_ifs at hl' with heq
  · exact Option.some.inj hl' ▸ htree
  · exact h l' tree' hl'

namespace TiledLayoutManager
variable {m : TiledLayoutManager F}

structure Sound (m : TiledLayoutManager F) : Prop where
  trees : SoundTrees m.spaces
  apart : ∀ l l' w, Holds m.spaces l w → Holds m.spaces l' w → l = l'

theorem Sound.getD (h : m.Sound) (l : WorkspaceLocation) : ((m.tree l).getD .empty).Sound := by
  cases htree : m.tree l with
  | none => exact DwindleTree.sound_empty
  | some tree => exact h.trees l tree htree

theorem mem_getD_windows (l : WorkspaceLocation) (w : WindowId) :
    w ∈ ((m.tree l).getD .empty).windows ↔ Holds m.spaces l w := by
  unfold Holds tree
  cases m.spaces.lookup l with
  | none => simp [DwindleTree.windows, DwindleTree.empty]
  | some tree => simp

/-! ### Calls of the manager -/

theorem sound_empty : Sound (⟨∅⟩ : TiledLayoutManager F) :=
  ⟨fun l tree h => by simp at h, fun l l' w ⟨tree, h, _⟩ => by simp at h⟩

theorem holds_replaceTree {tree : DwindleTree F} (htree : tree.Sound) (l l' : WorkspaceLocation) (w : WindowId) :
    Holds (m.replaceTree l tree).spaces l' w ↔ if l' = l then w ∈ tree.windows else Holds m.spaces l' w := by
  unfold replaceTree
  by_cases hlen : tree.len = 0
  · rw [if_pos hlen]
    simp only [Holds, HashMap.lookup_erase]
    by_cases hl : l' = l
    · simp [hl, htree.wellFormed.windows_of_len hlen]
    · simp [hl]
  · rw [if_neg hlen]
    exact holds_insert l l' tree w

theorem soundTrees_replaceTree (h : SoundTrees m.spaces) {tree : DwindleTree F} (htree : tree.Sound)
    (l : WorkspaceLocation) : SoundTrees (m.replaceTree l tree).spaces := by
  unfold replaceTree
  split_ifs
  · intro l' tree' hl'
    dsimp only at hl'
    rw [HashMap.lookup_erase] at hl'
    split_ifs at hl'
    exact h l' tree' hl'
  · exact h.insert l htree

theorem Sound.at (h : m.Sound) {m' : TiledLayoutManager F} (location : WorkspaceLocation)
    (htrees : SoundTrees m'.spaces) (hothers : ∀ l w, l ≠ location → (Holds m'.spaces l w ↔ Holds m.spaces l w))
    (hnew : ∀ w, Holds m'.spaces location w → ∀ l, Holds m.spaces l w → l = location) : m'.Sound := by
  refine ⟨htrees, fun l l' w hl hl' => ?_⟩
  by_cases hloc : l = location
  · by_cases hloc' : l' = location
    · exact hloc.trans hloc'.symm
    · exact hloc.trans (hnew w (hloc ▸ hl) l' ((hothers l' w hloc').mp hl')).symm
  · by_cases hloc' : l' = location
    · exact (hnew w (hloc' ▸ hl') l ((hothers l w hloc).mp hl)).trans hloc'.symm
    · exact h.apart l l' w ((hothers l w hloc).mp hl) ((hothers l' w hloc').mp hl')

theorem insert_sound (h : m.Sound) {location : WorkspaceLocation} {window : WindowId} {hint : InsertHint}
    {result : Except ManagerError Unit} {m' : TiledLayoutManager F}
    (hins : m.insert location window hint = .ok (result, m')) : m'.Sound := by
  unfold insert at hins
  split_ifs at hins with hother
  · rw [Except.ok.injEq, Prod.mk.injEq] at hins
    exact hins.2 ▸ h
  have hnone : ∀ l, Holds m.spaces l window → l = location := by
    rintro l ⟨found, hfound, hw⟩
    by_contra hne
    refine hother ⟨l, HashMap.mem_keys_of_lookup hfound, hne, ?_⟩
    rw [tree, hfound]
    exact (h.trees l found hfound).wellFormed.containsWindow_iff.mpr hw
  have hsound := h.getD location
  -- the tree of the location has at most the window more
  have hput : ∀ tree : DwindleTree F, tree.Sound →
      (∀ w ∈ tree.windows, Holds m.spaces location w ∨ w = window) →
        Sound (⟨m.spaces.insert location tree⟩ : TiledLayoutManager F) := by
    intro tree htree hwindows
    refine h.at location (h.trees.insert location htree) (fun l w hl => ?_) fun w hw l hl => ?_
    · rw [holds_insert, if_neg hl]
    · rw [holds_insert, if_pos rfl] at hw
      rcases hwindows w hw with hheld | rfl
      · exact h.apart l location w hl hheld
      · exact hnone l hl
  by_cases hw : window ∈ ((m.tree location).getD .empty).windows
  · rw [DwindleTree.insert_of_contains (hsound.wellFormed.mem_byWindow.mpr hw), Run.ok_bind, Except.ok.injEq,
      Prod.mk.injEq] at hins
    rw [← hins.2]
    exact hput _ hsound fun w hw => .inl ((mem_getD_windows location w).mp hw)
  · obtain ⟨leaf, tree, heq, htree, hwindows⟩ | ⟨heq, -⟩ := hsound.insert hw hint
    · rw [heq, Run.ok_bind, Except.ok.injEq, Prod.mk.injEq] at hins
      rw [← hins.2]
      refine hput _ htree fun w hw => ?_
      rw [hwindows, List.mem_append, List.mem_singleton] at hw
      exact hw.imp_left (mem_getD_windows location w).mp
    · rw [heq] at hins
      simp at hins

/-! ### The candidate trees -/

theorem movesWindow_iff (h : m.Sound) (change : TiledChange) :
    m.movesWindow change = true ↔ change.previous ≠ change.new ∧ Holds m.spaces change.previous change.window := by
  unfold movesWindow Holds tree
  cases hfound : m.spaces.lookup change.previous with
  | none => simp
  | some found => simp [(h.trees _ _ hfound).wellFormed.containsWindow_iff]

theorem mem_addLocation (locations : List WorkspaceLocation) (l l' : WorkspaceLocation) :
    l' ∈ addLocation locations l ↔ l' ∈ locations ∨ l' = l := by
  unfold addLocation
  split_ifs with hmem
  · exact ⟨.inl, fun hl' => hl'.elim id fun heq => heq ▸ hmem⟩
  · simp

theorem nodup_addLocation {locations : List WorkspaceLocation} (h : locations.Nodup) (l : WorkspaceLocation) :
    (addLocation locations l).Nodup := by
  unfold addLocation
  split_ifs with hmem
  · exact h
  · rw [List.nodup_append]
    exact ⟨h, by simp, fun a ha b hb heq => hmem (List.mem_singleton.mp hb ▸ heq ▸ ha)⟩

theorem affectedLocations_spec (moves : List TiledChange) :
    (affectedLocations moves).Nodup ∧ ∀ l, l ∈ affectedLocations moves ↔
      ∃ move ∈ moves, l = move.previous ∨ l = move.new := by
  suffices hfold : ∀ (moves : List TiledChange) (locations : List WorkspaceLocation), locations.Nodup →
      (moves.foldl (fun ls move => addLocation (addLocation ls move.previous) move.new) locations).Nodup ∧
        ∀ l, l ∈ moves.foldl (fun ls move => addLocation (addLocation ls move.previous) move.new) locations ↔
          l ∈ locations ∨ ∃ move ∈ moves, l = move.previous ∨ l = move.new by
    obtain ⟨hnodup, hmem⟩ := hfold moves [] List.nodup_nil
    exact ⟨hnodup, fun l => (hmem l).trans (by simp)⟩
  intro moves
  induction moves with
  | nil => exact fun locations h => ⟨h, fun l => by simp⟩
  | cons move moves ih =>
    intro locations h
    obtain ⟨hnodup, hmem⟩ := ih _ (nodup_addLocation (nodup_addLocation h move.previous) move.new)
    refine ⟨hnodup, fun l => (hmem l).trans ?_⟩
    rw [mem_addLocation, mem_addLocation, List.exists_mem_cons_iff, or_assoc, or_assoc, or_assoc]

theorem lookup_candidateTrees {affected : List WorkspaceLocation} (hnodup : affected.Nodup) (l : WorkspaceLocation)
    (tree : DwindleTree F) : (m.candidateTrees affected).lookup l = some tree ↔
      l ∈ affected ∧ (m.tree l).getD .empty = tree := by
  have hkeys : ((affected.map fun location => (location, (m.tree location).getD .empty)).map Prod.fst).Nodup := by
    rw [List.map_map]
    simpa [Function.comp_def] using hnodup
  rw [candidateTrees, HashMap.lookup_collect hkeys, List.mem_map]
  simp only [Prod.mk.injEq]
  exact ⟨fun ⟨l', hl', heq, htree⟩ => ⟨heq ▸ hl', heq ▸ htree⟩, fun ⟨hl, htree⟩ => ⟨l, hl, rfl, htree⟩⟩

structure CandidateAt (m : TiledLayoutManager F) (moves : List TiledChange) (l : WorkspaceLocation)
    (tree : DwindleTree F) : Prop where
  sound : tree.Sound
  windows : ∀ w ∈ tree.windows, Holds m.spaces l w ∨ ∃ move ∈ moves, move.window = w ∧ move.new = l

/-- How a migration can fault: the arena of a candidate is full, or the solver panics or does not return on one. -/
inductive MigrationFault (m : TiledLayoutManager F) (windows : DesktopWindows F) (root : WorkspaceLocation → LayoutRect)
    (moves : List TiledChange) : Fault Empty → Prop where
  | exhausted {l : WorkspaceLocation} {tree : DwindleTree F} {w : WindowId} (htree : CandidateAt m moves l tree)
      (hfull : tree.Exhausted w) : MigrationFault m windows root moves (.panic "Dwindle arena exhausted")
  | panicked {l : WorkspaceLocation} {tree : DwindleTree F} {message : String} (htree : CandidateAt m moves l tree)
      (hsolve : solveTree tree (root l) (candidateLayoutSnapshotsForTree windows tree) = .error (.panic message)) :
      MigrationFault m windows root moves (.panic message)
  | diverged {l : WorkspaceLocation} {tree : DwindleTree F} (htree : CandidateAt m moves l tree)
      (hsolve : solveTree tree (root l) (candidateLayoutSnapshotsForTree windows tree) = .error .diverge) :
      MigrationFault m windows root moves .diverge

structure Moved (m : TiledLayoutManager F) (affected : List WorkspaceLocation) (done : List TiledChange)
    (trees : Spaces F) : Prop where
  keys : ∀ l, (trees.lookup l).isSome ↔ l ∈ affected
  sound : SoundTrees trees
  once : (done.map (·.window)).Nodup
  holds : ∀ l w, Holds trees l w ↔ (∃ move ∈ done, move.window = w ∧ move.new = l) ∨
    l ∈ affected ∧ Holds m.spaces l w ∧ ∀ move ∈ done, move.window ≠ w

theorem moved_candidateTrees (h : m.Sound) {affected : List WorkspaceLocation} (hnodup : affected.Nodup) :
    Moved m affected [] (m.candidateTrees affected) := by
  have hlookup := lookup_candidateTrees (m := m) hnodup
  refine ⟨fun l => ?_, fun l tree hl => ?_, List.nodup_nil, fun l w => ?_⟩
  · rw [Option.isSome_iff_exists]
    exact ⟨fun ⟨tree, htree⟩ => ((hlookup l tree).mp htree).1, fun hl => ⟨_, (hlookup l _).mpr ⟨hl, rfl⟩⟩⟩
  · obtain ⟨-, rfl⟩ := (hlookup l tree).mp hl
    exact h.getD l
  · have hheld : Holds (m.candidateTrees affected) l w ↔ l ∈ affected ∧ Holds m.spaces l w := by
      rw [← mem_getD_windows (m := m)]
      constructor
      · rintro ⟨tree, htree, hw⟩
        obtain ⟨hl, rfl⟩ := (hlookup l tree).mp htree
        exact ⟨hl, hw⟩
      · exact fun ⟨hl, hw⟩ => ⟨_, (hlookup l _).mpr ⟨hl, rfl⟩, hw⟩
    rw [hheld]
    simp

section Moves
variable {windows : DesktopWindows F} {root : WorkspaceLocation → LayoutRect} {moves : List TiledChange}
  {affected : List WorkspaceLocation} {trees : Spaces F}

structure Planned (m : TiledLayoutManager F) (affected : List WorkspaceLocation) (moves : List TiledChange) : Prop where
  real : ∀ move ∈ moves, move.previous ≠ move.new ∧ Holds m.spaces move.previous move.window
  known : ∀ move ∈ moves, move.previous ∈ affected ∧ move.new ∈ affected

variable {tree : DwindleTree F} {l : WorkspaceLocation}

theorem Moved.candidateAt {done : List TiledChange} (h : Moved m affected done trees) (hdone : done ⊆ moves)
    (htree : trees.lookup l = some tree) : CandidateAt m moves l tree := by
  refine ⟨h.sound l tree htree, fun w hw => ?_⟩
  rcases (h.holds l w).mp ⟨tree, htree, hw⟩ with ⟨move, hmove, heq⟩ | ⟨-, hheld, -⟩
  · exact .inr ⟨move, hdone hmove, heq⟩
  · exact .inl hheld

theorem Moved.snoc (hm : m.Sound) {done : List TiledChange} {move : TiledChange}
    (hplan : Planned m affected (done ++ [move])) (h : Moved m affected done trees)
    (hnew : ∀ earlier ∈ done, earlier.window ≠ move.window) {source destination destination' : DwindleTree F}
    (hsource : source.Sound) (hleft : ∀ w, w ∈ source.windows ↔ Holds trees move.previous w ∧ w ≠ move.window)
    (hdestination : (trees.insert move.previous source).lookup move.new = some destination)
    (hsound : destination'.Sound) (hwindows : destination'.windows = destination.windows ++ [move.window]) :
    Moved m affected (done ++ [move]) ((trees.insert move.previous source).insert move.new destination') := by
  obtain ⟨hne, hheld⟩ := hplan.real move (by simp)
  obtain ⟨hprevious, hnewloc⟩ := hplan.known move (by simp)
  rw [HashMap.lookup_insert, if_neg hne.symm] at hdestination
  refine ⟨fun l => ?_, (h.sound.insert _ hsource).insert _ hsound, ?_, fun l w => ?_⟩
  · rw [HashMap.lookup_insert, HashMap.lookup_insert]
    split_ifs with hl hl'
    · simp [hl, hnewloc]
    · simp [hl', hprevious]
    · exact h.keys l
  · rw [List.map_append, List.nodup_append]
    refine ⟨h.once, by simp, fun a ha b hb heq => ?_⟩
    obtain ⟨earlier, hearlier, rfl⟩ := List.mem_map.mp ha
    rw [List.map_cons, List.map_nil, List.mem_singleton] at hb
    exact hnew earlier hearlier (heq.trans hb)
  · have hto := holds_of_lookup hdestination w
    rw [holds_insert, holds_insert]
    by_cases hw : w = move.window
    · -- the window that moves
      subst hw
      have honly : ∀ l, Holds m.spaces l move.window → l = move.previous := fun l hl => hm.apart _ _ _ hl hheld
      by_cases hl : l = move.new
      · rw [if_pos hl, hwindows]
        exact iff_of_true (by simp) (.inl ⟨move, by simp, rfl, hl.symm⟩)
      · rw [if_neg hl]
        refine iff_of_false ?_ ?_
        · split_ifs with hl'
          · exact fun hmem => ((hleft _).mp hmem).2 rfl
          · intro hmem
            rcases (h.holds l _).mp hmem with ⟨earlier, hearlier, heq, -⟩ | ⟨-, hstill, -⟩
            · exact hnew earlier hearlier heq
            · exact hl' (honly l hstill)
        · rintro (⟨other, hother, heq, hat⟩ | ⟨-, -, hnot⟩)
          · rcases List.mem_append.mp hother with hearlier | hlast
            · exact hnew other hearlier heq
            · exact hl (List.mem_singleton.mp hlast ▸ hat.symm)
          · exact hnot move (by simp) rfl
    · have hsame : ((∃ other ∈ done ++ [move], other.window = w ∧ other.new = l) ∨
          l ∈ affected ∧ Holds m.spaces l w ∧ ∀ other ∈ done ++ [move], other.window ≠ w) ↔ Holds trees l w := by
        rw [h.holds]
        simp only [List.mem_append, List.mem_singleton, or_and_right, exists_or, or_imp, forall_and, forall_eq]
        have hno : ¬ ∃ other, other = move ∧ other.window = w ∧ other.new = l := by
          rintro ⟨other, rfl, heq, -⟩
          exact hw heq.symm
        have hyes : move.window ≠ w := fun heq => hw heq.symm
        rw [or_iff_left hno, and_iff_left hyes]
      rw [hsame]
      split_ifs with hl hl'
      · rw [hwindows, List.mem_append, List.mem_singleton, or_iff_left hw, hl]
        exact hto.symm
      · rw [hleft, hl']
        exact and_iff_left hw
      · rfl

theorem moveWindows_outcome (hm : m.Sound) {done rest : List TiledChange} (hmoves : moves = done ++ rest)
    (hplan : Planned m affected moves) (h : Moved m affected done trees) :
    Run.Outcome (MigrationFault m windows root moves) (fun moved => ∀ trees', moved = some trees' →
      Moved m affected moves trees') (moveWindows rest trees) := by
  induction rest generalizing done trees with
  | nil =>
    intro trees' heq
    rw [hmoves, List.append_nil]
    exact Option.some.inj heq ▸ h
  | cons move rest ih =>
    have hmem : move ∈ moves := by simp [hmoves]
    have hdone : done ⊆ moves := by simp [hmoves]
    obtain ⟨hne, hheld⟩ := hplan.real move hmem
    obtain ⟨hprevious, hnewloc⟩ := hplan.known move hmem
    obtain ⟨source, hsource⟩ := Option.isSome_iff_exists.mp ((h.keys move.previous).mpr hprevious)
    obtain ⟨destination, hdestination⟩ := Option.isSome_iff_exists.mp ((h.keys move.new).mpr hnewloc)
    unfold moveWindows
    rw [hsource]
    dsimp only
    by_cases hin : move.window ∈ source.windows
    · -- a window that is still at its old location has not moved before
      have hnew : ∀ earlier ∈ done, earlier.window ≠ move.window := by
        intro earlier hearlier heq
        obtain ⟨hne', hheld'⟩ := hplan.real earlier (hdone hearlier)
        have hfrom : earlier.previous = move.previous := hm.apart _ _ _ (heq ▸ hheld') hheld
        rcases (h.holds _ _).mp ⟨source, hsource, hin⟩ with ⟨other, hother, hwin, hat⟩ | ⟨-, -, hnot⟩
        · have : other = earlier := List.inj_on_of_nodup_map h.once hother hearlier (hwin.trans heq.symm)
          exact hne' (hfrom.trans (this ▸ hat).symm)
        · exact hnot earlier hearlier heq
      obtain ⟨source', hrem, hsource', hwindows⟩ := (h.sound _ _ hsource).remove hin
      have hleft : ∀ w, w ∈ source'.windows ↔ Holds trees move.previous w ∧ w ≠ move.window := by
        intro w
        rw [hwindows, List.mem_filter, holds_of_lookup hsource]
        simp
      have hto : (trees.insert move.previous source').lookup move.new = some destination := by
        rw [HashMap.lookup_insert, if_neg hne.symm, hdestination]
      have hout : move.window ∉ destination.windows := by
        intro hin'
        rcases (h.holds _ _).mp ⟨destination, hdestination, hin'⟩ with ⟨other, hother, hwin, -⟩ | ⟨-, hthere, -⟩
        · exact hnew other hother hwin
        · exact hne (hm.apart _ _ _ hheld hthere)
      rw [hrem, Run.ok_bind]
      dsimp only
      rw [hto, Option.getD_some]
      obtain ⟨leaf, destination', hins, hsound, hgrown⟩ | ⟨hins, hfull⟩ :=
        (h.sound _ _ hdestination).insert hout InsertHint.none
      · rw [hins, Run.ok_bind]
        dsimp only
        have hmoves' : moves = (done ++ [move]) ++ rest := by simp [hmoves]
        have hplan' : Planned m affected (done ++ [move]) := by
          have hsub : ∀ other ∈ done ++ [move], other ∈ moves := fun other hother => by
            rw [hmoves']
            exact List.mem_append_left _ hother
          exact ⟨fun other hother => hplan.real other (hsub other hother),
            fun other hother => hplan.known other (hsub other hother)⟩
        exact ih hmoves' (h.snoc hm hplan' hnew hsource' hleft hto hsound hgrown)
      · rw [hins]
        exact .exhausted (h.candidateAt hdone hdestination) hfull
    · rw [DwindleTree.remove_of_not_mem fun hmem => hin ((h.sound _ _ hsource).wellFormed.mem_byWindow.mp hmem),
        Run.ok_bind]
      exact fun trees' heq => nomatch heq

/-! ### The retries -/

theorem solve_outcome_dropError (h : CandidateAt m moves l tree) :
    Run.Outcome (MigrationFault m windows root moves) (fun _ => True)
      ((solveTree tree (root l) (candidateLayoutSnapshotsForTree windows tree)).dropError :
        Run Empty (Option (TiledLayoutSolution F))) := by
  refine Run.outcome_dropError.imp (fun fault hfault => ?_) fun _ => id
  rcases hfault with ⟨message, hsolve, rfl⟩ | ⟨hsolve, rfl⟩
  · exact .panicked h hsolve
  · exact .diverged h hsolve

theorem CandidateAt.drop {tree tree' : DwindleTree F} (h : CandidateAt m moves l tree)
    (hsound : tree'.Sound) (hsub : ∀ w ∈ tree'.windows, w ∈ tree.windows) : CandidateAt m moves l tree' :=
  ⟨hsound, fun w hw => h.windows w (hsub w hw)⟩

structure Retried (incoming : List WindowId) (tree tree' : DwindleTree F) (dropped : List WindowId) : Prop where
  sound : tree'.Sound
  incoming : ∀ w ∈ dropped, w ∈ incoming ∧ w ∈ tree.windows
  windows : ∀ w, w ∈ tree'.windows ↔ w ∈ tree.windows ∧ w ∉ dropped

theorem retryLoop_outcome {incoming : List WindowId} {turns : ℕ}
    {fallback : List WindowId} (h : CandidateAt m moves l tree) (hturns : tree.windows.length < turns) :
    Run.Outcome (MigrationFault m windows root moves)
      (fun retried => ∀ tree' fallback', retried = some (tree', fallback') →
      ∃ dropped, fallback' = fallback ++ dropped ∧ Retried incoming tree tree' dropped)
      (retryLoop windows (root l) incoming turns tree fallback) := by
  induction turns generalizing tree fallback with
  | zero => exact absurd hturns (Nat.not_lt_zero _)
  | succ turns ih =>
    unfold retryLoop
    refine (solve_outcome_dropError h).bind fun solution _ _ => ?_
    cases solution with
    | some solution =>
      rintro tree' fallback' heq
      rw [Option.some.injEq, Prod.mk.injEq] at heq
      obtain ⟨rfl, rfl⟩ := heq
      exact ⟨[], by simp, h.sound, by simp, by simp⟩
    | none =>
      dsimp only
      cases hfind : incoming.reverse.find? tree.containsWindow with
      | none => exact fun tree' fallback' heq => nomatch heq
      | some window =>
        have hin : window ∈ tree.windows := h.sound.wellFormed.containsWindow_iff.mp (List.find?_some hfind)
        have hincoming : window ∈ incoming := List.mem_reverse.mp (List.mem_of_find?_eq_some hfind)
        obtain ⟨smaller, hrem, hsmaller, hwindows⟩ := h.sound.remove hin
        have hmem : ∀ w, w ∈ smaller.windows ↔ w ∈ tree.windows ∧ w ≠ window := by
          intro w
          rw [hwindows, List.mem_filter]
          simp
        have hlen : smaller.windows.length < turns := by
          refine Nat.lt_of_lt_of_le ?_ (Nat.lt_succ_iff.mp hturns)
          rw [hwindows]
          exact List.length_filter_lt_length_iff_exists.mpr ⟨window, hin, by simp⟩
        dsimp only
        rw [hrem, Run.ok_bind]
        dsimp only
        refine (ih (h.drop hsmaller fun w hw => ((hmem w).mp hw).1) hlen).imp (fun _ => id)
          fun retried hretried tree' fallback' heq => ?_
        obtain ⟨dropped, hfallback, hkept⟩ := hretried tree' fallback' heq
        refine ⟨window :: dropped, by simp [hfallback], hkept.sound, fun w hw => ?_, fun w => ?_⟩
        · rcases List.mem_cons.mp hw with rfl | hw
          · exact ⟨hincoming, hin⟩
          · exact ⟨(hkept.incoming w hw).1, ((hmem w).mp (hkept.incoming w hw).2).1⟩
        · rw [hkept.windows, hmem, List.mem_cons, not_or, and_assoc]

structure Settling (incoming : WorkspaceLocation → List WindowId) (moved trees : Spaces F) (fallback : List WindowId) :
    Prop where
  keys : ∀ l, (trees.lookup l).isSome ↔ (moved.lookup l).isSome
  sound : SoundTrees trees
  holds : ∀ l w, Holds trees l w ↔ Holds moved l w ∧ w ∉ fallback
  incoming : ∀ w ∈ fallback, ∃ l, w ∈ incoming l

theorem retryLocations_outcome {incoming : WorkspaceLocation → List WindowId} {moved : Spaces F}
    {fallback : List WindowId} {locations : List WorkspaceLocation}
    (hmoved : ∀ l tree, moved.lookup l = some tree → CandidateAt m moves l tree)
    (hapart : ∀ l l' w, Holds moved l w → Holds moved l' w → l = l') (h : Settling incoming moved trees fallback) :
    Run.Outcome (MigrationFault m windows root moves)
      (fun settled => ∀ trees' fallback', settled = some (trees', fallback') →
      Settling incoming moved trees' fallback')
      (retryLocations windows root incoming locations trees fallback) := by
  induction locations generalizing trees fallback with
  | nil =>
    rintro trees' fallback' heq
    rw [Option.some.injEq, Prod.mk.injEq] at heq
    obtain ⟨rfl, rfl⟩ := heq
    exact h
  | cons l locations ih =>
    unfold retryLocations
    cases htree : trees.lookup l with
    | none => exact fun trees' fallback' heq => nomatch heq
    | some tree =>
      obtain ⟨before, hbefore⟩ := Option.isSome_iff_exists.mp ((h.keys l).mp (by rw [htree]; rfl))
      have hcandidate : CandidateAt m moves l tree := (hmoved l before hbefore).drop (h.sound l tree htree) fun w hw =>
        (holds_of_lookup hbefore w).mp ((h.holds l w).mp ⟨tree, htree, hw⟩).1
      refine (retryLoop_outcome hcandidate (Nat.lt_succ_self _)).bind fun retried _ hretried => ?_
      cases retried with
      | none => exact fun trees' fallback' heq => nomatch heq
      | some retried =>
        obtain ⟨tree', dropped⟩ := retried
        obtain ⟨dropped', heq, hkept⟩ := hretried tree' dropped rfl
        rw [List.nil_append] at heq
        subst heq
        refine ih ⟨fun l' => ?_, h.sound.insert l hkept.sound, fun l' w => ?_, fun w hw => ?_⟩
        · rw [HashMap.lookup_insert]
          split_ifs with hl
          · exact iff_of_true rfl (by rw [hl, hbefore]; rfl)
          · exact h.keys l'
        · rw [holds_insert, List.mem_append, not_or]
          split_ifs with hl
          · rw [hkept.windows, ← holds_of_lookup htree, h.holds, hl, and_assoc]
          · rw [h.holds]
            refine and_congr_right fun hheld => (and_iff_left fun hdropped => hl ?_).symm
            have hthere := (holds_of_lookup htree w).mpr (hkept.incoming w hdropped).2
            exact hapart l' l w hheld ((h.holds l w).mp hthere).1
        · rcases List.mem_append.mp hw with hw | hw
          · exact h.incoming w hw
          · exact ⟨l, (hkept.incoming w hw).1⟩

theorem finalSolutions_outcome {locations : List WorkspaceLocation}
    {solutions : HashMap WorkspaceLocation (TiledLayoutSolution F)}
    (htrees : ∀ l tree, trees.lookup l = some tree → CandidateAt m moves l tree) :
    Run.Outcome (MigrationFault m windows root moves) (fun _ => True)
      (finalSolutions windows root trees locations solutions) := by
  induction locations generalizing solutions with
  | nil => trivial
  | cons l locations ih =>
    unfold finalSolutions
    cases htree : trees.lookup l with
    | none => trivial
    | some tree =>
      refine (solve_outcome_dropError (htrees l tree htree)).bind fun solution _ _ => ?_
      cases solution with
      | none => trivial
      | some solution => exact ih

end Moves

/-! ### Whole migrations -/

theorem mem_dedup (w : WindowId) (ws : List WindowId) : w ∈ dedup ws ↔ w ∈ ws := by
  induction ws using dedup.induct with
  | case1 => rfl
  | case2 => rfl
  | case3 next rest ih =>
    rw [dedup, if_pos rfl, ih]
    simp
  | case4 window next rest hne ih => rw [dedup, if_neg hne, List.mem_cons, ih, List.mem_cons (a := w) (b := window)]

theorem commit_spec (h : SoundTrees m.spaces) (order : HashMap.Order WorkspaceLocation)
    {prepared : PreparedTiledMigration F} (hprepared : SoundTrees prepared.candidateTrees) :
    SoundTrees (m.commitPreparedTiledMigration order prepared).spaces ∧
      ∀ l w, Holds (m.commitPreparedTiledMigration order prepared).spaces l w ↔
        if (prepared.candidateTrees.lookup l).isSome then Holds prepared.candidateTrees l w else Holds m.spaces l
          w := by
  have hcommit : m.commitPreparedTiledMigration order prepared = (order.visit prepared.candidateTrees.keys).foldl
      (fun m location => (prepared.candidateTrees.lookup location).elim m (m.replaceTree location)) m := by
    unfold commitPreparedTiledMigration
    congr 1
    funext m location
    cases prepared.candidateTrees.lookup location <;> rfl
  rw [hcommit]
  have hvisit : ∀ l, l ∈ order.visit prepared.candidateTrees.keys ↔ (prepared.candidateTrees.lookup l).isSome =
    true := by
    intro l
    rw [order.mem_visit, Finmap.mem_keys, Finmap.lookup_isSome]
  suffices hfold : ∀ (locations : List WorkspaceLocation) (m : TiledLayoutManager F), SoundTrees m.spaces →
      SoundTrees (locations.foldl (fun m location =>
        (prepared.candidateTrees.lookup location).elim m (m.replaceTree location)) m).spaces ∧
      ∀ l w, Holds (locations.foldl (fun m location =>
        (prepared.candidateTrees.lookup location).elim m (m.replaceTree location)) m).spaces l w ↔
          if l ∈ locations ∧ (prepared.candidateTrees.lookup l).isSome = true then Holds prepared.candidateTrees l w
          else Holds m.spaces l w by
    obtain ⟨hsound, hholds⟩ := hfold (order.visit prepared.candidateTrees.keys) m h
    refine ⟨hsound, fun l w => (hholds l w).trans ?_⟩
    simp only [hvisit, and_self]
  intro locations
  induction locations with
  | nil => exact fun m h => ⟨h, fun l w => by simp⟩
  | cons location locations ih =>
    intro m h
    rw [List.foldl_cons]
    cases hfound : prepared.candidateTrees.lookup location with
    | none =>
      obtain ⟨hsound, hholds⟩ := ih m h
      refine ⟨hsound, fun l w => (hholds l w).trans ?_⟩
      by_cases hl : l = location
      · subst hl
        simp [hfound]
      · simp [hl]
    | some tree =>
      have htree := hprepared location tree hfound
      obtain ⟨hsound, hholds⟩ := ih _ (soundTrees_replaceTree h htree location)
      refine ⟨hsound, fun l w => (hholds l w).trans ?_⟩
      rw [holds_replaceTree htree]
      by_cases hl : l = location
      · subst hl
        simp [hfound, holds_of_lookup hfound]
      · simp [hl]

/-- No window is lost. One that moves is in the tree of its new location or floats, never both; one that does not move
stays in its tree; and no window is in two trees. -/
structure Conserves (m after : TiledLayoutManager F) (moves : List TiledChange) (fallback : List WindowId) : Prop where
  sound : after.Sound
  moved : ∀ move ∈ moves, move.window ∉ fallback ∧ (∀ l, Holds after.spaces l move.window ↔ l = move.new) ∨
    move.window ∈ fallback ∧ ∀ l, ¬ Holds after.spaces l move.window
  stayed : ∀ l w, Holds m.spaces l w → (∀ move ∈ moves, move.window ≠ w) →
    w ∉ fallback ∧ ∀ l', Holds after.spaces l' w ↔ l' = l
  known : ∀ l w, Holds after.spaces l w → ∃ l', Holds m.spaces l' w
  floats : ∀ w ∈ fallback, ∃ move ∈ moves, move.window = w

section Migration
variable {windows : DesktopWindows F} {root : WorkspaceLocation → LayoutRect} {moves : List TiledChange}
  {affected : List WorkspaceLocation} {moved trees : Spaces F} {fallback : List WindowId}

theorem Moved.holds_move (h : Moved m affected moves moved) {move : TiledChange} (hmove : move ∈ moves)
    (l : WorkspaceLocation) : Holds moved l move.window ↔ l = move.new := by
  rw [h.holds]
  constructor
  · rintro (⟨other, hother, hwin, hat⟩ | ⟨-, -, hnot⟩)
    · rw [← hat, List.inj_on_of_nodup_map h.once hother hmove hwin]
    · exact absurd rfl (hnot move hmove)
  · exact fun hl => .inl ⟨move, hmove, rfl, hl.symm⟩

theorem Moved.holds_other (h : Moved m affected moves moved) {w : WindowId} (hw : ∀ move ∈ moves, move.window ≠ w)
    (l : WorkspaceLocation) : Holds moved l w ↔ l ∈ affected ∧ Holds m.spaces l w := by
  rw [h.holds, or_iff_right fun ⟨move, hmove, hwin, _⟩ => hw move hmove hwin, and_iff_left hw]

theorem Moved.apart (hm : m.Sound) (h : Moved m affected moves moved) (l l' : WorkspaceLocation) (w : WindowId)
    (hl : Holds moved l w) (hl' : Holds moved l' w) : l = l' := by
  by_cases hw : ∃ move ∈ moves, move.window = w
  · obtain ⟨move, hmove, rfl⟩ := hw
    exact ((h.holds_move hmove l).mp hl).trans ((h.holds_move hmove l').mp hl').symm
  · have hstays : ∀ move ∈ moves, move.window ≠ w := fun move hmove heq => hw ⟨move, hmove, heq⟩
    exact hm.apart l l' w ((h.holds_other hstays l).mp hl).2 ((h.holds_other hstays l').mp hl').2

theorem mem_incomingTo {l : WorkspaceLocation} {w : WindowId} (h : w ∈ incomingTo moves l) :
    ∃ move ∈ moves, move.window = w := by
  rw [incomingTo, List.mem_insertionSort, List.mem_map] at h
  obtain ⟨move, hmove, hwin⟩ := h
  exact ⟨move, (List.mem_filter.mp hmove).1, hwin⟩

theorem Settling.conserves (hm : m.Sound) (hplan : Planned m affected moves) (hmoved : Moved m affected moves moved)
    (h : Settling (incomingTo moves) moved trees fallback) (order : HashMap.Order WorkspaceLocation)
    {prepared : PreparedTiledMigration F} (htrees : prepared.candidateTrees = trees)
    (hfallback : ∀ w, w ∈ prepared.fallbackWindows ↔ w ∈ fallback) :
    Conserves m (m.commitPreparedTiledMigration order prepared) moves prepared.fallbackWindows := by
  obtain ⟨hsound, hafter⟩ := commit_spec hm.trees order (htrees ▸ h.sound : SoundTrees prepared.candidateTrees)
  set after := m.commitPreparedTiledMigration order prepared
  have hkeys : ∀ l, (prepared.candidateTrees.lookup l).isSome = true ↔ l ∈ affected := fun l => by
    rw [htrees, h.keys, hmoved.keys]
  have hfloats : ∀ w ∈ fallback, ∃ move ∈ moves, move.window = w := fun w hw => by
    obtain ⟨l, hl⟩ := h.incoming w hw
    exact mem_incomingTo hl
  -- a moved window is where it moved to, unless it floats; the others stay
  have hmover : ∀ move ∈ moves, ∀ l,
      Holds after.spaces l move.window ↔ l = move.new ∧ move.window ∉ fallback := by
    intro move hmove l
    rw [hafter]
    by_cases hl : l ∈ affected
    · rw [if_pos ((hkeys l).mpr hl), htrees, h.holds, hmoved.holds_move hmove]
    · rw [if_neg fun hsome => hl ((hkeys l).mp hsome)]
      refine iff_of_false (fun hheld => hl ?_) fun hnew => hl (hnew.1 ▸ (hplan.known move hmove).2)
      rw [hm.apart l move.previous _ hheld (hplan.real move hmove).2]
      exact (hplan.known move hmove).1
  have hstayer : ∀ w, (∀ move ∈ moves, move.window ≠ w) → ∀ l, Holds after.spaces l w ↔ Holds m.spaces l w := by
    intro w hw l
    have hnot : w ∉ fallback := fun hfloat => by
      obtain ⟨move, hmove, heq⟩ := hfloats w hfloat
      exact hw move hmove heq
    rw [hafter]
    by_cases hl : l ∈ affected
    · rw [if_pos ((hkeys l).mpr hl), htrees, h.holds, and_iff_left hnot, hmoved.holds_other hw, and_iff_right hl]
    · rw [if_neg fun hsome => hl ((hkeys l).mp hsome)]
  refine ⟨⟨hsound, fun l l' w hl hl' => ?_⟩, fun move hmove => ?_, fun l w hheld hw => ⟨?_, fun l' => ?_⟩,
    fun l w hheld => ?_, fun w hw => hfloats w ((hfallback w).mp hw)⟩
  · by_cases hw : ∃ move ∈ moves, move.window = w
    · obtain ⟨move, hmove, rfl⟩ := hw
      exact ((hmover move hmove l).mp hl).1.trans ((hmover move hmove l').mp hl').1.symm
    · have hstays : ∀ move ∈ moves, move.window ≠ w := fun move hmove heq => hw ⟨move, hmove, heq⟩
      exact hm.apart l l' w ((hstayer w hstays l).mp hl) ((hstayer w hstays l').mp hl')
  · rw [hfallback]
    by_cases hfloat : move.window ∈ fallback
    · exact .inr ⟨hfloat, fun l hl => ((hmover move hmove l).mp hl).2 hfloat⟩
    · exact .inl ⟨hfloat, fun l => (hmover move hmove l).trans (and_iff_left hfloat)⟩
  · rw [hfallback]
    intro hfloat
    obtain ⟨move, hmove, heq⟩ := hfloats w hfloat
    exact hw move hmove heq
  · rw [hstayer w hw]
    exact ⟨fun hl' => hm.apart l' l w hl' hheld, fun heq => heq ▸ hheld⟩
  · by_cases hw : ∃ move ∈ moves, move.window = w
    · obtain ⟨move, hmove, rfl⟩ := hw
      exact ⟨move.previous, (hplan.real move hmove).2⟩
    · exact ⟨l, (hstayer w (fun move hmove heq => hw ⟨move, hmove, heq⟩) l).mp hheld⟩

theorem migrate_outcome (hm : m.Sound) (order : HashMap.Order WorkspaceLocation) (changes : List TiledChange) :
    Run.Outcome (MigrationFault m windows root (m.moves changes))
      (fun migrated => ∀ prepared, migrated = some prepared →
      Conserves m (m.commitPreparedTiledMigration order prepared) (m.moves changes) prepared.fallbackWindows)
      (m.migrateTiledLayouts windows root changes) := by
  unfold migrateTiledLayouts
  dsimp only
  obtain ⟨hnodup, hmem⟩ := affectedLocations_spec (m.moves changes)
  have hplan : Planned m (affectedLocations (m.moves changes)) (m.moves changes) := by
    refine ⟨fun move hmove => (movesWindow_iff hm move).mp (List.mem_filter.mp hmove).2, fun move hmove => ?_⟩
    exact ⟨(hmem _).mpr ⟨move, hmove, .inl rfl⟩, (hmem _).mpr ⟨move, hmove, .inr rfl⟩⟩
  have hstart := moved_candidateTrees hm hnodup
  generalize m.moves changes = moves at *
  by_cases hnone : affectedLocations moves = []
  · rw [if_pos hnone]
    rintro prepared heq
    obtain rfl := Option.some.inj heq
    have hmoves : moves = [] := by
      refine List.eq_nil_iff_forall_not_mem.mpr fun move hmove => ?_
      have := (hplan.known move hmove).1
      rw [hnone] at this
      simp at this
    rw [hnone] at hstart hplan
    subst hmoves
    refine Settling.conserves hm hplan hstart ⟨fun l => Iff.rfl, hstart.sound, fun l w => ?_, by simp⟩ order rfl
      fun w => Iff.rfl
    simp
  rw [if_neg hnone]
  refine (moveWindows_outcome hm (List.nil_append _).symm hplan hstart).bind fun moved _ hmoved => ?_
  cases moved with
  | none => exact fun prepared heq => nomatch heq
  | some moved =>
    have hmoved := hmoved moved rfl
    have hcandidates : ∀ l tree, moved.lookup l = some tree → CandidateAt m moves l tree := fun l tree htree =>
      hmoved.candidateAt (List.Subset.refl _) htree
    have hsettling : Settling (incomingTo moves) moved moved [] :=
      ⟨fun l => Iff.rfl, hmoved.sound, fun l w => by simp, by simp⟩
    refine (retryLocations_outcome hcandidates (fun l l' w => hmoved.apart hm l l' w) hsettling).bind
      fun settled _ hsettled => ?_
    cases settled with
    | none => exact fun prepared heq => nomatch heq
    | some settled =>
      obtain ⟨trees, fallback⟩ := settled
      have hsettled := hsettled trees fallback rfl
      have htrees : ∀ l tree, trees.lookup l = some tree → CandidateAt m moves l tree := by
        intro l tree htree
        obtain ⟨before, hbefore⟩ := Option.isSome_iff_exists.mp ((hsettled.keys l).mp (by rw [htree]; rfl))
        exact (hcandidates l before hbefore).drop (hsettled.sound l tree htree) fun w hw =>
          (holds_of_lookup hbefore w).mp ((hsettled.holds l w).mp ⟨tree, htree, hw⟩).1
      refine (finalSolutions_outcome htrees).bind fun solutions _ _ => ?_
      cases solutions with
      | none => exact fun prepared heq => nomatch heq
      | some solutions =>
        rintro prepared heq
        obtain rfl := Option.some.inj heq
        refine hsettled.conserves hm hplan hmoved order rfl fun w => ?_
        rw [mem_dedup, List.mem_insertionSort]

end Migration

/-- A migration faults on a full arena or in the solver, gives up and leaves the trees as they are, or loses no
window. -/
theorem migration_loses_no_window {m : TiledLayoutManager F} (hm : m.Sound) (order : HashMap.Order WorkspaceLocation)
    (windows : DesktopWindows F) (root : WorkspaceLocation → LayoutRect) (changes : List TiledChange) :
    (∃ fault, m.migrateTiledLayouts windows root changes = .error fault ∧
      MigrationFault m windows root (m.moves changes) fault) ∨
    (m.migrateTiledLayouts windows root changes = .ok none ∧
      m.applyMembershipTransition order windows root changes = .ok (false, m)) ∨
    ∃ prepared, m.migrateTiledLayouts windows root changes = .ok (some prepared) ∧
      m.applyMembershipTransition order windows root changes =
        .ok (true, m.commitPreparedTiledMigration order prepared) ∧
      Conserves m (m.commitPreparedTiledMigration order prepared) (m.moves changes) prepared.fallbackWindows := by
  obtain ⟨fault, hrun, hfault⟩ | ⟨migrated, hrun, hconserves⟩ := (migrate_outcome hm order changes).cases
  · exact .inl ⟨fault, hrun, hfault⟩
  cases migrated with
  | none =>
    refine .inr (.inl ⟨hrun, ?_⟩)
    rw [applyMembershipTransition, hrun]
    rfl
  | some prepared =>
    refine .inr (.inr ⟨prepared, hrun, ?_, hconserves prepared rfl⟩)
    rw [applyMembershipTransition, hrun]
    rfl

/-! ### Two windows that change places -/

def filled (m : TiledLayoutManager F) : List (WorkspaceLocation × WindowId) → TiledLayoutManager F
  | [] => m
  | (location, window) :: rest =>
    match m.insert location window InsertHint.none with
    | .ok (_, m) => m.filled rest
    | .error _ => m.filled rest

theorem filled_sound (h : m.Sound) (entries : List (WorkspaceLocation × WindowId)) : (m.filled entries).Sound := by
  induction entries generalizing m with
  | nil => exact h
  | cons entry rest ih =>
    obtain ⟨location, window⟩ := entry
    unfold filled
    split
    · rename_i result m' hins
      exact ih (insert_sound h hins)
    · exact ih h

def twoWorkspaces : TiledLayoutManager ℚ :=
  filled ⟨∅⟩ [(.regular 1, ⟨1⟩), (.regular 1, ⟨2⟩), (.regular 2, ⟨3⟩)]

def threePlain : DesktopWindows ℚ :=
  (besidePlain ⟨⟨2⟩, false, .unconstrained⟩).insert ⟨⟨3⟩, false, .unconstrained⟩

def swapped : List TiledChange := [⟨⟨1⟩, .regular 1, .regular 2⟩, ⟨⟨3⟩, .regular 2, .regular 1⟩]

theorem migration_loses_no_window_swapped : ∃ prepared,
    twoWorkspaces.migrateTiledLayouts threePlain (fun _ => rectOf 0 0 100 100) swapped = .ok (some prepared) ∧
      Conserves twoWorkspaces (twoWorkspaces.commitPreparedTiledMigration (HashMap.Order.listed _) prepared)
        (twoWorkspaces.moves swapped) prepared.fallbackWindows := by
  have hsome : ((twoWorkspaces.migrateTiledLayouts threePlain (fun _ => rectOf 0 0 100 100)
      swapped).toOption.join.isSome) = true := by decide +kernel
  have hsound : twoWorkspaces.Sound := filled_sound sound_empty _
  obtain ⟨fault, hrun, -⟩ | ⟨hrun, -⟩ | ⟨prepared, hrun, -, hconserves⟩ := migration_loses_no_window hsound
    (HashMap.Order.listed _) threePlain (fun _ => rectOf 0 0 100 100) swapped
  · rw [hrun] at hsome
    simp [Except.toOption] at hsome
  · rw [hrun] at hsome
    simp [Except.toOption] at hsome
  · exact ⟨prepared, hrun, hconserves⟩

/-- A window of the source that does not move ends in the tree of the source, and one that was at the destination and
moves ends in the tree of the source too. -/
theorem swapped_trees :
    ((twoWorkspaces.migrateTiledLayouts threePlain (fun _ => rectOf 0 0 100 100) swapped).toOption.join.map
      fun prepared => (prepared.fallbackWindows, (prepared.candidateTrees.lookup (.regular 1)).map (·.windows),
        (prepared.candidateTrees.lookup (.regular 2)).map (·.windows))) =
      some ([], some [⟨2⟩, ⟨3⟩], some [⟨1⟩]) := by
  decide +kernel

end TiledLayoutManager
end Typhon.Layout
