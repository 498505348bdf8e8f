import Typhon.Workspace.Manager

/-! What holds of the placement after every run: no output is attached, or each workspace belongs to one
attached output and each attached output shows one of its own. -/

namespace Typhon.Workspace
open Foundation BTreeMap

namespace WorkspaceManager

structure Unplaced (m : WorkspaceManager) : Prop where
  outputs : m.outputWorkspaces.entries = []
  focused : m.focusedOutput = none
  owners : m.workspaceOutputs.entries = []

structure PlacedOn (m : WorkspaceManager) (focused : OutputId) : Prop where
  focus : m.focusedOutput = some focused
  active : m.outputWorkspaces.get focused = some m.activeWorkspace
  owned : ∀ w ∈ m.workspaces, ∃ o shown, m.workspaceOutputs.get w = some o ∧ m.outputWorkspaces.get o = some shown
  known : ∀ w o, m.workspaceOutputs.get w = some o → w ∈ m.workspaces
  shows : ∀ o w, m.outputWorkspaces.get o = some w → m.workspaceOutputs.get w = some o

variable {w : WorkspaceId} {m : WorkspaceManager}

theorem PlacedOn.distinct {focused : OutputId} (h : m.PlacedOn focused) {o o' : OutputId}
    (ho : m.outputWorkspaces.get o = some w) (ho' : m.outputWorkspaces.get o' = some w) : o = o' :=
  Option.some.inj ((h.shows o w ho).symm.trans (h.shows o' w ho'))

structure Sound (m : WorkspaceManager) : Prop where
  small : ∀ w ∈ m.workspaces, w.val ≤ 64
  active : m.activeWorkspace ∈ m.workspaces
  placement : m.Unplaced ∨ ∃ focused, m.PlacedOn focused

theorem get_of_entries_nil {κ υ : Type} [LinearOrder κ] {m : BTreeMap κ υ} (h : m.entries = []) (k : κ) :
    m.get k = none := by
  rw [BTreeMap.get, h]
  rfl

/-! ### Visible workspaces -/

theorem isVisible_iff : m.isVisible w = true ↔
    w.val ≤ 64 ∧ (w = m.activeWorkspace ∨ ∃ o, m.outputWorkspaces.get o = some w) := by
  have key : ∀ (shown : List WorkspaceId) (visible : VisibleWorkspaces),
      (shown.foldl VisibleWorkspaces.insert visible).contains w = true ↔
        visible.contains w = true ∨ w ∈ shown ∧ w.val ≤ 64 := by
    intro shown
    induction shown with
    | nil => simp
    | cons first rest ih =>
      intro visible
      rw [List.foldl_cons, ih, VisibleWorkspaces.contains_insert, List.mem_cons]
      tauto
  have hempty : VisibleWorkspaces.empty.contains w = false := by
    rw [VisibleWorkspaces.contains_eq]
    exact BitVec.getLsbD_zero
  rw [isVisible, visibleWorkspaces, key, VisibleWorkspaces.single, VisibleWorkspaces.contains_insert, hempty,
    BTreeMap.mem_values_iff]
  simp only [Bool.false_eq_true, false_or]
  tauto

theorem PlacedOn.isVisible_iff {focused : OutputId} (h : m.PlacedOn focused) (hs : ∀ w ∈ m.workspaces, w.val ≤ 64) :
    m.isVisible w = true ↔ ∃ o, m.outputWorkspaces.get o = some w := by
  rw [WorkspaceManager.isVisible_iff]
  constructor
  · rintro ⟨-, rfl | hshown⟩
    · exact ⟨focused, h.active⟩
    · exact hshown
  · rintro ⟨o, ho⟩
    exact ⟨hs w (h.known w o (h.shows o w ho)), .inr ⟨o, ho⟩⟩

/-! ### Each operation -/

theorem get_foldl_insert (owners : BTreeMap WorkspaceId OutputId) (output : OutputId) (l : List WorkspaceId)
    (w : WorkspaceId) : (l.foldl (fun owners workspace => owners.insert workspace output) owners).get w =
      if w ∈ l then some output else owners.get w := by
  induction l generalizing owners with
  | nil => simp
  | cons first rest ih =>
    rw [List.foldl_cons, ih, get_insert]
    by_cases hrest : w ∈ rest
    · simp [hrest]
    · by_cases hfirst : w = first <;> simp [hrest, hfirst]

theorem Sound.attachOutput (h : m.Sound) (output : OutputId) :
    ∃ shown m', m.attachOutput output = .ok (shown, m') ∧ m'.Sound := by
  rw [WorkspaceManager.attachOutput]
  cases hout : m.outputWorkspaces.get output with
  | some shown => exact ⟨_, _, rfl, h⟩
  | none =>
    obtain hun | ⟨focused, hp⟩ := h.placement
    · -- the first output takes every workspace
      simp only [hun.focused]
      refine ⟨_, _, rfl, h.small, h.active, .inr ⟨output, rfl, ?_, fun w hw => ?_, fun w o ho => ?_, fun o w ho => ?_⟩⟩
      · rw [get_insert, if_pos rfl]
      · refine ⟨output, m.activeWorkspace, ?_, ?_⟩
        · rw [get_foldl_insert, if_pos hw]
        · rw [get_insert, if_pos rfl]
      · rw [get_foldl_insert, get_of_entries_nil hun.owners] at ho
        by_contra hw
        simp [hw] at ho
      · rw [get_insert, get_of_entries_nil hun.outputs] at ho
        split_ifs at ho with heq
        subst heq
        rw [get_foldl_insert, if_pos (Option.some.inj ho ▸ h.active)]
    · simp only [hp.focus]
      cases hfind : m.workspaces.find? fun workspace => !m.visibleWorkspaces.contains workspace with
      | none => exact ⟨_, _, rfl, h⟩
      | some workspace =>
        -- the new output takes a workspace that no output shows
        have hmem := List.mem_of_find?_eq_some hfind
        have hhidden : ∀ o, m.outputWorkspaces.get o ≠ some workspace := fun o ho => by
          have hvis := (hp.isVisible_iff h.small).mpr ⟨o, ho⟩
          have hno := List.find?_some hfind
          rw [isVisible] at hvis
          simp [hvis] at hno
        simp only [hp.active, Option.isSome_some, if_true]
        have hne : ∀ {o shown}, m.outputWorkspaces.get o = some shown → o ≠ output := fun ho heq => by
          rw [heq, hout] at ho
          simp at ho
        refine ⟨_, _, rfl, h.small, h.active, .inr ⟨focused, rfl, ?_, fun w hw => ?_, fun w o ho => ?_,
          fun o w ho => ?_⟩⟩
        · rw [get_insert, if_neg (hne hp.active)]
          exact hp.active
        · by_cases hw' : w = workspace
          · refine ⟨output, workspace, ?_, ?_⟩
            · rw [get_insert, if_pos hw']
            · rw [get_insert, if_pos rfl]
          · obtain ⟨o, shown, ho, hshown⟩ := hp.owned w hw
            refine ⟨o, shown, ?_, ?_⟩
            · rw [get_insert, if_neg hw', ho]
            · rw [get_insert, if_neg (hne hshown), hshown]
        · rw [get_insert] at ho
          split_ifs at ho with hw'
          · exact hw' ▸ hmem
          · exact hp.known w o ho
        · rw [get_insert] at ho
          split_ifs at ho with ho'
          · rw [get_insert, if_pos (Option.some.inj ho).symm, ho']
          · rw [get_insert, if_neg fun hw' : w = workspace => hhidden o (hw' ▸ ho)]
            exact hp.shows o w ho

theorem PlacedOn.moved {focused output fallback : OutputId} (hp : m.PlacedOn focused)
    (hne : fallback ≠ output) (hfall : ∃ shown, m.outputWorkspaces.get fallback = some shown) :
    (∀ w ∈ m.workspaces, ∃ o shown,
        (m.workspaceOutputs.mapValues fun owner => if owner = output then fallback else owner).get w = some o ∧
        (m.outputWorkspaces.erase output).get o = some shown) ∧
      (∀ w o, (m.workspaceOutputs.mapValues fun owner => if owner = output then fallback else owner).get w = some o →
        w ∈ m.workspaces) ∧
      ∀ o w, (m.outputWorkspaces.erase output).get o = some w →
        (m.workspaceOutputs.mapValues fun owner => if owner = output then fallback else owner).get w = some o := by
  refine ⟨fun w hw => ?_, fun w o ho => ?_, fun o w ho => ?_⟩
  · obtain ⟨o, shown, ho, hshown⟩ := hp.owned w hw
    rw [BTreeMap.get_mapValues, ho, Option.map_some]
    by_cases heq : o = output
    · obtain ⟨shown', hshown'⟩ := hfall
      exact ⟨fallback, shown', by rw [if_pos heq], by rw [get_erase, if_neg hne, hshown']⟩
    · exact ⟨o, shown, by rw [if_neg heq], by rw [get_erase, if_neg heq, hshown]⟩
  · rw [BTreeMap.get_mapValues, Option.map_eq_some_iff] at ho
    obtain ⟨owner, howner, -⟩ := ho
    exact hp.known w owner howner
  · rw [get_erase] at ho
    split_ifs at ho with heq
    rw [BTreeMap.get_mapValues, hp.shows o w ho, Option.map_some, if_neg heq]

theorem Sound.detachOutput (h : m.Sound) (output : OutputId) : ∃ m', m.detachOutput output = .ok m' ∧ m'.Sound := by
  rw [WorkspaceManager.detachOutput]
  cases hout : m.outputWorkspaces.get output with
  | none => exact ⟨_, rfl, h⟩
  | some shown =>
    obtain hun | ⟨focused, hp⟩ := h.placement
    · rw [get_of_entries_nil hun.outputs] at hout
      simp at hout
    · simp only [hp.focus, Option.some.injEq]
      by_cases heq : focused = output
      · -- the focused output leaves: the first remaining one takes over
        subst heq
        have hfilter : (some focused).filter (fun o => decide (o ≠ focused)) = none := by simp [Option.filter]
        rw [hfilter, Option.none_or]
        cases hfirst : (m.outputWorkspaces.erase focused).firstKey with
        | none =>
          have hnil : (m.outputWorkspaces.erase focused).entries = [] := by simpa [BTreeMap.firstKey] using hfirst
          exact ⟨_, rfl, h.small, h.active, .inl ⟨hnil, rfl, rfl⟩⟩
        | some fallback =>
          obtain ⟨shown', hshown'⟩ := BTreeMap.get_firstKey _ hfirst
          have hget := hshown'
          rw [get_erase] at hget
          split_ifs at hget with hne
          obtain ⟨howned, hknown, hshows⟩ := hp.moved hne ⟨shown', hget⟩
          simp only [hshown', Run.expect_some, Run.ok_bind, if_true]
          exact ⟨_, rfl, h.small, hp.known _ _ (hp.shows _ _ hget), .inr
            ⟨fallback, rfl, hshown', howned, hknown, hshows⟩⟩
      · have hfilter : (some focused).filter (fun o => decide (o ≠ output)) = some focused := by
          simp [Option.filter, heq]
        rw [hfilter, Option.some_or]
        obtain ⟨howned, hknown, hshows⟩ := hp.moved heq ⟨_, hp.active⟩
        simp only [heq, if_false]
        refine ⟨_, rfl, h.small, h.active, .inr ⟨focused, rfl, ?_, howned, hknown, hshows⟩⟩
        rw [get_erase, if_neg heq]
        exact hp.active

theorem Sound.focusOutput (h : m.Sound) (output : OutputId) : (m.focusOutput output).2.Sound := by
  rw [WorkspaceManager.focusOutput]
  cases hout : m.outputWorkspaces.get output with
  | none => exact h
  | some shown =>
    obtain hun | ⟨focused, hp⟩ := h.placement
    · rw [get_of_entries_nil hun.outputs] at hout
      simp at hout
    · simp only
      split_ifs
      · exact h
      · exact ⟨h.small, hp.known _ _ (hp.shows _ _ hout), .inr ⟨output, rfl, hout, hp.owned, hp.known, hp.shows⟩⟩

def Reports (m m' : WorkspaceManager) : WorkspaceSwitchOutcome → Prop
  | .changed previous current => m.isVisible previous = true ∧ m.isVisible current = false ∧
      ∀ w, m'.isVisible w = true ↔ w = current ∨ m.isVisible w = true ∧ w ≠ previous
  | _ => ∀ w, m'.isVisible w = m.isVisible w

theorem Sound.activate (h : m.Sound) (workspace : WorkspaceId) :
    ∃ outcome m', m.activate workspace = .ok (outcome, m') ∧ m'.Sound ∧ m.Reports m' outcome := by
  rw [WorkspaceManager.activate]
  by_cases hmem : workspace ∈ m.workspaces
  swap
  · exact ⟨.unknownWorkspace, m, by simp [contains, hmem], h, fun w => rfl⟩
  simp only [contains, hmem, decide_true, Bool.not_true, Bool.false_eq_true, if_false]
  by_cases hactive : m.activeWorkspace = workspace
  · exact ⟨.noChange, m, by rw [if_pos hactive], h, fun w => rfl⟩
  rw [if_neg hactive]
  obtain hun | ⟨focused, hp⟩ := h.placement
  · simp only [get_of_entries_nil hun.owners]
    refine ⟨_, _, rfl, ⟨h.small, hmem, .inl ⟨hun.outputs, hun.focused, hun.owners⟩⟩, ?_, ?_, fun w => ?_⟩
    · exact isVisible_iff.mpr ⟨h.small _ h.active, .inl rfl⟩
    · rw [← Bool.not_eq_true, isVisible_iff]
      rintro ⟨-, heq | ⟨o, ho⟩⟩
      · exact hactive heq.symm
      · rw [get_of_entries_nil hun.outputs] at ho
        simp at ho
    · simp only [isVisible_iff, get_of_entries_nil hun.outputs, reduceCtorEq, exists_false, or_false]
      constructor
      · exact fun hw => .inl hw.2
      · rintro (rfl | ⟨⟨-, heq⟩, hne⟩)
        · exact ⟨h.small _ hmem, rfl⟩
        · exact absurd heq hne
  · obtain ⟨output, shown, howner, hshown⟩ := hp.owned workspace hmem
    simp only [howner, hshown, Run.expect_some, Run.ok_bind]
    by_cases hsame : shown = workspace
    · -- already shown on its output: only the focus moves
      rw [if_pos hsame]
      have hp' : PlacedOn { m with focusedOutput := some output, activeWorkspace := workspace } output :=
        ⟨rfl, hsame ▸ hshown, hp.owned, hp.known, hp.shows⟩
      refine ⟨_, _, rfl, ⟨h.small, hmem, .inr ⟨output, hp'⟩⟩, fun w => ?_⟩
      rw [Bool.eq_iff_iff, hp'.isVisible_iff h.small, hp.isVisible_iff h.small]
    · rw [if_neg hsame]
      have hhidden : ∀ o, m.outputWorkspaces.get o ≠ some workspace := fun o ho => by
        obtain rfl := Option.some.inj (howner.symm.trans (hp.shows o _ ho))
        exact hsame (Option.some.inj (hshown.symm.trans ho))
      have hp' : PlacedOn { m with
          focusedOutput := some output
          activeWorkspace := workspace
          outputWorkspaces := m.outputWorkspaces.insert output workspace } output := by
        refine ⟨rfl, ?_, fun w hw => ?_, hp.known, fun o w ho => ?_⟩
        · rw [get_insert, if_pos rfl]
        · obtain ⟨o, shown', ho, hshown'⟩ := hp.owned w hw
          by_cases heq : o = output
          · exact ⟨o, workspace, ho, by rw [get_insert, if_pos heq]⟩
          · exact ⟨o, shown', ho, by rw [get_insert, if_neg heq, hshown']⟩
        · rw [get_insert] at ho
          split_ifs at ho with heq
          · obtain rfl := Option.some.inj ho
            exact heq ▸ howner
          · exact hp.shows o w ho
      refine ⟨_, _, rfl, ⟨h.small, hmem, .inr ⟨output, hp'⟩⟩, ?_, ?_, fun w => ?_⟩
      · exact (hp.isVisible_iff h.small).mpr ⟨output, hshown⟩
      · rw [← Bool.not_eq_true, hp.isVisible_iff h.small]
        exact fun ⟨o, ho⟩ => hhidden o ho
      · rw [hp'.isVisible_iff h.small, hp.isVisible_iff h.small]
        simp only [get_insert]
        constructor
        · rintro ⟨o, ho⟩
          split_ifs at ho with heq
          · exact .inl (Option.some.inj ho).symm
          · refine .inr ⟨⟨o, ho⟩, ?_⟩
            rintro rfl
            exact heq (hp.distinct ho hshown)
        · rintro (rfl | ⟨⟨o, ho⟩, hne⟩)
          · exact ⟨output, if_pos rfl⟩
          · refine ⟨o, ?_⟩
            rw [if_neg, ho]
            rintro rfl
            exact hne (Option.some.inj (ho.symm.trans hshown))

/-! ### Runs -/

theorem mapM_new {l : List ℕ} {ws : List WorkspaceId} (h : l.mapM WorkspaceId.new = some ws) :
    ws.map Subtype.val = l := by
  induction l generalizing ws with
  | nil =>
    obtain rfl : ws = [] := by simpa using h.symm
    rfl
  | cons n rest ih =>
    simp only [List.mapM_cons, Option.bind_eq_bind, Option.bind_eq_some_iff, Option.pure_def, Option.some.injEq] at h
    obtain ⟨w, hw, ws', hws', rfl⟩ := h
    rw [WorkspaceId.new] at hw
    split_ifs at hw
    rw [List.map_cons, ih hws', ← Option.some.inj hw]

theorem exists_mapM_new {l : List ℕ} (hl : ∀ n ∈ l, 0 < n ∧ n < 4294967296) :
    ∃ ws, l.mapM WorkspaceId.new = some ws := by
  induction l with
  | nil => exact ⟨[], rfl⟩
  | cons n rest ih =>
    obtain ⟨ws, hws⟩ := ih fun k hk => hl k (List.mem_cons_of_mem _ hk)
    refine ⟨⟨n, hl n List.mem_cons_self⟩ :: ws, ?_⟩
    simp [List.mapM_cons, WorkspaceId.new, hl n List.mem_cons_self, hws]

theorem exists_new {count : ℕ} (hpos : 1 ≤ count) (hmax : count ≤ 64) : ∃ m, new count = some m := by
  obtain ⟨ws, hws⟩ := exists_mapM_new (l := List.range' 1 count) fun n hn => by
    rw [List.mem_range'_1] at hn
    omega
  cases ws with
  | nil =>
    have hlen := congrArg List.length (mapM_new hws)
    rw [List.length_range'] at hlen
    simp only [List.map_nil, List.length_nil] at hlen
    omega
  | cons active rest => exact ⟨⟨active, active :: rest, none, .empty, .empty⟩, by simp [new, hws]⟩

theorem sound_new {count : ℕ} (hmax : count ≤ 64) (h : new count = some m) : m.Sound := by
  simp only [new, Option.bind_eq_bind, Option.bind_eq_some_iff, Option.some.injEq] at h
  obtain ⟨ws, hws, active, hactive, rfl⟩ := h
  refine ⟨fun w hw => ?_, List.mem_of_mem_head? hactive, .inl ⟨rfl, rfl, rfl⟩⟩
  have hval : w.val ∈ List.range' 1 count := mapM_new hws ▸ List.mem_map_of_mem hw
  rw [List.mem_range'_1] at hval
  omega

theorem Sound.step (h : m.Sound) (op : WorkspaceOp) : ∃ m', m.step op = .ok m' ∧ m'.Sound := by
  cases op with
  | attachOutput output =>
    obtain ⟨shown, m', hrun, hm'⟩ := h.attachOutput output
    exact ⟨m', by rw [WorkspaceManager.step, hrun]; rfl, hm'⟩
  | detachOutput output => exact h.detachOutput output
  | focusOutput output => exact ⟨_, rfl, h.focusOutput output⟩
  | activate workspace =>
    obtain ⟨outcome, m', hrun, hm', -⟩ := h.activate workspace
    exact ⟨m', by rw [WorkspaceManager.step, hrun]; rfl, hm'⟩

theorem Sound.run (h : m.Sound) (ops : List WorkspaceOp) :
    ∃ m', WorkspaceManager.run ops m = .ok m' ∧ m'.Sound := by
  induction ops generalizing m with
  | nil => exact ⟨m, rfl, h⟩
  | cons op ops ih =>
    obtain ⟨m₁, hstep, hm₁⟩ := h.step op
    obtain ⟨m₂, hrun, hm₂⟩ := ih hm₁
    exact ⟨m₂, by rw [WorkspaceManager.run, hstep]; exact hrun, hm₂⟩

/-- From a manager of 1 to 64 workspaces, every run of operations returns; after it no output is attached,
or the focused output shows the active workspace, every workspace belongs to one attached output, every
attached output shows a workspace of its own and no two show the same. Activating any workspace then
changes what is visible exactly as its answer says. -/
theorem run_placed {count : ℕ} (hcount : 1 ≤ count ∧ count ≤ 64) (ops : List WorkspaceOp) :
    ∃ start m, new count = some start ∧ run ops start = .ok m ∧
      (m.Unplaced ∨ ∃ focused, m.PlacedOn focused ∧ ∀ o o' w, m.outputWorkspaces.get o = some w →
        m.outputWorkspaces.get o' = some w → o = o') ∧
      ∀ workspace, ∃ outcome m', m.activate workspace = .ok (outcome, m') ∧ m.Reports m' outcome := by
  obtain ⟨start, hnew⟩ := exists_new hcount.1 hcount.2
  obtain ⟨m, hrun, hm⟩ := (sound_new hcount.2 hnew).run ops
  refine ⟨start, m, hnew, hrun, hm.placement.imp_right ?_, fun workspace => ?_⟩
  · rintro ⟨focused, hp⟩
    exact ⟨focused, hp, fun o o' w => hp.distinct⟩
  · obtain ⟨outcome, m', hact, -, hreports⟩ := hm.activate workspace
    exact ⟨outcome, m', hact, hreports⟩

theorem run_placed_hotplug : ∃ start m, new 2 = some start ∧
    run [.attachOutput ⟨1, by decide⟩, .attachOutput ⟨2, by decide⟩, .detachOutput ⟨1, by decide⟩] start = .ok m ∧
    (m.Unplaced ∨ ∃ focused, m.PlacedOn focused ∧ ∀ o o' w, m.outputWorkspaces.get o = some w →
      m.outputWorkspaces.get o' = some w → o = o') ∧
    ∀ workspace, ∃ outcome m', m.activate workspace = .ok (outcome, m') ∧ m.Reports m' outcome :=
  run_placed ⟨by decide, by decide⟩ _

/-! ### An output that comes and goes -/

/-- Only the owner of the workspace `lent` to the output may differ. -/
structure ShowsAs (m m' : WorkspaceManager) (lent : Option WorkspaceId) : Prop where
  active : m'.activeWorkspace = m.activeWorkspace
  focused : m'.focusedOutput = m.focusedOutput
  shown : ∀ o, m'.outputWorkspaces.get o = m.outputWorkspaces.get o
  owner : ∀ w, lent ≠ some w → m'.workspaceOutputs.get w = m.workspaceOutputs.get w

theorem PlacedOn.owner_ne {focused output : OutputId} (hp : m.PlacedOn focused)
    (hout : m.outputWorkspaces.get output = none) : m.workspaceOutputs.get w ≠ some output := by
  intro howner
  obtain ⟨o, shown, ho, hshown⟩ := hp.owned w (hp.known w output howner)
  obtain rfl := Option.some.inj (ho.symm.trans howner)
  rw [hout] at hshown
  cases hshown

theorem Sound.attach_detach (h : m.Sound) {output : OutputId} (hout : m.outputWorkspaces.get output = none) :
    ∃ shown m' m'', m.attachOutput output = .ok (shown, m') ∧ m'.detachOutput output = .ok m'' ∧
      m.ShowsAs m'' shown := by
  have hback : ∀ w o, ((m.outputWorkspaces.insert output w).erase output).get o = m.outputWorkspaces.get o := by
    intro w o
    rw [get_erase, get_insert]
    split_ifs with ho
    exacts [ho ▸ hout.symm, rfl]
  rw [WorkspaceManager.attachOutput, hout]
  obtain hun | ⟨focused, hp⟩ := h.placement
  · -- the output was the only one
    have hnil : ((m.outputWorkspaces.insert output m.activeWorkspace).erase output).entries = [] := by
      simp [BTreeMap.insert, insertEntry, erase, hun.outputs]
    simp only [hun.focused]
    refine ⟨_, _, { m with
      focusedOutput := none
      outputWorkspaces := (m.outputWorkspaces.insert output m.activeWorkspace).erase output
      workspaceOutputs := .empty }, rfl, ?_, rfl, hun.focused.symm, hback _, fun w _ => ?_⟩
    · simp [WorkspaceManager.detachOutput, get_insert, firstKey, hnil, Option.filter]
    · rw [get_of_entries_nil rfl, get_of_entries_nil hun.owners]
  · have hne : focused ≠ output := by
      rintro rfl
      simp [hp.active] at hout
    simp only [hp.focus, hp.active]
    cases m.workspaces.find? fun workspace => !m.visibleWorkspaces.contains workspace with
    | none =>
      exact ⟨_, m, m, rfl, by rw [WorkspaceManager.detachOutput, hout], rfl, rfl, fun _ => rfl, fun _ _ => rfl⟩
    | some workspace =>
      refine ⟨_, _, { m with
        outputWorkspaces := (m.outputWorkspaces.insert output workspace).erase output
        workspaceOutputs := (m.workspaceOutputs.insert workspace output).mapValues fun owner =>
          if owner = output then focused else owner }, rfl, ?_, rfl, rfl, hback _, fun w hw => ?_⟩
      · simp [WorkspaceManager.detachOutput, get_insert, hp.focus, Option.filter, hne]
      · -- what the output owns in between is the workspace that it shows
        rw [get_mapValues, get_insert, if_neg fun heq : w = workspace => hw (by rw [heq])]
        cases howner : m.workspaceOutputs.get w with
        | none => rfl
        | some owner =>
          rw [Option.map_some, if_neg]
          rintro rfl
          exact hp.owner_ne hout howner

/-- In every state that a run leads to, an output that is attached and detached again leaves the active workspace, the
focus, what each output shows and the owner of every workspace but the one it showed as they were. -/
theorem hotplug_restores {count : ℕ} (hcount : 1 ≤ count ∧ count ≤ 64) {start : WorkspaceManager}
    (hnew : new count = some start) (ops : List WorkspaceOp) (hrun : run ops start = .ok m) {output : OutputId}
    (hout : m.outputWorkspaces.get output = none) :
    ∃ shown m' m'', m.attachOutput output = .ok (shown, m') ∧ m'.detachOutput output = .ok m'' ∧
      m.ShowsAs m'' shown := by
  obtain ⟨m₁, hrun₁, hm₁⟩ := (sound_new hcount.2 hnew).run ops
  rw [hrun] at hrun₁
  obtain rfl := Except.ok.inj hrun₁
  exact hm₁.attach_detach hout

theorem hotplug_restores_second : ∃ start m, new 3 = some start ∧
    run [.attachOutput ⟨1, by decide⟩, .activate ⟨3, by decide⟩] start = .ok m ∧
    m.outputWorkspaces.get ⟨2, by decide⟩ = none ∧ ∃ shown m' m'', m.attachOutput ⟨2, by decide⟩ = .ok (shown, m') ∧
      m'.detachOutput ⟨2, by decide⟩ = .ok m'' ∧ m.ShowsAs m'' shown :=
  ⟨_, _, rfl, rfl, rfl, hotplug_restores (show 1 ≤ 3 ∧ 3 ≤ 64 by decide) rfl
    [.attachOutput ⟨1, by decide⟩, .activate ⟨3, by decide⟩] rfl rfl⟩

end WorkspaceManager
end Typhon.Workspace
