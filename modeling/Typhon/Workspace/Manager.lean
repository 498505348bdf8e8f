import Typhon.Foundation.BTreeMap
import Typhon.Foundation.Fault
import Typhon.Foundation.Word64

/-! The placement of regular workspaces on outputs. -/

namespace Typhon.Workspace
open Foundation

abbrev WorkspaceId := { n : ℕ // 0 < n ∧ n < 4294967296 }

abbrev OutputId := { n : ℕ // 0 < n ∧ n < 18446744073709551616 }

def WorkspaceId.new (value : ℕ) : Option WorkspaceId :=
  if h : 0 < value ∧ value < 4294967296 then some ⟨value, h⟩ else none

structure VisibleWorkspaces where
  bits : BitVec 64

namespace VisibleWorkspaces

def empty : VisibleWorkspaces := ⟨0⟩

variable (visible : VisibleWorkspaces)

def insert (workspace : WorkspaceId) : VisibleWorkspaces :=
  if workspace.val - 1 < 64 then ⟨visible.bits ||| (1#64 <<< (workspace.val - 1))⟩ else visible

def contains (workspace : WorkspaceId) : Bool :=
  if workspace.val - 1 < 64 then visible.bits &&& (1#64 <<< (workspace.val - 1)) != 0#64 else false

def single (workspace : WorkspaceId) : VisibleWorkspaces := empty.insert workspace

theorem contains_eq (workspace : WorkspaceId) :
    visible.contains workspace = visible.bits.getLsbD (workspace.val - 1) := by
  rw [contains]
  split_ifs with h
  · exact U64.and_mask_ne_zero _ h
  · exact (BitVec.getLsbD_of_ge _ _ (not_lt.mp h)).symm

theorem contains_insert (workspace other : WorkspaceId) : (visible.insert workspace).contains other = true ↔
      visible.contains other = true ∨ other = workspace ∧ other.val ≤ 64 := by
  have hpos := workspace.property.1
  have hpos' := other.property.1
  have hsame : other.val - 1 = workspace.val - 1 ↔ other = workspace := by
    rw [Subtype.ext_iff]
    omega
  simp only [contains_eq, insert]
  split_ifs with h
  · rw [BitVec.getLsbD_or, Bool.or_eq_true, ← BitVec.twoPow_eq, BitVec.getLsbD_twoPow]
    refine or_congr_right ?_
    simp only [Bool.and_eq_true, decide_eq_true_eq, eq_comm (a := workspace.val - 1), hsame]
    constructor
    · rintro ⟨-, rfl⟩
      exact ⟨rfl, by omega⟩
    · rintro ⟨rfl, -⟩
      exact ⟨h, rfl⟩
  · constructor
    · exact .inl
    · rintro (hmem | ⟨rfl, hle⟩)
      · exact hmem
      · omega

end VisibleWorkspaces

/-- `WorkspaceManager` without its special workspaces, which no operation on the placement reads. -/
structure WorkspaceManager where
  activeWorkspace : WorkspaceId
  workspaces : List WorkspaceId
  focusedOutput : Option OutputId
  outputWorkspaces : BTreeMap OutputId WorkspaceId
  workspaceOutputs : BTreeMap WorkspaceId OutputId

inductive WorkspaceSwitchOutcome where
  | changed (previous current : WorkspaceId)
  | focusedOutput (previous current : WorkspaceId)
  | noChange
  | unknownWorkspace
  deriving DecidableEq

namespace WorkspaceManager

def new (count : ℕ) : Option WorkspaceManager := do
  let workspaces ← (List.range' 1 count).mapM WorkspaceId.new
  let active ← workspaces.head?
  some ⟨active, workspaces, none, .empty, .empty⟩

variable (m : WorkspaceManager)

def visibleWorkspaces : VisibleWorkspaces :=
  m.outputWorkspaces.values.foldl VisibleWorkspaces.insert (.single m.activeWorkspace)

def isVisible (workspace : WorkspaceId) : Bool := m.visibleWorkspaces.contains workspace

def contains (workspace : WorkspaceId) : Bool := decide (workspace ∈ m.workspaces)

def attachOutput (output : OutputId) : Run Empty (Option WorkspaceId × WorkspaceManager) :=
  match m.outputWorkspaces.get output with
  | some shown => .ok (some shown, m)
  | none =>
    match m.focusedOutput with
    | none =>
      .ok (some m.activeWorkspace, { m with
        focusedOutput := some output
        outputWorkspaces := m.outputWorkspaces.insert output m.activeWorkspace
        workspaceOutputs := m.workspaces.foldl (fun owners workspace => owners.insert workspace output)
          m.workspaceOutputs })
    | some focused =>
      match m.workspaces.find? fun workspace => !m.visibleWorkspaces.contains workspace with
      | none => .ok (none, m)
      | some workspace =>
        if (m.outputWorkspaces.get focused).isSome then
          .ok (some workspace, { m with
            outputWorkspaces := m.outputWorkspaces.insert output workspace
            workspaceOutputs := m.workspaceOutputs.insert workspace output })
        else Run.panic "assertion failed: self.output_workspaces.contains_key(&focused)"

def detachOutput (output : OutputId) : Run Empty WorkspaceManager :=
  match m.outputWorkspaces.get output with
  | none => .ok m
  | some _ =>
    let remaining := m.outputWorkspaces.erase output
    match (m.focusedOutput.filter fun focused => focused ≠ output).or remaining.firstKey with
    | none =>
      .ok { m with focusedOutput := none, outputWorkspaces := remaining, workspaceOutputs := .empty }
    | some fallback =>
      let owners := m.workspaceOutputs.mapValues fun owner => if owner = output then fallback else owner
      if m.focusedOutput = some output then do
        let shown ← Run.expect "no entry found for key" (remaining.get fallback)
        .ok { m with
          focusedOutput := some fallback
          activeWorkspace := shown
          outputWorkspaces := remaining
          workspaceOutputs := owners }
      else .ok { m with outputWorkspaces := remaining, workspaceOutputs := owners }

def focusOutput (output : OutputId) : Bool × WorkspaceManager :=
  match m.outputWorkspaces.get output with
  | none => (false, m)
  | some shown =>
    if m.focusedOutput = some output then (false, m)
    else (true, { m with focusedOutput := some output, activeWorkspace := shown })

def activate (workspace : WorkspaceId) :
    Run Empty (WorkspaceSwitchOutcome × WorkspaceManager) :=
  if !m.contains workspace then .ok (.unknownWorkspace, m)
  else if m.activeWorkspace = workspace then .ok (.noChange, m)
  else
    match m.workspaceOutputs.get workspace with
    | none => .ok (.changed m.activeWorkspace workspace, { m with activeWorkspace := workspace })
    | some output => do
      let shown ← Run.expect "no entry found for key" (m.outputWorkspaces.get output)
      let focused := { m with focusedOutput := some output, activeWorkspace := workspace }
      if shown = workspace then .ok (.focusedOutput m.activeWorkspace workspace, focused)
      else
        .ok (.changed shown workspace,
          { focused with outputWorkspaces := m.outputWorkspaces.insert output workspace })

end WorkspaceManager

inductive WorkspaceOp where
  | attachOutput (output : OutputId)
  | detachOutput (output : OutputId)
  | focusOutput (output : OutputId)
  | activate (workspace : WorkspaceId)

namespace WorkspaceManager

def step (m : WorkspaceManager) : WorkspaceOp → Run Empty WorkspaceManager
  | .attachOutput output => do
    let (_, m) ← m.attachOutput output
    .ok m
  | .detachOutput output => m.detachOutput output
  | .focusOutput output => .ok (m.focusOutput output).2
  | .activate workspace => do
    let (_, m) ← m.activate workspace
    .ok m

def run : List WorkspaceOp → WorkspaceManager → Run Empty WorkspaceManager
  | [], m => .ok m
  | op :: ops, m => do
    let m ← m.step op
    run ops m

end WorkspaceManager
end Typhon.Workspace
