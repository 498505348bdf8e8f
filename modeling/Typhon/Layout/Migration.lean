import Typhon.Foundation.Collect
import Typhon.Foundation.Outcome
import Typhon.Layout.Reflow

/-! Tiled windows that change their workspace. Each is taken out of the tree of its old location and put into the tree
of its new one; a tree that then has no layout gives up the newcomers, the latest first, and these float. -/

namespace Typhon.Layout
open Foundation

inductive WorkspaceLocation where
  | regular (workspace : ℕ)
  | special (workspace : ℕ)
  deriving DecidableEq

abbrev Spaces (F : Type) [Float64 F] := HashMap WorkspaceLocation (DwindleTree F)

structure TiledLayoutManager (F : Type) [Float64 F] where
  spaces : Spaces F

inductive ManagerError where
  | missingTree (location : WorkspaceLocation)
  | tree (error : DwindleTreeError)
  deriving DecidableEq

structure TiledChange where
  window : WindowId
  previous : WorkspaceLocation
  new : WorkspaceLocation
  deriving DecidableEq

structure PreparedTiledMigration (F : Type) [Float64 F] where
  candidateTrees : Spaces F
  finalSolutions : HashMap WorkspaceLocation (TiledLayoutSolution F)
  affectedLocations : List WorkspaceLocation
  fallbackWindows : List WindowId

variable {F : Type} [Float64 F]

namespace TiledLayoutManager

variable (m : TiledLayoutManager F)

def tree (location : WorkspaceLocation) : Option (DwindleTree F) := m.spaces.lookup location

def replaceTree (location : WorkspaceLocation) (tree : DwindleTree F) :
    TiledLayoutManager F :=
  if tree.len = 0 then ⟨m.spaces.erase location⟩ else ⟨m.spaces.insert location tree⟩

def insert (location : WorkspaceLocation) (window : WindowId) (hint : InsertHint) :
    Run Empty (Except ManagerError Unit × TiledLayoutManager F) :=
  if ∃ other ∈ m.spaces.keys, other ≠ location ∧ (m.tree other).any (·.containsWindow window) = true then
    .ok (.error (.tree (.duplicateWindow window)), m)
  else do
    let (result, tree) ← ((m.tree location).getD .empty).insert window hint
    .ok (match result with
      | .ok _ => .ok ()
      | .error e => .error (.tree e), ⟨m.spaces.insert location tree⟩)

/-! ### The candidate -/

def movesWindow (change : TiledChange) : Bool :=
  change.previous ≠ change.new && (m.tree change.previous).any (·.containsWindow change.window)

def moves (changes : List TiledChange) : List TiledChange := changes.filter m.movesWindow

def addLocation (locations : List WorkspaceLocation) (location : WorkspaceLocation) : List WorkspaceLocation :=
  if location ∈ locations then locations else locations ++ [location]

def affectedLocations (moves : List TiledChange) : List WorkspaceLocation :=
  moves.foldl (fun locations move => addLocation (addLocation locations move.previous) move.new) []

def incomingTo (moves : List TiledChange) (location : WorkspaceLocation) : List WindowId :=
  ((moves.filter fun move => move.new = location).map (·.window)).insertionSort fun a b => a.raw ≤ b.raw

def candidateTrees (affected : List WorkspaceLocation) : Spaces F :=
  HashMap.collect (affected.map fun location => (location, (m.tree location).getD .empty))

def moveWindows : List TiledChange → Spaces F → Run Empty (Option (Spaces F))
  | [], trees => .ok (some trees)
  | move :: moves, trees =>
    match trees.lookup move.previous with
    | none => .ok none
    | some source => do
      match ← source.remove move.window with
      | (.error _, _) => .ok none
      | (.ok (), source) =>
        let trees := trees.insert move.previous source
        match ← ((trees.lookup move.new).getD .empty).insert move.window InsertHint.none with
        | (.error _, _) => .ok none
        | (.ok _, destination) => moveWindows moves (trees.insert move.new destination)

def retryLoop (windows : DesktopWindows F) (root : LayoutRect) (incoming : List WindowId) :
    ℕ → DwindleTree F → List WindowId → Run Empty (Option (DwindleTree F × List WindowId))
  | 0, _, _ => Run.diverge
  | turns + 1, tree, fallback => do
    match ← (solveTree tree root (candidateLayoutSnapshotsForTree windows tree)).dropError with
    | some _ => .ok (some (tree, fallback))
    | none =>
      match incoming.reverse.find? tree.containsWindow with
      | none => .ok none
      | some window =>
        match ← tree.remove window with
        | (.ok (), tree) => retryLoop windows root incoming turns tree (fallback ++ [window])
        | (.error _, _) => .ok none

def retryLocations (windows : DesktopWindows F) (root : WorkspaceLocation → LayoutRect)
    (incoming : WorkspaceLocation → List WindowId) :
    List WorkspaceLocation → Spaces F → List WindowId → Run Empty (Option (Spaces F × List WindowId))
  | [], trees, fallback => .ok (some (trees, fallback))
  | location :: locations, trees, fallback =>
    match trees.lookup location with
    | none => .ok none
    | some tree => do
      match ← retryLoop windows (root location) (incoming location) (tree.windows.length + 1) tree [] with
      | none => .ok none
      | some (tree, dropped) =>
        retryLocations windows root incoming locations (trees.insert location tree) (fallback ++ dropped)

def finalSolutions (windows : DesktopWindows F) (root : WorkspaceLocation → LayoutRect) (trees : Spaces F) :
    List WorkspaceLocation → HashMap WorkspaceLocation (TiledLayoutSolution F) →
      Run Empty (Option (HashMap WorkspaceLocation (TiledLayoutSolution F)))
  | [], solutions => .ok (some solutions)
  | location :: locations, solutions =>
    match trees.lookup location with
    | none => .ok none
    | some tree => do
      match ← (solveTree tree (root location) (candidateLayoutSnapshotsForTree windows tree)).dropError with
      | none => .ok none
      | some solution => finalSolutions windows root trees locations (solutions.insert location solution)

def dedup : List WindowId → List WindowId
  | [] => []
  | [window] => [window]
  | window :: next :: rest => if window = next then dedup (next :: rest) else window :: dedup (next :: rest)

def migrateTiledLayouts (windows : DesktopWindows F) (root : WorkspaceLocation → LayoutRect)
    (changes : List TiledChange) : Run Empty (Option (PreparedTiledMigration F)) :=
  let moves := m.moves changes
  let affected := affectedLocations moves
  if affected = [] then .ok (some ⟨∅, ∅, [], []⟩)
  else do
    match ← moveWindows moves (m.candidateTrees affected) with
    | none => .ok none
    | some trees =>
      match ← retryLocations windows root (incomingTo moves) affected trees [] with
      | none => .ok none
      | some (trees, fallback) =>
        match ← finalSolutions windows root trees affected ∅ with
        | none => .ok none
        | some solutions =>
          .ok (some ⟨trees, solutions, affected, dedup (fallback.insertionSort fun a b => a.raw ≤ b.raw)⟩)

def commitPreparedTiledMigration (order : HashMap.Order WorkspaceLocation)
    (prepared : PreparedTiledMigration F) : TiledLayoutManager F :=
  (order.visit prepared.candidateTrees.keys).foldl (fun m location =>
    match prepared.candidateTrees.lookup location with
    | some tree => m.replaceTree location tree
    | none => m) m

def applyMembershipTransition (order : HashMap.Order WorkspaceLocation)
    (windows : DesktopWindows F) (root : WorkspaceLocation → LayoutRect) (changes : List TiledChange) :
    Run Empty (Bool × TiledLayoutManager F) := do
  match ← m.migrateTiledLayouts windows root changes with
  | none => .ok (false, m)
  | some prepared => .ok (true, m.commitPreparedTiledMigration order prepared)

end TiledLayoutManager
end Typhon.Layout
