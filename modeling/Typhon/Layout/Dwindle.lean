import Typhon.Foundation.Arena
import Typhon.Foundation.HashMap
import Typhon.Layout.Geometry

/-! The arena-backed binary space partitioning topology of one location. -/

namespace Typhon.Layout
open Foundation

abbrev DwindleNodeId := ArenaId

inductive DwindleNodeKind (F : Type) [Float64 F] where
  | leaf (window : WindowId)
  | split (axis : SplitAxis) (ratio : SplitRatio F) (first second : DwindleNodeId)

structure InsertHint where
  focused : Option WindowId
  fallback : Option WindowId
  pointer : Option LayoutPoint
  anchorRect : Option LayoutRect

def InsertHint.none : InsertHint := ⟨.none, .none, .none, .none⟩

inductive DwindleTreeError where
  | duplicateWindow (window : WindowId)
  | unknownWindow (window : WindowId)
  | unknownNode
  | nodeIsNotSplit
  | invalidRatio
  deriving DecidableEq

structure DwindleNode (F : Type) [Float64 F] where
  parent : Option DwindleNodeId
  kind : DwindleNodeKind F

abbrev DwindleArena (F : Type) [Float64 F] := Arena (DwindleNode F)

structure DwindleTree (F : Type) [Float64 F] where
  root : Option DwindleNodeId
  nodes : DwindleArena F
  byWindow : HashMap WindowId DwindleNodeId
  insertionOrder : List WindowId
  topologyGeneration : ℕ

variable {F : Type} [Float64 F]

def setParent (message : String) (nodes : DwindleArena F) (id : DwindleNodeId)
    (parent : Option DwindleNodeId) : Run Empty (DwindleArena F) := do
  let node ← Run.expect message (nodes.get id)
  .ok (nodes.set id { node with parent := parent })

def replaceChild (nodes : DwindleArena F) (parent old new : DwindleNodeId) :
    Run Empty (DwindleArena F) := do
  let node ← Run.expect "parent is live" (nodes.get parent)
  match node.kind with
  | .leaf _ => Run.panic "internal error: entered unreachable code: only split nodes have children"
  | .split axis ratio first second =>
    if first = old then .ok (nodes.set parent { node with kind := .split axis ratio new second })
    else if second = old then
      .ok (nodes.set parent { node with kind := .split axis ratio first new })
    else Run.panic "internal error: entered unreachable code: old child belongs to parent"

def relink (root : Option DwindleNodeId) (nodes : DwindleArena F) (parent : Option DwindleNodeId)
    (old new : DwindleNodeId) : Run Empty (Option DwindleNodeId × DwindleArena F) :=
  match parent with
  | some parent => do
    let nodes ← replaceChild nodes parent old new
    .ok (root, nodes)
  | none => .ok (some new, nodes)

def firstLeafFrom (nodes : DwindleArena F) :
    ℕ → DwindleNodeId → Run Empty (Option WindowId)
  | 0, _ => Run.diverge
  | fuel + 1, current =>
    match nodes.get current with
    | none => .ok none
    | some node =>
      match node.kind with
      | .leaf window => .ok (some window)
      | .split _ _ first _ => firstLeafFrom nodes fuel first

def pointerPrefersFirst (pointer : Option LayoutPoint) (rect : LayoutRect) (axis : SplitAxis) :
    Option Bool := do
  let pointer ← pointer
  if pointer.x.val < rect.x.val || rect.right.val ≤ pointer.x.val ||
      pointer.y.val < rect.y.val || rect.bottom.val ≤ pointer.y.val then none
  else
    match axis with
    | .horizontal => some (decide (pointer.x.val < (I32.sat (rect.x.val + rect.width.val / 2)).val))
    | .vertical => some (decide (pointer.y.val < (I32.sat (rect.y.val + rect.height.val / 2)).val))

namespace DwindleTree

def empty : DwindleTree F := ⟨none, Arena.empty, ∅, [], 0⟩

variable (t : DwindleTree F)

def len : ℕ := t.byWindow.len

def containsWindow (window : WindowId) : Bool := decide (window ∈ t.byWindow)

def leafForWindow (window : WindowId) : Option DwindleNodeId :=
  t.byWindow.lookup window

def nodeKind (id : DwindleNodeId) : Option (DwindleNodeKind F) :=
  (t.nodes.get id).map DwindleNode.kind

def parentOf (id : DwindleNodeId) : Option (Option DwindleNodeId) :=
  (t.nodes.get id).map DwindleNode.parent

def windows : List WindowId := t.insertionOrder

def leaves : List (WindowId × DwindleNodeId) :=
  t.insertionOrder.filterMap fun window => (t.byWindow.lookup window).map fun id => (window, id)

def nextGeneration : ℕ := min (t.topologyGeneration + 1) 18446744073709551615

def firstLeafWindow : Run Empty (Option WindowId) :=
  match t.root with
  | none => .ok none
  | some root => firstLeafFrom t.nodes (t.nodes.slots.length + 1) root

def setSplitRatio (id : DwindleNodeId) (ratio : F) :
    Except DwindleTreeError Unit × DwindleTree F :=
  match SplitRatio.new ratio with
  | none => (.error .invalidRatio, t)
  | some ratio =>
    match t.nodes.get id with
    | none => (.error .unknownNode, t)
    | some node =>
      match node.kind with
      | .leaf _ => (.error .nodeIsNotSplit, t)
      | .split axis _ first second =>
        (.ok (), { t with
          nodes := t.nodes.set id { node with kind := .split axis ratio first second } })

def anchorWindow (hint : InsertHint) : Run Empty (Option WindowId) :=
  match hint.focused.filter t.containsWindow with
  | some window => .ok (some window)
  | none =>
    match hint.fallback.filter t.containsWindow with
    | some window => .ok (some window)
    | none => t.firstLeafWindow

def insertPlacement (hint : InsertHint) : SplitAxis × Bool :=
  let anchorRect := hint.anchorRect.getD ⟨⟨0, I32.zero_mem⟩, ⟨0, I32.zero_mem⟩, ⟨1, U32.one_mem⟩,
    ⟨1, U32.one_mem⟩, Nat.one_pos, Nat.one_pos⟩
  let axis := if anchorRect.height.val ≤ anchorRect.width.val then .horizontal else .vertical
  (axis, (pointerPrefersFirst hint.pointer anchorRect axis).getD false)

def insert (window : WindowId) (hint : InsertHint) :
    Run Empty (Except DwindleTreeError DwindleNodeId × DwindleTree F) :=
  if t.containsWindow window then .ok (.error (.duplicateWindow window), t)
  else do
    let (leaf, nodes) ← t.nodes.insert "Dwindle arena exhausted" ⟨none, .leaf window⟩
    let t := { t with nodes := nodes }
    match t.root with
    | none =>
      .ok (.ok leaf, { t with
        root := some leaf
        byWindow := t.byWindow.insert window leaf
        insertionOrder := t.insertionOrder ++ [window]
        topologyGeneration := t.nextGeneration })
    | some _ =>
      let anchorWindow ← t.anchorWindow hint
      let anchorWindow ← Run.expect "non-empty tree has an anchor leaf" anchorWindow
      let anchor ← Run.expect "anchor window has a leaf" (t.byWindow.lookup anchorWindow)
      let anchorNode ← Run.expect "anchor leaf is live" (nodes.get anchor)
      let parent := anchorNode.parent
      let (axis, newFirst) := insertPlacement hint
      let (first, second) := if newFirst then (leaf, anchor) else (anchor, leaf)
      let (split, nodes) ← nodes.insert "Dwindle arena exhausted"
        ⟨parent, .split axis SplitRatio.default first second⟩
      let nodes ← setParent "new split first child is live" nodes first (some split)
      let nodes ← setParent "new split second child is live" nodes second (some split)
      let (root, nodes) ← relink t.root nodes parent anchor split
      .ok (.ok leaf, { t with
        root := root
        nodes := nodes
        byWindow := t.byWindow.insert window leaf
        insertionOrder := t.insertionOrder ++ [window]
        topologyGeneration := t.nextGeneration })

def remove (window : WindowId) :
    Run Empty (Except DwindleTreeError Unit × DwindleTree F) :=
  match t.byWindow.lookup window with
  | none => .ok (.error (.unknownWindow window), t)
  | some leaf => do
    let leafNode ← Run.expect "window map points at a live leaf" (t.nodes.get leaf)
    let t := { t with
      byWindow := t.byWindow.erase window
      insertionOrder := t.insertionOrder.filter fun candidate => candidate ≠ window }
    match leafNode.parent with
    | none =>
      let (_, nodes) ← Run.expect "root leaf is live" (t.nodes.remove leaf)
      .ok (.ok (), { t with
        root := none, nodes := nodes, topologyGeneration := t.nextGeneration })
    | some parent =>
      let parentNode ← Run.expect "leaf parent is live" (t.nodes.get parent)
      match parentNode.kind with
      | .leaf _ =>
        Run.panic "internal error: entered unreachable code: leaf parent cannot be a leaf"
      | .split _ _ first second =>
        let sibling := if first = leaf then second else first
        let grandparent := parentNode.parent
        let (_, nodes) ← Run.expect "leaf is live" (t.nodes.remove leaf)
        let (_, nodes) ← Run.expect "split parent is live" (nodes.remove parent)
        let nodes ← setParent "sibling is live" nodes sibling grandparent
        let (root, nodes) ← relink t.root nodes grandparent parent sibling
        .ok (.ok (), { t with
          root := root, nodes := nodes, topologyGeneration := t.nextGeneration })

end DwindleTree
end Typhon.Layout
