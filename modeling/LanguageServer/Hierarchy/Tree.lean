import LanguageServer.Hierarchy.Call

/-! Trees of calls, level by level. An item is expanded once, so a recursion ends the branch that
closes it. -/
namespace LanguageServer

inductive CallDirection where
  | incoming
  | outgoing
  deriving DecidableEq, Inhabited

structure CallNode where
  item : HierarchyItem
  /-- The place of the node it was reached from. -/
  parent : Option Nat
  depth : Nat
  sites : List Range
  /-- Expanded elsewhere in the tree. -/
  repeated : Bool
  deriving DecidableEq, Inhabited

/-- Nodes in the order of their discovery, the root first. -/
structure CallTree where
  nodes : List CallNode
  /-- Whether there was no room for more. -/
  truncated : Bool
  deriving DecidableEq, Inhabited

namespace CallTree

/-- The places of the nodes reached from a node. -/
def children (t : CallTree) (index : Nat) : List Nat :=
  (List.range t.nodes.length).filter fun i => t.nodes[i]?.any fun n => n.parent = some index

def maxDepth (t : CallTree) : Nat := t.nodes.foldl (fun d n => max d n.depth) 0

end CallTree

/-- A tree that grows: the items known, and the places of the nodes still to be expanded. -/
structure CallGrowth where
  tree : CallTree
  known : List HierarchyItem.Key
  frontier : List Nat
  asked : List Url
  deriving Inhabited

namespace CallGrowth

/-- Adds what was found below a node, as long as there is room. -/
def addCalls (limit parent depth : Nat) : List Call → CallGrowth → CallGrowth
  | [], g => g
  | c :: rest, g =>
    if limit ≤ g.tree.nodes.length then { g with tree := { g.tree with truncated := true } }
    else
      let repeated := g.known.contains c.item.key
      let node : CallNode := ⟨c.item, some parent, depth, c.sites, repeated⟩
      addCalls limit parent depth rest { g with
        tree := { g.tree with nodes := g.tree.nodes ++ [node] }
        known := if repeated then g.known else c.item.key :: g.known
        frontier := if repeated then g.frontier else g.frontier ++ [g.tree.nodes.length] }

/-- Expands the nodes of the frontier in turn, each once. -/
def grow (expand : HierarchyItem → Calls) (limit depth : Nat) : Nat → CallGrowth → CallGrowth
  | 0, g => g
  | steps + 1, g =>
    match g.frontier with
    | [] => g
    | index :: rest =>
      let g := { g with frontier := rest }
      match g.tree.nodes[index]? with
      | none => g
      | some node =>
        -- at the greatest depth a node is shown and not expanded
        if depth ≤ node.depth then grow expand limit depth steps g
        else
          let calls := expand node.item
          let g := addCalls limit index (node.depth + 1) calls.found
            { g with asked := calls.asked ++ g.asked }
          if g.tree.truncated then g else grow expand limit depth steps g

end CallGrowth

namespace Knowledge

/-- The calls from a root in one direction, and the documents whose imports were looked at. A tree
never has more nodes than items are allowed, so that many expansions are enough. -/
def callTree (k : Knowledge) (limits : HierarchyLimits) (direction : CallDirection) (depth : Nat)
    (root : HierarchyItem) : CallTree × List Url :=
  let expand (i : HierarchyItem) : Calls := match direction with
    | .incoming => k.incoming limits.items i
    | .outgoing => k.outgoing limits.items i
  let g := CallGrowth.grow expand limits.items (min depth limits.depth) (limits.items + 1)
    ⟨⟨[⟨root, none, 0, [], false⟩], false⟩, [root.key], [0], []⟩
  (g.tree, g.asked)

end Knowledge
end LanguageServer
