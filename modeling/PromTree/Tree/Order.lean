import PromTree.Tree.Basic

namespace PromTree

namespace Tree

def orderedWithin (t : Tree) : Nat → NodeId → List NodeId
  | 0, _ => []
  | fuel + 1, id =>
    match t.find? id with
    | none => []
    | some ⟨_, _, [lhs, rhs], .binary .., _, _⟩ =>
      t.orderedWithin fuel lhs ++ id :: t.orderedWithin fuel rhs
    | some n => id :: n.children.flatMap (t.orderedWithin fuel)

/-- All nodes in the order in which they are shown: an operator between its operands, and any other
node before its children. -/
def orderedIds (t : Tree) : List NodeId := t.orderedWithin (t.nodes.size + 1) t.root

def subtreeWithin (t : Tree) : Nat → NodeId → List NodeId
  | 0, _ => []
  | fuel + 1, id =>
    match t.find? id with
    | none => []
    | some n => id :: n.children.flatMap (t.subtreeWithin fuel)

def subtreeIds (t : Tree) (id : NodeId) : List NodeId := t.subtreeWithin (t.nodes.size + 1) id

def climbsWithin (t : Tree) (ancestor : NodeId) : Nat → NodeId → Bool
  | 0, _ => false
  | fuel + 1, id =>
    id == ancestor || ((t.find? id).bind TreeNode.parent).any (t.climbsWithin ancestor fuel)

def isAncestorOrSelf (t : Tree) (ancestor id : NodeId) : Bool :=
  t.climbsWithin ancestor (t.nodes.size + 1) id

end Tree

end PromTree
