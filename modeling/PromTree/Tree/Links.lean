import PromTree.Tree.Order

namespace PromTree

namespace Tree

inductive LinkError where
  | missingRoot (id : NodeId)
  | rootHasParent (id : NodeId)
  | danglingChild (parent child : NodeId)
  | parentMismatch (child listed : NodeId) (actual : Option NodeId)
  | unreachable (id : NodeId)
  deriving DecidableEq

def LinkError.message : LinkError → String
  | .missingRoot id => "root node " ++ Nat.repr id ++ " is missing"
  | .rootHasParent id => "root node " ++ Nat.repr id ++ " has a parent"
  | .danglingChild parent child =>
    "node " ++ Nat.repr parent ++ " references missing child " ++ Nat.repr child
  | .parentMismatch child listed actual =>
    "node " ++ Nat.repr child ++ " is listed under " ++ Nat.repr listed ++ " but its parent is " ++
      actual.elim "None" fun id => "Some(" ++ Nat.repr id ++ ")"
  | .unreachable id => "node " ++ Nat.repr id ++ " is not reachable from the root"

def childError? (t : Tree) (parent child : NodeId) : Option LinkError :=
  match t.find? child with
  | none => some (.danglingChild parent child)
  | some n => if n.parent = some parent then none else some (.parentMismatch child parent n.parent)

def childrenError? (t : Tree) : Option LinkError :=
  t.nodes.toList.findSome? fun e => e.2.children.findSome? (t.childError? e.2.id)

/-- The first node that a walk from the root misses, unless the walk is as long as the nodes are
many. -/
def unreachable? (t : Tree) : Option LinkError :=
  let reached := t.subtreeIds t.root
  if reached.length = t.nodes.size then none
  else (t.nodes.keys.find? fun id => !reached.contains id).map .unreachable

def linkError? (t : Tree) : Option LinkError :=
  match t.find? t.root with
  | none => some (.missingRoot t.root)
  | some n =>
    if n.parent.isSome then some (.rootHasParent t.root)
    else t.childrenError?.or t.unreachable?

end Tree

end PromTree
