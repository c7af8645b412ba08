import PromTree.Tree.Numbering
import PromTree.Tree.Order

namespace PromTree

namespace Tree

def rekeyRoot (t : Tree) (id : NodeId) : Tree :=
  if id = t.root then t
  else
    match t.find? t.root with
    | none => t
    | some n =>
      let others := n.children.foldl (fun t child => t.setParent child (some id)) (t.erase t.root)
      ⟨others.nodes.insert id { n with id }, id⟩

/-- Replaces the subtree at a node, if it is there, by an expression whose nodes take the numbers
from `next` on. The node keeps its place and its edit mode. -/
def replaceSubtree? (t : Tree) (id : NodeId) (e : Expr) (next : NodeId) : Option Tree := do
  let old ← t.find? id
  let added := ((ofExpr next e).rekeyRoot id).modify id fun n =>
    { n with parent := old.parent, editMode := old.editMode }
  let rest := (t.subtreeIds id).foldl erase t
  some ⟨rest.nodes.union added.nodes, t.root⟩

end Tree

end PromTree
