import PromTree.Tree.Basic

namespace PromTree

structure NumberedNodes where
  size : Nat
  entries : NodeId → Option NodeId → List (NodeId × TreeNode)

namespace NumberedNodes

def totalSize : List NumberedNodes → Nat
  | [] => 0
  | p :: parts => p.size + totalSize parts

def rootsFrom (first : NodeId) : List NumberedNodes → List NodeId
  | [] => []
  | p :: parts => (first + p.size - 1) :: rootsFrom (first + p.size) parts

def entriesFrom (first : NodeId) (parent : Option NodeId) :
    List NumberedNodes → List (NodeId × TreeNode)
  | [] => []
  | p :: parts => p.entries first parent ++ entriesFrom (first + p.size) parent parts

def ofShape (shape : Shape) (parts : List NumberedNodes) : NumberedNodes where
  size := totalSize parts + 1
  entries first parent :=
    let id := first + totalSize parts
    entriesFrom first (some id) parts ++
      [(id, ⟨id, parent, rootsFrom first parts, shape, .running, .none⟩)]

def ofExpr (e : Expr) : NumberedNodes := e.fold ofShape

end NumberedNodes

namespace Tree

def ofExpr (first : NodeId) (e : Expr) : Tree :=
  let nodes := NumberedNodes.ofExpr e
  ⟨.ofList (nodes.entries first none), first + nodes.size - 1⟩

end Tree

end PromTree
