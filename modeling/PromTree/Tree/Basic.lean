import PromTree.Expr.Basic
import PromTree.Sample.QueryState

/-!
Expressions as flat trees: nodes under numbers, which know their parent and their children.
-/

namespace PromTree

/-- The number of a node. Numbers come from a counter of 64 bits, which only grows: a tree or a
session is the program's as long as its next number is below `2 ^ 64`. -/
abbrev NodeId := Nat

inductive EditMode where
  | none
  | text
  | form
  deriving DecidableEq

namespace EditMode

def all : List EditMode := [.none, .text, .form]

def name : EditMode → String
  | .none => "none"
  | .text => "text"
  | .form => "form"

end EditMode

structure TreeNode where
  id : NodeId
  parent : Option NodeId
  children : List NodeId
  shape : Shape
  queryState : QueryState
  editMode : EditMode
  deriving DecidableEq

/-- Nothing makes the links agree with each other; `linkError?` tells whether they do. -/
structure Tree where
  nodes : SortedMap NodeId TreeNode
  root : NodeId
  deriving DecidableEq

namespace Tree

def find? (t : Tree) (id : NodeId) : Option TreeNode := t.nodes.find? id

def contains (t : Tree) (id : NodeId) : Bool := t.nodes.contains id

def modify (t : Tree) (id : NodeId) (f : TreeNode → TreeNode) : Tree :=
  { t with nodes := t.nodes.modify id f }

def setParent (t : Tree) (id : NodeId) (parent : Option NodeId) : Tree :=
  t.modify id fun n => { n with parent }

def setChildren (t : Tree) (id : NodeId) (children : List NodeId) : Tree :=
  t.modify id fun n => { n with children }

def setEditMode (t : Tree) (id : NodeId) (editMode : EditMode) : Tree :=
  t.modify id fun n => { n with editMode }

def setQueryState (t : Tree) (id : NodeId) (queryState : QueryState) : Tree :=
  t.modify id fun n => { n with queryState }

def erase (t : Tree) (id : NodeId) : Tree := { t with nodes := t.nodes.erase id }

end Tree

end PromTree
