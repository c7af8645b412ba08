import PromTree.Server.Settings
import PromTree.Session.Visualizer
import PromTree.Tree.Edit
import PromTree.Tree.Rebuilding

/-!
An editing session: panes with an expression each, a selection, a clipboard, and the panes as they
were before earlier edits.
-/

namespace PromTree

structure NodeRef where
  pane : Nat
  node : NodeId
  deriving DecidableEq

structure Pane where
  text : String
  stale : Bool
  showsExplorer : Bool
  tree : Tree
  deriving DecidableEq

namespace Pane

def new (next : NodeId) (text : String) : Pane := ⟨text, false, false, .ofExpr next .empty⟩

end Pane

/-- The newest of the past comes first, and so does what comes next. -/
structure Session where
  settings : ServerSettings
  panes : List Pane
  past : List (List Pane)
  future : List (List Pane)
  selection : Option NodeRef
  clipboard : Option Expr
  visualizer : Visualizer
  nextId : NodeId

namespace Session

def firstId : NodeId := 1

def start : Session where
  settings := .default
  panes := [.new firstId ""]
  past := []
  future := []
  selection := some ⟨0, firstId⟩
  clipboard := none
  visualizer := .default
  nextId := firstId + Expr.empty.size

def pane? (s : Session) (pane : Nat) : Option Pane := s.panes[pane]?

def nodeExists (s : Session) (ref : NodeRef) : Bool :=
  (s.pane? ref.pane).any fun p => p.tree.contains ref.node

def exprAt? (s : Session) (ref : NodeRef) : Option Expr := do
  let p ← s.pane? ref.pane
  let _ ← p.tree.find? ref.node
  (p.tree.exprAt ref.node).toOption

def fingerprint? (s : Session) (ref : NodeRef) : Option String := do
  let p ← s.pane? ref.pane
  let _ ← p.tree.find? ref.node
  (p.tree.fingerprint ref.node).toOption

def modifyPane (s : Session) (pane : Nat) (f : Pane → Pane) : Session :=
  { s with panes := s.panes.modify pane f }

end Session

end PromTree
