import PromTree.Session.History
import PromTree.Session.Selection
import PromTree.Session.Share

namespace PromTree

inductive Action where
  | edit (e : Edit)
  | undo
  | redo
  | load (shared : SharedState)
  | setSettings (settings : ServerSettings)
  | showExplorer (pane : Nat) (shows : Bool)
  | setQueryState (ref : NodeRef) (fingerprint : String) (state : QueryState)
  | setVisualizer (visualizer : Visualizer)
  | copy (ref : NodeRef)
  | select (ref : NodeRef)
  | deselect
  | selectRoot
  | selectNeighbour (direction : Direction)
  | selectPaneBeside (direction : Direction)

namespace Action

def isRecorded : Action → Bool
  | .edit _ => true
  | _ => false

end Action

namespace Session

/-- Takes down what became of the query for a node, unless the node has changed since its fingerprint
was taken. -/
def setQueryState (s : Session) (ref : NodeRef) (fingerprint : String) (state : QueryState) :
    Session :=
  if s.fingerprint? ref = some fingerprint then
    s.modifyPane ref.pane fun p => { p with tree := p.tree.setQueryState ref.node state }
  else s

def copy (s : Session) (ref : NodeRef) : Session :=
  match s.exprAt? ref with
  | some e => { s with clipboard := some e }
  | none => s

def dispatch (s : Session) : Action → Session
  | .edit e => s.record e
  | .undo => s.undo
  | .redo => s.redo
  | .load shared => s.load shared
  | .setSettings settings => { s with settings }
  | .showExplorer pane shows => s.modifyPane pane fun p => { p with showsExplorer := shows }
  | .setQueryState ref fingerprint state => s.setQueryState ref fingerprint state
  | .setVisualizer visualizer => { s with visualizer }
  | .copy ref => s.copy ref
  | .select ref => s.select ref
  | .deselect => { s with selection := none }
  | .selectRoot => s.selectRoot
  | .selectNeighbour direction => s.selectNeighbour direction
  | .selectPaneBeside direction => s.selectPaneBeside direction

def run (s : Session) (actions : List Action) : Session := actions.foldl dispatch s

end Session

end PromTree
