import PromTree.Session.Basic

namespace PromTree

inductive Direction where
  | next
  | previous
  deriving DecidableEq

def Direction.step (d : Direction) (index count : Nat) : Nat :=
  match d with
  | .next => (index + 1) % count
  | .previous => (index + count - 1) % count

namespace Session

def select (s : Session) (ref : NodeRef) : Session :=
  if s.nodeExists ref then { s with selection := some ref } else s

def selectRootOf (s : Session) (pane : Nat) : Session :=
  match s.pane? pane with
  | some p => { s with selection := some ⟨pane, p.tree.root⟩ }
  | none => s

def selectRoot (s : Session) : Session :=
  match s.selection with
  | none => s.selectRootOf 0
  | some ref =>
    if (s.pane? ref.pane).any (·.tree.root == ref.node) then { s with selection := none }
    else s.selectRootOf ref.pane

def neighbour? (d : Direction) (t : Tree) (id : NodeId) : Option NodeId := do
  let ids := t.orderedIds
  let index ← ids.idxOf? id
  ids[d.step index ids.length]?

def selectNeighbour (s : Session) (d : Direction) : Session :=
  match s.selection with
  | none => s.selectRootOf 0
  | some ref =>
    match (s.pane? ref.pane).bind fun p => neighbour? d p.tree ref.node with
    | some node => { s with selection := some ⟨ref.pane, node⟩ }
    | none => s

def selectPaneBeside (s : Session) (d : Direction) : Session :=
  match s.selection with
  | none => s.selectRootOf 0
  | some ref => s.selectRootOf (d.step ref.pane s.panes.length)

end Session

end PromTree
