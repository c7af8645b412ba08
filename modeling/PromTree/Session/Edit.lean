import PromTree.Session.Basic

namespace PromTree

inductive Edit where
  | setText (pane : Nat) (text : String)
  | setExpr (pane : Nat) (e : Expr)
  | setEditMode (ref : NodeRef) (mode : EditMode)
  | update (ref : NodeRef) (e : Expr)
  | delete (ref : NodeRef)
  | cut (ref : NodeRef)
  | paste (ref : NodeRef)
  | move (source target : NodeRef)
  | insertParent (ref : NodeRef)
  | addPane
  | insertPane (index : Nat) (text : String)
  | deletePane (pane : Nat)

namespace Session

def setText? (s : Session) (pane : Nat) (text : String) : Option Session := do
  let p ← s.pane? pane
  if p.text = text ∧ ¬p.stale then none
  else some (s.modifyPane pane fun p => { p with text, stale := false })

def setExpr? (s : Session) (pane : Nat) (e : Expr) : Option Session := do
  let _ ← s.pane? pane
  if ¬e.IsValid then none
  else
    let tree := Tree.ofExpr s.nextId e
    some { s.modifyPane pane fun p => { p with tree, stale := false } with
      selection := some ⟨pane, tree.root⟩, nextId := s.nextId + e.size }

def setEditMode? (s : Session) (ref : NodeRef) (mode : EditMode) : Option Session := do
  let p ← s.pane? ref.pane
  let n ← p.tree.find? ref.node
  if n.editMode = mode then none
  else some (s.modifyPane ref.pane fun p => { p with tree := p.tree.setEditMode ref.node mode })

def keepSelection (s : Session) (pane : Nat) (tree : Tree) : Option NodeRef :=
  s.selection.filter fun ref => ref.pane != pane || tree.contains ref.node

def replace? (s : Session) (ref : NodeRef) (e : Expr) : Option Session := do
  let p ← s.pane? ref.pane
  let tree ← p.tree.replaceSubtree? ref.node e s.nextId
  if ¬e.IsValid then none
  else
    some { s.modifyPane ref.pane fun p => { p with tree, stale := true } with
      selection := s.keepSelection ref.pane tree, nextId := s.nextId + e.size }

def selectionWithout (s : Session) (pane : Nat) : Option NodeRef :=
  match s.selection with
  | none => none
  | some ref =>
    if ref.pane = pane then none
    else if pane < ref.pane then some ⟨ref.pane - 1, ref.node⟩
    else some ref

def deletePane? (s : Session) (pane : Nat) : Option Session := do
  let _ ← s.pane? pane
  if s.panes.length = 1 then
    some { s with
      panes := [.new s.nextId ""], selection := none, nextId := s.nextId + Expr.empty.size }
  else some { s with panes := s.panes.eraseIdx pane, selection := s.selectionWithout pane }

def delete? (s : Session) (ref : NodeRef) : Option Session :=
  if 0 < ref.pane ∧ (s.pane? ref.pane).any (·.tree.root == ref.node) then s.deletePane? ref.pane
  else s.replace? ref .empty

def cut? (s : Session) (ref : NodeRef) : Option Session := do
  let e ← s.exprAt? ref
  { s with clipboard := some e }.delete? ref

def paste? (s : Session) (ref : NodeRef) : Option Session := do s.replace? ref (← s.clipboard)

def isWithin (s : Session) (source target : NodeRef) : Bool :=
  source == target || source.pane == target.pane &&
    (s.pane? source.pane).any fun p => p.tree.isAncestorOrSelf source.node target.node

/-- Puts the expression at `source` in the place of `target` and empties its own place, if that is
still there. -/
def move? (s : Session) (source target : NodeRef) : Option Session :=
  if s.isWithin source target then none
  else do
    let moved ← s.replace? target (← s.exprAt? source)
    some ((moved.replace? source .empty).getD moved)

def insertParent? (s : Session) (ref : NodeRef) : Option Session := do
  s.replace? ref (.placeholder [← s.exprAt? ref])

def addPane (s : Session) : Session :=
  let p := Pane.new s.nextId ""
  { s with
    panes := s.panes ++ [p], selection := some ⟨s.panes.length, p.tree.root⟩
    nextId := s.nextId + Expr.empty.size }

def insertPane (s : Session) (index : Nat) (text : String) : Session :=
  { s with
    panes := s.panes.insertIdx (min index s.panes.length) (.new s.nextId text), selection := none
    nextId := s.nextId + Expr.empty.size }

def edit? (s : Session) : Edit → Option Session
  | .setText pane text => s.setText? pane text
  | .setExpr pane e => s.setExpr? pane e
  | .setEditMode ref mode => s.setEditMode? ref mode
  | .update ref e => s.replace? ref e
  | .delete ref => s.delete? ref
  | .cut ref => s.cut? ref
  | .paste ref => s.paste? ref
  | .move source target => s.move? source target
  | .insertParent ref => s.insertParent? ref
  | .addPane => some s.addPane
  | .insertPane index text => some (s.insertPane index text)
  | .deletePane pane => s.deletePane? pane

end Session

end PromTree
