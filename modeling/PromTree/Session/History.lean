import PromTree.Session.Edit

namespace PromTree.Session

def maxPast : Nat := 20

def record (s : Session) (e : Edit) : Session :=
  match s.edit? e with
  | none => s
  | some edited => { edited with past := (s.panes :: s.past).take maxPast, future := [] }

def undo (s : Session) : Session :=
  match s.past with
  | [] => s
  | panes :: past => { s with panes, past, future := s.panes :: s.future, selection := none }

def redo (s : Session) : Session :=
  match s.future with
  | [] => s
  | panes :: future => { s with panes, past := s.panes :: s.past, future, selection := none }

end PromTree.Session
