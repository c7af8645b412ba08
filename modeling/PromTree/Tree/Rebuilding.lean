import PromTree.Digest.Sha256
import PromTree.Expr.Printer
import PromTree.Tree.Basic

namespace PromTree

namespace Tree

inductive Fault where
  | missingNode (id : NodeId)
  | wrongArity (shape : Shape) (id : NodeId) (count expected : Nat)
  | cycle (id : NodeId)
  deriving DecidableEq

def Fault.message : Fault → String
  | .missingNode id => "tree has no node " ++ Nat.repr id
  | .wrongArity shape id count expected =>
    shape.typeName ++ " node " ++ Nat.repr id ++ " has " ++ Nat.repr count ++
      " children, expected " ++ Nat.repr expected
  | .cycle id => "node " ++ Nat.repr id ++ " lies below itself"

def assemble (id : NodeId) (shape : Shape) (children : List Expr) : Except Fault Expr :=
  match Expr.ofShape? shape children with
  | some e => .ok e
  | none => .error (.wrongArity shape id children.length (shape.arity?.getD children.length))

/-- The expression at a node that has fewer than `fuel` levels. Faults below a node come before its
own. -/
def exprWithin (t : Tree) : Nat → NodeId → Except Fault Expr
  | 0, id => .error (.cycle id)
  | fuel + 1, id =>
    match t.find? id with
    | none => .error (.missingNode id)
    | some n => do assemble n.id n.shape (← n.children.mapM (t.exprWithin fuel))

def exprAt (t : Tree) (id : NodeId) : Except Fault Expr := t.exprWithin (t.nodes.size + 1) id

def expr (t : Tree) : Except Fault Expr := t.exprAt t.root

def fingerprint (t : Tree) (id : NodeId) : Except Fault String := do
  .ok (Sha256.hexDigest (← t.exprAt id).text)

end Tree

end PromTree
