import PromTree.Expr.Codec
import PromTree.Json.Reader
import PromTree.Session.Basic
import PromTree.Tree.Order

/-!
Sessions as they are shared. Node numbers mean nothing elsewhere, so a selection is shared as a
position in the order in which a tree is shown.
-/

namespace PromTree

structure SharedPane where
  text : String
  stale : Bool
  expr : Expr

structure SharedSelection where
  pane : Nat
  position : Nat
  deriving DecidableEq

structure SharedState where
  version : UInt64
  settings : ServerSettings
  panes : List SharedPane
  selection : Option SharedSelection
  visualizer : Visualizer

namespace SharedPane

def toJson (p : SharedPane) : Json :=
  .ofFields [("expr", .string p.text), ("exprStale", .bool p.stale), ("ast", p.expr.toJson)]

def ofJson? (j : Json) : Option SharedPane := do
  let fields ← j.record? ["expr", "exprStale", "ast"]
  let text ← (Json.field fields "expr").string?
  let stale ← (Json.field fields "exprStale").bool?
  let expr ← Expr.ofJson? (Json.field fields "ast")
  some ⟨text, stale, expr⟩

end SharedPane

namespace SharedSelection

def toJson (s : SharedSelection) : Json :=
  .ofFields [("queryID", .ofNat s.pane), ("nodeIdx", .ofNat s.position)]

def ofJson? (j : Json) : Option SharedSelection := do
  let fields ← j.record? ["queryID", "nodeIdx"]
  some ⟨← (Json.field fields "queryID").nat?, ← (Json.field fields "nodeIdx").nat?⟩

end SharedSelection

inductive ShareError where
  | malformed
  | missingVersion
  | unsupportedVersion (version : UInt64)
  | missingServerUrl
  | invalidExpr (pane : Nat) (defect : Expr.Defect)
  | invalidSelection (selection : SharedSelection)
  deriving DecidableEq

namespace ShareError

def message : ShareError → String
  | .malformed => "invalid exported state"
  | .missingVersion => "exported state has no version"
  | .unsupportedVersion version =>
    "unsupported exported state version " ++ Nat.repr version.toNat
  | .missingServerUrl => "version 1 state has no serverURL"
  | .invalidExpr pane defect =>
    "query " ++ Nat.repr pane ++ " has an invalid expression tree: " ++ defect.message
  | .invalidSelection s =>
    "selected node " ++ Nat.repr s.position ++ " in query " ++ Nat.repr s.pane ++
      " does not exist"

end ShareError

namespace SharedState

def currentVersion : UInt64 := 3

def toJson (s : SharedState) : Json :=
  .ofFields [("version", .ofNat s.version.toNat), ("serverSettings", s.settings.toJson),
    ("queries", .ofList SharedPane.toJson s.panes),
    ("selectedNodeIdx", .ofOption SharedSelection.toJson s.selection),
    ("nodeVisualizer", s.visualizer.toJson)]

def ofJson? (j : Json) : Option SharedState := do
  let fields ← j.record?
    ["version", "serverSettings", "queries", "selectedNodeIdx", "nodeVisualizer"]
  let version ← (Json.field fields "version").uint64?
  let settings ← ServerSettings.ofJson? (Json.field fields "serverSettings")
  let panes ← (Json.field fields "queries").list? SharedPane.ofJson?
  let selection ← Json.nullable SharedSelection.ofJson? (Json.field fields "selectedNodeIdx")
  let visualizer ← Visualizer.ofJson? (Json.field fields "nodeVisualizer")
  some ⟨version, settings, panes, selection, visualizer⟩

def hasTime (fields : List (String × Json)) : Bool :=
  match fields.lookup "type" with
  | some (.string type) => ["vectorSelector", "matrixSelector", "subquery"].contains type
  | _ => false

def clearTime (fields : List (String × Json)) : List (String × Json) :=
  if hasTime fields then
    Json.insertField "startOrEnd" .null (Json.insertField "timestamp" .null fields)
  else fields

mutual

def clearTimes : Json → Json
  | .object fields => .object (clearTime (clearTimesFields fields))
  | .array items => .array (clearTimesItems items)
  | j => j

def clearTimesItems : List Json → List Json
  | [] => []
  | j :: items => clearTimes j :: clearTimesItems items

def clearTimesFields : List (String × Json) → List (String × Json)
  | [] => []
  | (name, j) :: fields => (name, clearTimes j) :: clearTimesFields fields

end

def modifyField (name : String) (f : Json → Json) : Json → Json
  | .object fields => .object (fields.map fun e => if e.1 = name then (e.1, f e.2) else e)
  | j => j

def mapItems (f : Json → Json) : Json → Json
  | .array items => .array (items.map f)
  | j => j

def clearPaneTimes (j : Json) : Json :=
  modifyField "queries" (mapItems (modifyField "ast" clearTimes)) j

def addSettings (j : Json) : Except ShareError Json :=
  match j, j.getField "serverURL" with
  | .object fields, .string url =>
    .ok (.object (Json.insertField "serverSettings" (ServerSettings.ofUrl url).toJson fields))
  | _, _ => .error .missingServerUrl

def upgrade (j : Json) : Except ShareError Json :=
  match (j.getField "version").uint64? with
  | none => .error .missingVersion
  | some 1 => (addSettings j).map clearPaneTimes
  | some 2 => .ok (clearPaneTimes j)
  | some 3 => .ok j
  | some version => .error (.unsupportedVersion version)

def exprError? (s : SharedState) : Option ShareError :=
  s.panes.zipIdx.findSome? fun p => p.1.expr.defect?.map (.invalidExpr p.2)

def selectionError? (s : SharedState) : Option ShareError :=
  match s.selection with
  | none => none
  | some selection =>
    if (s.panes[selection.pane]?).any fun p => selection.position < p.expr.size then none
    else some (.invalidSelection selection)

def check (s : SharedState) : Except ShareError SharedState :=
  match s.exprError?.or s.selectionError? with
  | some error => .error error
  | none => .ok s

def ofJson (j : Json) : Except ShareError SharedState := do
  match ofJson? (← upgrade j) with
  | some s => s.check
  | none => .error .malformed

def parse (text : String) : Except ShareError SharedState :=
  match Json.parse? text with
  | some j => ofJson j
  | none => .error .malformed

end SharedState

namespace Session

def sharedSelection? (s : Session) : Option SharedSelection := do
  let ref ← s.selection
  let p ← s.pane? ref.pane
  some ⟨ref.pane, ← p.tree.orderedIds.idxOf? ref.node⟩

def share (s : Session) : Except Tree.Fault SharedState := do
  let panes ← s.panes.mapM fun p => do .ok (SharedPane.mk p.text p.stale (← p.tree.expr))
  .ok ⟨SharedState.currentVersion, s.settings, panes, s.sharedSelection?, s.visualizer⟩

def panesFrom (next : NodeId) : List SharedPane → List Pane
  | [] => []
  | p :: panes =>
    ⟨p.text, p.stale, false, .ofExpr next p.expr⟩ :: panesFrom (next + p.expr.size) panes

def sharedPanes (shared : SharedState) : List SharedPane :=
  if shared.panes.isEmpty then [⟨"", false, .empty⟩] else shared.panes

def selectionIn? (panes : List Pane) (selection : SharedSelection) : Option NodeRef := do
  let p ← panes[selection.pane]?
  some ⟨selection.pane, ← p.tree.orderedIds[selection.position]?⟩

def load (s : Session) (shared : SharedState) : Session :=
  let panes := panesFrom s.nextId (sharedPanes shared)
  { settings := shared.settings
    panes
    past := []
    future := []
    selection := shared.selection.bind (selectionIn? panes)
    clipboard := none
    visualizer := shared.visualizer
    nextId := (sharedPanes shared).foldl (fun next p => next + p.expr.size) s.nextId }

end Session

end PromTree
