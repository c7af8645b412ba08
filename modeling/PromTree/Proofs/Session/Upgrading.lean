import Mathlib
import PromTree.Proofs.Session.ClearedTimes
import PromTree.Proofs.Session.Codec

namespace PromTree.SharedState

open Json (Step Place)

variable {fields : List (String × Json)} {name : String} {f : Json → Json} {j part ast : Json}
  {pane : Nat} {s : Step} {place : Place} {v : UInt64}

def astPlace (pane : Nat) : Place := [.field "queries", .item pane, .field "ast"]

structure IsEarlier (v : UInt64) (j : Json) : Prop where
  ordered : j.IsOrdered
  version : (j.getField "version").uint64? = some v
  earlier : v = 1 ∨ v = 2
  url : v = 1 → ∃ url, j.at? [.field "serverURL"] = some (.string url)

inductive Sets (v : UInt64) (j : Json) : Place → Prop where
  | version : Sets v j [.field "version"]
  | settings (h : v = 1) : Sets v j [.field "serverSettings"]
  | time (pane : Nat) {ast : Json} (hast : j.at? (astPlace pane) = some ast) {place : Place}
    (htime : HoldsTime ast place) : Sets v j (astPlace pane ++ place)

/-- A document of an earlier version and the one of the third version that stands for it. -/
structure IsUpgrade (v : UInt64) (j j' : Json) : Prop where
  ordered : j'.IsOrdered
  version : j'.at? [.field "version"] = some (.ofNat 3)
  settings : v = 1 → ∀ url, j.at? [.field "serverURL"] = some (.string url) →
    j'.at? [.field "serverSettings"] = some (ServerSettings.toJson ⟨url, .direct, none, false⟩)
  times : ∀ pane ast place, j'.at? (astPlace pane) = some ast → HoldsTime ast place →
    ast.at? place = some .null
  others : ∀ place, (∀ p, p <+: place → ¬Sets v j p) → j'.headAt? place = j.headAt? place

theorem step?_insertField (s : Step) : (Json.object (Json.insertField name part fields)).step? s =
    if s = .field name then some part else (Json.object fields).step? s := by
  cases s with
  | item => simp [Json.step?]
  | field other => simp [Json.step?, Json.lookup_insertField]

theorem modifyField_object (name : String) (f : Json → Json) (fields : List (String × Json)) :
    modifyField name f (.object fields) =
      .object (fields.map fun e => (e.1, if e.1 = name then f e.2 else e.2)) := by
  rw [modifyField]
  congr 2
  funext e
  split <;> rfl

theorem step?_modifyField (s : Step) : (modifyField name f j).step? s =
    if s = .field name then (j.step? s).map f else j.step? s := by
  cases j with
  | object fields =>
    cases s with
    | item => simp [modifyField, Json.step?]
    | field other =>
      simp only [modifyField_object, Json.step?, Step.field.injEq]
      rw [Json.lookup_map fun n part => if n = name then f part else part]
      by_cases h : other = name
      · simp [h]
      · simp [h]
  | array items => cases s <;> simp [modifyField, Json.step?]
  | _ => simp [modifyField, Json.step?]

theorem head_modifyField (j : Json) : (modifyField name f j).head = j.head := by
  cases j <;> rfl

theorem step?_mapItems_item (index : Nat) :
    (mapItems f j).step? (.item index) = (j.step? (.item index)).map f := by
  cases j <;> simp [mapItems, Json.step?]

theorem step?_mapItems_field (name : String) :
    (mapItems f j).step? (.field name) = j.step? (.field name) := by
  cases j <;> rfl

theorem head_mapItems (j : Json) : (mapItems f j).head = j.head := by
  cases j <;> simp [mapItems, Json.head]

theorem headAt?_modifyField (h : ∀ part rest, place = .field name :: rest →
      j.step? (.field name) = some part → (f part).headAt? rest = part.headAt? rest) :
    (modifyField name f j).headAt? place = j.headAt? place := by
  cases place with
  | nil => exact congrArg some (head_modifyField j)
  | cons s rest =>
    rw [Json.headAt?_cons, Json.headAt?_cons, step?_modifyField]
    split
    · rename_i hs
      rw [hs, Option.bind_map]
      exact Option.bind_congr fun part hpart => h part rest (by rw [hs]) hpart
    · rfl

theorem headAt?_mapItems (h : ∀ index part rest, place = .item index :: rest →
      j.step? (.item index) = some part → (f part).headAt? rest = part.headAt? rest) :
    (mapItems f j).headAt? place = j.headAt? place := by
  cases place with
  | nil => exact congrArg some (head_mapItems j)
  | cons s rest =>
    rw [Json.headAt?_cons, Json.headAt?_cons]
    cases s with
    | field name => rw [step?_mapItems_field]
    | item index =>
      rw [step?_mapItems_item, Option.bind_map]
      exact Option.bind_congr fun part hpart => h index part rest rfl hpart

theorem at?_astPlace (j : Json) (pane : Nat) : j.at? (astPlace pane) =
    (j.step? (.field "queries")).bind fun panes =>
      (panes.step? (.item pane)).bind fun p => p.step? (.field "ast") := by
  simp [astPlace, Json.at?]

theorem headAt?_clearPaneTimes (h : ∀ pane ast rest, place = astPlace pane ++ rest →
      j.at? (astPlace pane) = some ast → ∀ p, p <+: rest → ¬HoldsTime ast p) :
    (clearPaneTimes j).headAt? place = j.headAt? place := by
  apply headAt?_modifyField
  rintro panes _ rfl hpanes
  apply headAt?_mapItems
  rintro pane p _ rfl hp
  apply headAt?_modifyField
  rintro ast rest rfl hast
  apply headAt?_clearTimes
  apply h pane ast rest rfl
  rw [at?_astPlace, hpanes, Option.bind_some, hp, Option.bind_some, hast]

theorem step?_clearPaneTimes (h : s ≠ .field "queries") :
    (clearPaneTimes j).step? s = j.step? s := by
  rw [clearPaneTimes, step?_modifyField, if_neg h]

theorem at?_clearPaneTimes (j : Json) (pane : Nat) :
    (clearPaneTimes j).at? (astPlace pane) = (j.at? (astPlace pane)).map clearTimes := by
  rw [at?_astPlace, at?_astPlace, clearPaneTimes, step?_modifyField, if_pos rfl]
  simp only [Option.bind_map, Option.map_bind, Function.comp_def, step?_mapItems_item,
    step?_modifyField, if_true]

theorem isOrdered_modifyField (h : j.IsOrdered) (hf : ∀ part, part.IsOrdered → (f part).IsOrdered) :
    (modifyField name f j).IsOrdered := by
  cases h with
  | object ascending hfields =>
    rw [modifyField_object]
    apply Json.isOrdered_map (fun n part => if n = name then f part else part) ascending
    intro e he
    split
    · exact hf e.2 (hfields e he)
    · exact hfields e he
  | array h => exact .array h
  | null | bool | number | string => constructor

theorem isOrdered_mapItems (h : j.IsOrdered) (hf : ∀ part, part.IsOrdered → (f part).IsOrdered) :
    (mapItems f j).IsOrdered := by
  cases h with
  | array h => exact .array (List.forall_mem_map.mpr fun part hpart => hf part (h part hpart))
  | object ascending hfields => exact .object ascending hfields
  | null | bool | number | string => constructor

theorem isOrdered_clearPaneTimes (h : j.IsOrdered) : (clearPaneTimes j).IsOrdered := by
  apply isOrdered_modifyField h
  intro panes hpanes
  apply isOrdered_mapItems hpanes
  intro p hp
  exact isOrdered_modifyField hp fun ast hast => isOrdered_clearTimes hast

theorem Sets.name_mem (h : Sets v j (place ++ [.field name])) :
    name ∈ "version" :: "serverSettings" :: timeFields := by
  generalize hp : place ++ [.field name] = p at h
  have hlast := congrArg List.getLast? hp
  rw [List.getLast?_concat] at hlast
  cases h with
  | version =>
    obtain rfl := Step.field.inj (Option.some.inj hlast)
    exact List.mem_cons_self
  | settings =>
    obtain rfl := Step.field.inj (Option.some.inj hlast)
    exact List.mem_cons_of_mem _ List.mem_cons_self
  | time pane hast htime =>
    cases htime with
    | mk above typed timed name_mem =>
      rw [← List.append_assoc, List.getLast?_concat] at hlast
      obtain rfl := Step.field.inj (Option.some.inj hlast)
      exact List.mem_cons_of_mem _ (List.mem_cons_of_mem _ name_mem)

theorem Sets.exists_value (hj : IsEarlier v j) (h : Sets v j place)
    (hfirst : ∀ p, p <+: place → Sets v j p → p = place) :
    ∃ value, ∀ j', IsUpgrade v j j' → j'.at? place = some value := by
  cases h with
  | version => exact ⟨_, fun j' h => h.version⟩
  | settings hv =>
    obtain ⟨url, hurl⟩ := hj.url hv
    exact ⟨_, fun j' h => h.settings hv url hurl⟩
  | time pane hast htime =>
    refine ⟨.null, fun j' h => ?_⟩
    cases htime with
    | @mk above type name typed timed name_mem =>
      -- nothing is set on the way to the type, which is therefore found again
      have hnot (p : Place) (hp : p <+: astPlace pane ++ above ++ [.field "type"]) :
          ¬Sets v j p := by
        intro hset
        rcases List.prefix_concat_iff.mp hp with rfl | hp
        · exact absurd hset.name_mem (by decide)
        · have heq := hfirst p (hp.trans ⟨_, List.append_assoc _ _ _⟩) hset
          have hlength := hp.length_le
          simp only [heq, List.length_append, List.length_singleton] at hlength
          omega
      have htype : j'.at? (astPlace pane ++ above ++ [.field "type"]) = some (.string type) := by
        rw [← Json.headAt?_eq_string_iff, h.others _ hnot, Json.headAt?_eq_string_iff,
          List.append_assoc, Json.at?_append, hast]
        exact typed
      rw [List.append_assoc, Json.at?_append] at htype
      obtain ⟨ast', hast', htyped⟩ := Option.bind_eq_some_iff.mp htype
      rw [Json.at?_append, hast']
      exact h.times pane ast' _ hast' (.mk above htyped timed name_mem)

theorem IsUpgrade.unique {j' j'' : Json} (hj : IsEarlier v j) (h' : IsUpgrade v j j')
    (h'' : IsUpgrade v j j'') : j' = j'' := by
  apply h'.ordered.ext h''.ordered
  intro place
  by_cases hset : ∃ p, p <+: place ∧ Sets v j p
  · obtain ⟨p, ⟨rest, hp⟩, hset, hfirst⟩ := Json.exists_first hset
    obtain ⟨value, hvalue⟩ := hset.exists_value hj hfirst
    rw [← hp, Json.headAt?, Json.headAt?, Json.at?_append, Json.at?_append, hvalue j' h',
      hvalue j'' h'']
  · simp only [not_exists, not_and] at hset
    rw [h'.others place hset, h''.others place hset]

theorem isOrdered_settings (s : ServerSettings) : s.toJson.IsOrdered := by
  apply Json.isOrdered_ofFields
  simp only [List.forall_mem_cons]
  refine ⟨.string _, .string _, ?_, .bool _, nofun⟩
  cases s.datasourceId with
  | none => exact .null
  | some id => exact .number _

theorem exists_withSettings (hj : IsEarlier v j) :
    ∃ fields, upgrade j = .ok (clearPaneTimes (.object fields)) ∧ (Json.object fields).IsOrdered ∧
      (v = 1 → ∀ url, j.at? [.field "serverURL"] = some (.string url) →
        fields.lookup "serverSettings" =
          some (ServerSettings.toJson ⟨url, .direct, none, false⟩)) ∧
      ∀ s, (v = 1 → s ≠ .field "serverSettings") → (Json.object fields).step? s = j.step? s := by
  obtain ⟨hordered, hversion, hv, hurl⟩ := hj
  cases j with
  | object fields =>
    rcases hv with rfl | rfl
    · obtain ⟨url, hurl⟩ := hurl rfl
      refine ⟨Json.insertField "serverSettings" (ServerSettings.ofUrl url).toJson fields, ?_, ?_,
        ?_, ?_⟩
      · have hget : (Json.object fields).getField "serverURL" = .string url := by
          rw [Json.getField_eq, ← Json.at?_singleton, hurl, Option.getD_some]
        simp only [upgrade, hversion, addSettings, hget, Except.map]
      · exact Json.isOrdered_insertField hordered (isOrdered_settings _) _
      · intro _ url' hurl'
        obtain rfl := Json.string.inj (Option.some.inj (hurl.symm.trans hurl'))
        rw [Json.lookup_insertField, if_pos rfl]
        rfl
      · intro s hs
        rw [step?_insertField, if_neg (hs rfl)]
    · refine ⟨fields, ?_, hordered, fun h => absurd h (by decide), fun s _ => rfl⟩
      simp only [upgrade, hversion]
  | _ => contradiction

theorem check_withVersion (s : SharedState) (v : UInt64) :
    ({ s with version := v } : SharedState).check =
      s.check.map fun s => { s with version := v } := by
  have herror : ({ s with version := v } : SharedState).exprError?.or
      ({ s with version := v } : SharedState).selectionError? =
        s.exprError?.or s.selectionError? := rfl
  rw [check, check, herror]
  cases s.exprError?.or s.selectionError? <;> rfl

theorem ofJson?_insertVersion (hversion : (Json.field fields "version").uint64? = some v) :
    ofJson? (.object fields) =
      (ofJson? (.object (Json.insertField "version" (.ofNat 3) fields))).map
        fun s => { s with version := v } := by
  have hfield (name : String) : Json.field (Json.insertField "version" (.ofNat 3) fields) name =
      if name = "version" then .ofNat 3 else Json.field fields name := by
    rw [Json.field, Json.lookup_insertField]
    split <;> rfl
  have hthree : (Json.ofNat 3).uint64? = some 3 := rfl
  simp [ofJson?, Json.record?, hfield, hversion, hthree, Option.map_bind]

theorem exists_isUpgrade (hj : IsEarlier v j) :
    ∃ j', IsUpgrade v j j' ∧ ofJson j = (ofJson j').map fun s => { s with version := v } := by
  obtain ⟨fields, hupgrade, hordered, hsettings, hsteps⟩ := exists_withSettings hj
  obtain ⟨cleared, hcleared⟩ : ∃ cleared, clearPaneTimes (.object fields) = .object cleared :=
    ⟨_, modifyField_object _ _ _⟩
  have hclearedOrdered := hcleared ▸ isOrdered_clearPaneTimes hordered
  have hother (s : Step) (hs : s ≠ .field "queries") :
      (Json.object cleared).step? s = (Json.object fields).step? s := by
    rw [← hcleared, step?_clearPaneTimes hs]
  have hobject (pane : Nat) : (Json.object fields).at? (astPlace pane) = j.at? (astPlace pane) := by
    rw [at?_astPlace, hsteps _ fun _ => by decide, ← at?_astPlace]
  refine ⟨.object (Json.insertField "version" (.ofNat 3) cleared), ⟨?_, ?_, ?_, ?_, ?_⟩, ?_⟩
  · exact Json.isOrdered_insertField hclearedOrdered (.number _) _
  · rw [Json.at?_singleton, step?_insertField, if_pos rfl]
  · intro hv url hurl
    rw [Json.at?_singleton, step?_insertField, if_neg (by decide), hother _ (by decide)]
    exact hsettings hv url hurl
  · intro pane ast place hast htime
    rw [at?_astPlace, step?_insertField, if_neg (by decide), ← at?_astPlace, ← hcleared,
      at?_clearPaneTimes, Option.map_eq_some_iff] at hast
    obtain ⟨ast, -, rfl⟩ := hast
    exact at?_of_holdsTime_clearTimes htime
  -- where nothing is set, the first step leads neither to the version nor to settings that are new
  · intro place hplace
    cases place with
    | nil =>
      have hversion := hj.version
      cases j with
      | object => rfl
      | _ => contradiction
    | cons s rest =>
      have hnotVersion : s ≠ .field "version" := by
        rintro rfl
        exact hplace _ ⟨rest, rfl⟩ .version
      have hnotSettings (hv : v = 1) : s ≠ .field "serverSettings" := by
        rintro rfl
        exact hplace _ ⟨rest, rfl⟩ (.settings hv)
      rw [Json.headAt?_cons, step?_insertField, if_neg hnotVersion, ← Json.headAt?_cons, ← hcleared,
        headAt?_clearPaneTimes, Json.headAt?_cons, hsteps s hnotSettings, ← Json.headAt?_cons]
      intro pane ast below hbelow hast p hp htime
      apply hplace (astPlace pane ++ p)
      · rw [hbelow]
        exact (List.prefix_append_right_inj _).mpr hp
      · exact .time pane (hobject pane ▸ hast) htime
  · have hthird : upgrade (.object (Json.insertField "version" (.ofNat 3) cleared)) =
        .ok (.object (Json.insertField "version" (.ofNat 3) cleared)) := by
      rw [upgrade, Json.getField, Json.field, Json.lookup_insertField, if_pos rfl]
      rfl
    have hcurrent : (Json.field cleared "version").uint64? = some v := by
      rw [← hj.version, Json.getField_eq, ← hsteps _ fun _ => by decide, ← hother _ (by decide)]
      rfl
    rw [ofJson, hupgrade, hcleared, ofJson, hthird]
    simp only [bind, Except.bind]
    rw [ofJson?_insertVersion hcurrent]
    cases ofJson? (.object (Json.insertField "version" (.ofNat 3) cleared)) with
    | none => rfl
    | some s => exact check_withVersion s v

theorem ofJson?_ast {state : SharedState} (h : ofJson? j = some state) {p : SharedPane}
    (hp : state.panes[pane]? = some p) (hast : j.at? (astPlace pane) = some ast) :
    Expr.ofJson? ast = some p.expr := by
  rw [at?_astPlace] at hast
  obtain ⟨panes, hpanes, hast⟩ := Option.bind_eq_some_iff.mp hast
  obtain ⟨item, hitem, hast⟩ := Option.bind_eq_some_iff.mp hast
  cases j with
  | object fields =>
    obtain ⟨hread, -⟩ := fields_of_ofJson?_object h
    rw [Json.field, show fields.lookup "queries" = some panes from hpanes,
      Option.getD_some] at hread
    cases panes with
    | array items =>
      obtain ⟨hi, rfl⟩ := List.getElem?_eq_some_iff.mp (show items[pane]? = some item from hitem)
      obtain ⟨hi', rfl⟩ := List.getElem?_eq_some_iff.mp hp
      have hpane : SharedPane.ofJson? items[pane] = some state.panes[pane] :=
        (Json.forall₂_of_mapM hread).get hi hi'
      generalize items[pane] = item at hast hpane
      cases item with
      | object fields =>
        simp only [SharedPane.ofJson?, Json.record?, Option.bind_eq_bind, Option.bind_some,
          Option.bind_eq_some_iff, Json.field] at hpane
        obtain ⟨text, -, stale, -, expr, hexpr, hpane⟩ := hpane
        rw [show fields.lookup "ast" = some ast from hast, Option.getD_some] at hexpr
        rw [← Option.some.inj hpane]
        exact hexpr
      | _ => contradiction
    | _ => contradiction
  | _ => contradiction

theorem isTimeless_of_ofJson {state : SharedState} (hj : IsEarlier v j)
    (h : ofJson j = .ok state) {p : SharedPane} (hp : state.panes[pane]? = some p)
    (hast : j.at? (astPlace pane) = some ast) (hnames : Expr.IsByName ast) :
    p.expr.IsTimeless := by
  obtain ⟨fields, hupgrade, -, -, hsteps⟩ := exists_withSettings hj
  have hcleared :
      (clearPaneTimes (.object fields)).at? (astPlace pane) = some (clearTimes ast) := by
    rw [at?_clearPaneTimes, at?_astPlace, hsteps _ fun _ => by decide, ← at?_astPlace, hast]
    rfl
  rw [ofJson, hupgrade] at h
  simp only [bind, Except.bind] at h
  split at h
  · rename_i s hread
    rw [check] at h
    split at h
    · contradiction
    · obtain rfl := Except.ok.inj h
      exact Expr.isTimeless_of_isByName hnames (ofJson?_ast hread hp hcleared)
  · contradiction

/-- A text of an earlier version is read as its upgrade is, but for the version. Where its
expressions are written by name, they have no fixed times. -/
theorem parse_eq_upgraded {text : String} (hj : Json.parse? text = some j)
    (hversion : (j.getField "version").uint64? = some v) (hv : v = 1 ∨ v = 2)
    (hurl : v = 1 → ∃ url, j.at? [.field "serverURL"] = some (.string url)) :
    (∃! j', IsUpgrade v j j') ∧
    (∀ j', IsUpgrade v j j' → parse text = (ofJson j').map fun s => { s with version := v }) ∧
    ∀ state, parse text = .ok state → ∀ pane p ast, state.panes[pane]? = some p →
      j.at? (astPlace pane) = some ast → Expr.IsByName ast → p.expr.IsTimeless := by
  have hearlier : IsEarlier v j := ⟨Json.isOrdered_of_parse? hj, hversion, hv, hurl⟩
  have hparse : parse text = ofJson j := by rw [parse, hj]
  obtain ⟨j', hupgrade, hread⟩ := exists_isUpgrade hearlier
  refine ⟨⟨j', hupgrade, fun j'' h => h.unique hearlier hupgrade⟩, fun j'' h => ?_, ?_⟩
  · rw [hparse, hread, hupgrade.unique hearlier h]
  · intro state hstate pane p ast hp hast hnames
    exact isTimeless_of_ofJson hearlier (hparse ▸ hstate) hp hast hnames

set_option maxRecDepth 20000 in
theorem parse_eq_upgraded_selector :
    let text := "\x7b\"version\":1,\"serverURL\":\"\",\"queries\":[\x7b" ++
      "\"expr\":\"\",\"exprStale\":false,\"ast\":\x7b" ++
      "\"type\":\"vectorSelector\",\"name\":\"up\"," ++
      "\"matchers\":[],\"offset\":0,\"timestamp\":5\x7d\x7d]," ++
      "\"nodeVisualizer\":[\"table\",null,1,null,false]\x7d"
    let selector : Json := .object [("matchers", .array []), ("name", .string "up"),
      ("offset", .ofInt 0), ("timestamp", .ofInt 5), ("type", .string "vectorSelector")]
    let j : Json := .object [
      ("nodeVisualizer", .array [.string "table", .null, .ofNat 1, .null, .bool false]),
      ("queries", .array [.object [("ast", selector), ("expr", .string ""),
        ("exprStale", .bool false)]]),
      ("serverURL", .string ""), ("version", .ofNat 1)]
    let p : SharedPane := ⟨"", false, .vectorSelector ⟨"up", [], .zero⟩⟩
    Json.parse? text = some j ∧ (∃! j', IsUpgrade 1 j j') ∧
      parse text = .ok ⟨1, .ofUrl "", [p], none, ⟨.table, none, 1, none, false⟩⟩ ∧
      p.expr.IsTimeless := by
  intro text selector j p
  have hj : Json.parse? text = some j := by
    -- a text is taken apart more quickly in pieces
    simp only [text, Json.parse?, String.toList_append]
    cbv
  have hread : parse text = .ok ⟨1, .ofUrl "", [p], none, ⟨.table, none, 1, none, false⟩⟩ := by
    rw [parse, hj]
    dsimp only [j, selector, p]
    cbv
  have hnames : Expr.IsByName selector := by
    refine .object ⟨_, rfl⟩ ?_ ?_
    · simp [Expr.nodeFields, List.lookup]
    · simp [Expr.listFields, List.lookup]
  obtain ⟨hunique, -, htimeless⟩ := parse_eq_upgraded hj rfl (.inl rfl) fun _ => ⟨"", rfl⟩
  exact ⟨hj, hunique, hread, htimeless _ hread 0 p selector rfl rfl hnames⟩

/-- A pane that is written by position keeps the times of its expression. So does a selector in
parentheses whose type is given by number. -/
theorem ofJson_of_positional_pane :
    let selector (type : Json) : Json := .object [("matchers", .array []), ("name", .string "up"),
      ("offset", .ofInt 0), ("timestamp", .ofInt 5), ("type", type)]
    let document (pane : Json) : Json := .object [
      ("nodeVisualizer", .array [.string "table", .null, .ofNat 1, .null, .bool false]),
      ("queries", .array [pane]),
      ("serverSettings", .array [.string "", .string "direct", .null, .bool false]),
      ("version", .ofNat 2)]
    let paren : Json := .object [("expr", selector (.ofNat 9)), ("type", .string "parenExpr")]
    let keepsTimes (pane : Json) : Prop := ∃ state p,
      ofJson (document pane) = .ok state ∧ state.panes[0]? = some p ∧ ¬p.expr.IsTimeless
    keepsTimes (.array [.string "up", .bool false, selector (.string "vectorSelector")]) ∧
      keepsTimes
        (.object [("ast", paren), ("expr", .string "(up)"), ("exprStale", .bool false)]) := by
  intro selector document paren keepsTimes
  let e : Expr := .vectorSelector ⟨"up", [], ⟨0, some 5, none⟩⟩
  have he : ¬e.IsTimeless := fun h => absurd (h.own _ rfl).1 nofun
  constructor
  · let p : SharedPane := ⟨"up", false, e⟩
    exact ⟨⟨2, .ofUrl "", [p], none, ⟨.table, none, 1, none, false⟩⟩, p, rfl, rfl, he⟩
  · let p : SharedPane := ⟨"(up)", false, .paren e⟩
    refine ⟨⟨2, .ofUrl "", [p], none, ⟨.table, none, 1, none, false⟩⟩, p, rfl, rfl, fun h => he ?_⟩
    exact h.of_mem List.mem_cons_self

end PromTree.SharedState
