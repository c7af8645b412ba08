import PromTree.Proofs.Session.Rejection

namespace PromTree

namespace Tree

variable {t t' : Tree}

theorem exprWithin_succ (t : Tree) (fuel : Nat) (id : NodeId) :
    t.exprWithin (fuel + 1) id =
      match t.links? id with
      | none => .error (.missingNode id)
      | some l => l.children.mapM (t.exprWithin fuel) >>= assemble l.id l.shape := by
  rw [exprWithin, links?]
  cases t.find? id <;> rfl

theorem exprWithin_congr (hl : ∀ x, t'.links? x = t.links? x) (fuel : Nat) :
    t'.exprWithin fuel = t.exprWithin fuel := by
  induction fuel with
  | zero => rfl
  | succ fuel ih =>
    funext id
    rw [exprWithin_succ, exprWithin_succ, hl, ih]

theorem exprAt_setQueryState (t : Tree) (id : NodeId) (state : QueryState) :
    (t.setQueryState id state).exprAt = t.exprAt := by
  have hlinks (x : NodeId) : (t.setQueryState id state).links? x = t.links? x :=
    links?_modify t id x _ fun _ => rfl
  have hsize : (t.setQueryState id state).nodes.size = t.nodes.size := List.length_map _
  funext x
  rw [exprAt, exprAt, hsize, exprWithin_congr hlinks]

end Tree

def Pane.frame (p : Pane) : Pane := { p with tree := ⟨.empty, p.tree.root⟩ }

namespace Session

def node? (s : Session) (ref : NodeRef) : Option TreeNode :=
  (s.pane? ref.pane).bind fun p => p.tree.find? ref.node

def textAt? (s : Session) (ref : NodeRef) : Option String := (s.exprAt? ref).map Expr.text

def KeepsText (s later : Session) (ref : NodeRef) : Prop :=
  later.nodeExists ref ∧ later.textAt? ref = s.textAt? ref

structure Stores (s : Session) (ref : NodeRef) (state : QueryState) (s' : Session) : Prop where
  node : ∃ n, s.node? ref = some n ∧ s'.node? ref = some { n with queryState := state }
  others : ∀ other, other ≠ ref → s'.node? other = s.node? other
  exprs : ∀ other, s'.exprAt? other = s.exprAt? other
  frames : s'.panes.map Pane.frame = s.panes.map Pane.frame
  rest : { s' with panes := s.panes } = s

variable {s : Session} {ref : NodeRef} {fingerprint : String}

theorem exprAt?_eq (s : Session) (ref : NodeRef) :
    s.exprAt? ref = (s.pane? ref.pane).bind fun p =>
      if p.tree.contains ref.node then (p.tree.exprAt ref.node).toOption else none := by
  rw [exprAt?]
  refine Option.bind_congr fun p _ => ?_
  cases hn : p.tree.find? ref.node <;> simp [Tree.contains_iff, hn]

theorem fingerprint?_eq (s : Session) (ref : NodeRef) :
    s.fingerprint? ref = (s.textAt? ref).map Sha256.hexDigest := by
  simp only [fingerprint?, textAt?, exprAt?, Option.bind_eq_bind, Option.map_bind]
  refine Option.bind_congr fun p _ => ?_
  rw [Function.comp_apply, Function.comp_apply, Option.map_bind, Option.map_bind]
  refine Option.bind_congr fun n _ => ?_
  rw [Tree.fingerprint]
  cases p.tree.exprAt ref.node <;> rfl

theorem exists_node? (h : s.nodeExists ref) : ∃ n, s.node? ref = some n := by
  obtain ⟨p, hp, hc⟩ := (s.nodeExists_iff ref).mp h
  obtain ⟨n, hn⟩ := (p.tree.contains_iff ref.node).mp hc
  exact ⟨n, Option.bind_eq_some_iff.mpr ⟨p, hp, hn⟩⟩

def withQueryState (s : Session) (ref : NodeRef) (state : QueryState) : Session :=
  s.modifyPane ref.pane fun p => { p with tree := p.tree.setQueryState ref.node state }

theorem pane?_withQueryState (s : Session) (ref : NodeRef) (state : QueryState) (pane : Nat) :
    (s.withQueryState ref state).pane? pane = (s.pane? pane).map fun p =>
      if ref.pane = pane then { p with tree := p.tree.setQueryState ref.node state } else p := by
  rw [pane?, withQueryState, modifyPane, List.getElem?_modify]
  rfl

theorem node?_withQueryState_self (s : Session) (ref : NodeRef) (state : QueryState) :
    (s.withQueryState ref state).node? ref =
      (s.node? ref).map fun n => { n with queryState := state } := by
  rw [node?, node?, pane?_withQueryState]
  cases s.pane? ref.pane with
  | none => rfl
  | some p => simp [Tree.setQueryState, Tree.find?_modify]

theorem node?_withQueryState_of_ne {other : NodeRef} (h : other ≠ ref) (state : QueryState) :
    (s.withQueryState ref state).node? other = s.node? other := by
  rw [node?, node?, pane?_withQueryState]
  cases s.pane? other.pane with
  | none => rfl
  | some p =>
    by_cases hpane : ref.pane = other.pane
    · have hnode : other.node ≠ ref.node := fun hnode =>
        h (NodeRef.mk.injEq .. ▸ ⟨hpane.symm, hnode⟩)
      simp [hpane, hnode, Tree.setQueryState, Tree.find?_modify]
    · simp [hpane]

theorem exprAt?_withQueryState (s : Session) (ref other : NodeRef) (state : QueryState) :
    (s.withQueryState ref state).exprAt? other = s.exprAt? other := by
  rw [exprAt?_eq, exprAt?_eq, pane?_withQueryState, Option.bind_map]
  refine Option.bind_congr fun p _ => ?_
  by_cases hpane : ref.pane = other.pane
  · simp [hpane, Tree.contains_setQueryState, Tree.exprAt_setQueryState]
  · simp [hpane]

theorem frames_withQueryState (s : Session) (ref : NodeRef) (state : QueryState) :
    (s.withQueryState ref state).panes.map Pane.frame = s.panes.map Pane.frame := by
  apply List.ext_getElem?
  intro pane
  have hp := s.pane?_withQueryState ref state pane
  rw [pane?, pane?] at hp
  rw [List.getElem?_map, List.getElem?_map, hp, Option.map_map]
  refine Option.map_congr fun p _ => ?_
  rw [Function.comp_apply]
  split <;> rfl

theorem stores_withQueryState (h : s.nodeExists ref) (state : QueryState) :
    s.Stores ref state (s.withQueryState ref state) where
  node := by
    obtain ⟨n, hn⟩ := exists_node? h
    exact ⟨n, hn, by rw [node?_withQueryState_self, hn]; rfl⟩
  others := fun _ hne => node?_withQueryState_of_ne hne state
  exprs := fun other => s.exprAt?_withQueryState ref other state
  frames := s.frames_withQueryState ref state
  rest := rfl

theorem setQueryState_eq (s : Session) (ref : NodeRef) (fingerprint : String) (state : QueryState) :
    s.setQueryState ref fingerprint state =
      if s.fingerprint? ref = some fingerprint then s.withQueryState ref state else s := rfl

theorem fingerprint?_eq_iff {later : Session} {text : String} (htext : s.textAt? ref = some text)
    (hdistinct : ∀ now, later.textAt? ref = some now →
      Sha256.hexDigest now = Sha256.hexDigest text → now = text) :
    later.fingerprint? ref = some (Sha256.hexDigest text) ↔ s.KeepsText later ref := by
  rw [KeepsText, fingerprint?_eq, Option.map_eq_some_iff, htext]
  constructor
  · rintro ⟨now, hnow, hsame⟩
    obtain rfl := hdistinct now hnow hsame
    obtain ⟨e, he, -⟩ := Option.map_eq_some_iff.mp hnow
    exact ⟨nodeExists_of_exprAt? he, hnow⟩
  · exact fun hkept => ⟨text, hkept.2, rfl⟩

/-- What became of a query is kept just where the text that it was made for still stands. -/
theorem dispatch_setQueryState_after_run (h : s.Reachable) (href : s.nodeExists ref)
    (actions : List Action) (hdistinct : ∀ text now,
      s.textAt? ref = some text → (s.run actions).textAt? ref = some now →
        Sha256.hexDigest now = Sha256.hexDigest text → now = text) :
    ∃ fingerprint, s.fingerprint? ref = some fingerprint ∧ ∀ state,
      (s.KeepsText (s.run actions) ref →
        (s.run actions).Stores ref state
          ((s.run actions).dispatch (.setQueryState ref fingerprint state))) ∧
      (¬s.KeepsText (s.run actions) ref →
        (s.run actions).dispatch (.setQueryState ref fingerprint state) = s.run actions) := by
  obtain ⟨e, he⟩ := h.intact.present.exists_exprAt? href
  have htext : s.textAt? ref = some e.text := by rw [textAt?, he]; rfl
  have hguard := fingerprint?_eq_iff htext fun now => hdistinct e.text now htext
  refine ⟨Sha256.hexDigest e.text, by rw [fingerprint?_eq, htext]; rfl, fun state => ⟨?_, ?_⟩⟩
  · intro hkept
    rw [dispatch, setQueryState_eq, if_pos (hguard.mpr hkept)]
    exact stores_withQueryState hkept.1 state
  · intro hchanged
    rw [dispatch, setQueryState_eq, if_neg (mt hguard.mp hchanged)]

theorem dispatch_setQueryState_after_update :
    start.Reachable ∧ start.nodeExists ⟨0, 1⟩ ∧
      (∃ fingerprint, start.fingerprint? ⟨0, 1⟩ = some fingerprint ∧ ∀ state,
        (start.run [.edit (.update ⟨0, 1⟩ (.number "1"))]).dispatch
            (.setQueryState ⟨0, 1⟩ fingerprint state) =
          start.run [.edit (.update ⟨0, 1⟩ (.number "1"))]) ∧
      ∃ fingerprint, start.fingerprint? ⟨0, 1⟩ = some fingerprint ∧ ∀ state,
        (start.run [.edit (.update ⟨0, 1⟩ (.number "1")), .undo]).Stores ⟨0, 1⟩ state
          ((start.run [.edit (.update ⟨0, 1⟩ (.number "1")), .undo]).dispatch
            (.setQueryState ⟨0, 1⟩ fingerprint state)) := by
  have hempty : start.textAt? ⟨0, 1⟩ = some "…" := by decide +kernel
  have hfilled : (start.run [.edit (.update ⟨0, 1⟩ (.number "1"))]).textAt? ⟨0, 1⟩ = some "1" := by
    decide +kernel
  have hundone :
      (start.run [.edit (.update ⟨0, 1⟩ (.number "1")), .undo]).textAt? ⟨0, 1⟩ = some "…" := by
    decide +kernel
  have hroot : start.nodeExists ⟨0, 1⟩ := rfl
  have hdigest : Sha256.hexDigest "1" ≠ Sha256.hexDigest "…" := by decide +kernel
  refine ⟨.start, hroot, ?_, ?_⟩
  · obtain ⟨fingerprint, htaken, hdelivered⟩ := dispatch_setQueryState_after_run .start hroot
      [.edit (.update ⟨0, 1⟩ (.number "1"))]
      (by simp [hempty, hfilled, hdigest])
    refine ⟨fingerprint, htaken, fun state => (hdelivered state).2 fun hkept => ?_⟩
    rw [KeepsText, hempty, hfilled] at hkept
    exact absurd hkept.2 (by decide)
  · obtain ⟨fingerprint, htaken, hdelivered⟩ := dispatch_setQueryState_after_run .start hroot
      [.edit (.update ⟨0, 1⟩ (.number "1")), .undo]
      (by simp [hempty, hundone])
    exact ⟨fingerprint, htaken, fun state =>
      (hdelivered state).1 ⟨by decide +kernel, hundone.trans hempty.symm⟩⟩

end Session

end PromTree
