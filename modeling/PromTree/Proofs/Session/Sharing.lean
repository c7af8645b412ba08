import PromTree.Proofs.Session.Codec
import PromTree.Proofs.Session.Selection

namespace PromTree

structure Pane.SharedAs (p : Pane) (shared : SharedPane) : Prop where
  text : p.text = shared.text
  stale : p.stale = shared.stale
  expr : p.tree.expr = .ok shared.expr

namespace Session

structure Corresponds (s s' : Session) (ref ref' : NodeRef) : Prop where
  pane : ref.pane = ref'.pane
  shown : ∃ p p' index path, s.panes[ref.pane]? = some p ∧ s'.panes[ref'.pane]? = some p' ∧
    p.tree.orderedIds.idxOf? ref.node = some index ∧
    p'.tree.orderedIds.idxOf? ref'.node = some index ∧
    p.tree.idAt? path = some ref.node ∧ p'.tree.idAt? path = some ref'.node ∧
    p'.tree.exprAt ref'.node = p.tree.exprAt ref.node

/-- Sessions that agree but for the numbers of their nodes. -/
structure Resembles (s s' : Session) : Prop where
  panes : List.Forall₂ (fun p p' => p.text = p'.text ∧ p.stale = p'.stale ∧
    p.tree.expr = p'.tree.expr) s.panes s'.panes
  settings : s.settings = s'.settings
  visualizer : s.visualizer = s'.visualizer
  selection : Option.Rel (s.Corresponds s') s.selection s'.selection

/-- What is shared can be read from its JSON value and text, and loaded over any session. -/
structure IsSharedAs (s : Session) (shared : SharedState) : Prop where
  share : s.share = .ok shared
  ofJson : SharedState.ofJson shared.toJson = .ok shared
  parse : ∀ text, Json.parse? text = some shared.toJson → SharedState.parse text = .ok shared
  resembles : ∀ t : Session, s.Resembles (t.dispatch (.load shared))
  shareAgain : ∀ t : Session, (t.dispatch (.load shared)).share = .ok shared

variable {s s' : Session} {p : Pane} {panes panes' : List Pane} {shared : List SharedPane}
  {next next' : NodeId}

theorem mapM_eq_ok {α β ε : Type} {f : α → Except ε β} {as : List α} {bs : List β}
    (h : List.Forall₂ (fun a b => f a = .ok b) as bs) : as.mapM f = .ok bs := by
  induction h with
  | nil => rfl
  | cons hab _ ih =>
    rw [List.mapM_cons, hab, ih]
    rfl

theorem exists_getElem? {α β : Type} {R : α → β → Prop} {as : List α} {bs : List β}
    (h : List.Forall₂ R as bs) {i : Nat} {a : α} (ha : as[i]? = some a) :
    ∃ b, bs[i]? = some b ∧ R a b := by
  induction h generalizing i with
  | nil => contradiction
  | cons hab _ ih =>
    cases i with
    | zero => exact ⟨_, rfl, Option.some.inj ha ▸ hab⟩
    | succ i => exact ih ha

theorem share_eq_ok (h : List.Forall₂ Pane.SharedAs s.panes shared) :
    s.share = .ok ⟨SharedState.currentVersion, s.settings, shared, s.sharedSelection?,
      s.visualizer⟩ := by
  have hpane (p : Pane) (shared : SharedPane) (h : p.SharedAs shared) :
      (do Except.ok (SharedPane.mk p.text p.stale (← p.tree.expr))) =
        (.ok shared : Except Tree.Fault SharedPane) := by
    rw [h.expr, h.text, h.stale]
    rfl
  rw [share, mapM_eq_ok (h.imp hpane)]
  rfl

theorem exists_sharedAs (h : ∀ p ∈ panes, p.tree.IsIntact next) :
    ∃ shared, List.Forall₂ Pane.SharedAs panes shared ∧ ∀ p ∈ shared, p.expr.IsValid := by
  induction panes with
  | nil => exact ⟨[], .nil, nofun⟩
  | cons p panes ih =>
    rw [List.forall_mem_cons] at h
    obtain ⟨shared, hshared, hvalid⟩ := ih h.2
    obtain ⟨r, hr⟩ := h.1
    refine ⟨⟨p.text, p.stale, r.expr⟩ :: shared, .cons ⟨rfl, rfl, hr.expr⟩ hshared, ?_⟩
    exact List.forall_mem_cons.mpr ⟨hr.wellShaped.isValid, hvalid⟩

theorem panesFrom_sharedAs (h : ∀ p ∈ shared, p.expr.IsValid) (next : NodeId) :
    List.Forall₂ Pane.SharedAs (panesFrom next shared) shared := by
  induction shared generalizing next with
  | nil => exact .nil
  | cons p shared ih =>
    rw [List.forall_mem_cons] at h
    have hexpr := (Tree.shows_ofExpr h.1 next).expr
    rw [(NestedTree.WellShaped.number h.1 next).2] at hexpr
    exact .cons ⟨rfl, rfl, hexpr⟩ (ih h.2 _)

theorem forall₂_of_sharedAs (h : List.Forall₂ Pane.SharedAs panes shared)
    (h' : List.Forall₂ Pane.SharedAs panes' shared) :
    List.Forall₂ (fun p p' => p.text = p'.text ∧ p.stale = p'.stale ∧ p.tree.expr = p'.tree.expr)
      panes panes' := by
  induction h generalizing panes' with
  | nil =>
    cases h' with
    | nil => exact .nil
  | cons hp _ ih =>
    obtain ⟨p', panes', hp', hpanes', rfl⟩ := List.forall₂_cons_right_iff.mp h'
    exact .cons ⟨hp.text.trans hp'.text.symm, hp.stale.trans hp'.stale.symm,
      hp.expr.trans hp'.expr.symm⟩ (ih hpanes')

theorem idxOf?_eq_some {as : List NodeId} (h : as.Nodup) {k : Nat} {id : NodeId}
    (hk : as[k]? = some id) : as.idxOf? id = some k := by
  obtain ⟨hlt, rfl⟩ := List.getElem?_eq_some_iff.mp hk
  refine List.idxOf?_eq_some_iff.mpr ⟨hlt, rfl, fun j hj he => ?_⟩
  exact absurd ((h.getElem_inj_iff).mp he) (Nat.ne_of_lt hj)

theorem exists_sharedSelection? (h : s.SelectionExists) (hi : s.PresentIntact) {ref : NodeRef}
    (href : s.selection = some ref) :
    ∃ p k, s.panes[ref.pane]? = some p ∧ p.tree.orderedIds[k]? = some ref.node ∧
      p.tree.orderedIds.idxOf? ref.node = some k ∧ s.sharedSelection? = some ⟨ref.pane, k⟩ := by
  obtain ⟨p, hp, hc⟩ := (s.nodeExists_iff ref).mp (h ref href)
  obtain ⟨r, hr⟩ := hi.pane? hp
  obtain ⟨k, hk⟩ := List.getElem?_of_mem (hr.mem_orderedIds.mpr hc)
  have hidx := idxOf?_eq_some hr.nodup_orderedIds hk
  refine ⟨p, k, hp, hk, hidx, ?_⟩
  simp [sharedSelection?, href, pane?, hp, hidx]

theorem exists_corresponds (s' : Session) (state : SharedState) (h : s.SelectionExists)
    (hi : s.PresentIntact)
    (hi' : (s'.load state).PresentIntact)
    (hp : List.Forall₂ (fun p p' => p.text = p'.text ∧ p.stale = p'.stale ∧
      p.tree.expr = p'.tree.expr) s.panes (s'.load state).panes)
    (hs : state.selection = s.sharedSelection?) :
    Option.Rel (s.Corresponds (s'.load state)) s.selection (s'.load state).selection ∧
      (s'.load state).sharedSelection? = s.sharedSelection? := by
  have hload : (s'.load state).selection =
      s.sharedSelection?.bind (selectionIn? (s'.load state).panes) := by rw [← hs]; rfl
  cases href : s.selection with
  | none =>
    have hnone : s.sharedSelection? = none := by simp [sharedSelection?, href]
    rw [hnone, Option.bind_none] at hload
    rw [hload, hnone]
    exact ⟨.none, by simp [sharedSelection?, hload]⟩
  | some ref =>
    obtain ⟨p, k, hpane, hk, hidx, hshared⟩ := exists_sharedSelection? h hi href
    obtain ⟨p', hpane', -, -, hexpr⟩ := exists_getElem? hp hpane
    obtain ⟨r, hr⟩ := hi.pane? hpane
    obtain ⟨r', hr'⟩ := hi'.pane? hpane'
    rw [hr.expr, hr'.expr] at hexpr
    -- trees of one expression show the node of a position at the same place
    obtain ⟨id', path, hk', hat, hat', hexprAt⟩ :=
      hr.exists_corresponding hr' (Except.ok.inj hexpr) hk
    have hidx' := idxOf?_eq_some hr'.nodup_orderedIds hk'
    rw [hshared, Option.bind_some, selectionIn?] at hload
    simp only [hpane', hk', Option.bind_eq_bind, Option.bind_some] at hload
    rw [hload, hshared]
    constructor
    · exact .some ⟨rfl, p, p', k, path, hpane, hpane', hidx, hidx', hat, hat', hexprAt⟩
    · simp [sharedSelection?, hload, pane?, hpane', hidx']

/-- Whatever state a session is in, it can be shared. -/
theorem exists_isSharedAs (h : s.Reachable)
    (hfits : ∀ selection, s.sharedSelection? = some selection → selection.Fits) :
    ∃ shared, s.IsSharedAs shared := by
  have hi := h.intact.present
  obtain ⟨shared, hshared, hvalid⟩ := exists_sharedAs hi.panes.trees
  let state : SharedState :=
    ⟨SharedState.currentVersion, s.settings, shared, s.sharedSelection?, s.visualizer⟩
  have hne : shared ≠ [] := by
    rintro rfl
    exact hi.panes.nonempty (List.forall₂_nil_right_iff.mp hshared)
  have hpanes : sharedPanes state = shared := if_neg (by simpa [state] using hne)
  have hread : SharedState.ofJson state.toJson = .ok state := by
    refine SharedState.ofJson_toJson rfl hvalid fun selection hs => ⟨hfits selection hs, ?_⟩
    cases href : s.selection with
    | none => simp [state, sharedSelection?, href] at hs
    | some ref =>
      -- the selection is a place that is shown, and so lies within the expression of its pane
      obtain ⟨p, k, hp, hk, -, hsel⟩ := exists_sharedSelection? h.selectionExists hi href
      obtain rfl : selection = ⟨ref.pane, k⟩ := Option.some.inj (hs.symm.trans hsel)
      obtain ⟨sp, hsp, hpane⟩ := exists_getElem? hshared hp
      obtain ⟨r, hr⟩ := hi.pane? hp
      have hexpr : r.expr = sp.expr := Except.ok.inj (hr.expr.symm.trans hpane.expr)
      obtain ⟨hlt, -⟩ := List.getElem?_eq_some_iff.mp hk
      rw [hr.length_orderedIds, hexpr] at hlt
      exact ⟨sp, hsp, hlt⟩
  have hload (t : Session) : List.Forall₂ Pane.SharedAs (t.load state).panes shared := by
    change List.Forall₂ _ (panesFrom t.nextId (sharedPanes state)) _
    rw [hpanes]
    exact panesFrom_sharedAs hvalid t.nextId
  have hselection (t : Session) := exists_corresponds t state h.selectionExists hi
    (load_intact hvalid).present (forall₂_of_sharedAs hshared (hload t)) rfl
  refine ⟨state, share_eq_ok hshared, hread, fun text htext => ?_, fun t => ?_, fun t => ?_⟩
  · rw [SharedState.parse, htext]
    exact hread
  · exact ⟨forall₂_of_sharedAs hshared (hload t), rfl, rfl, (hselection t).1⟩
  · rw [dispatch, share_eq_ok (hload t), (hselection t).2]
    rfl

theorem exists_isSharedAs_operand :
    let sum : Expr := .binary .add none false (.number "1") (.placeholder [])
    let s := start.run [.edit (.setExpr 0 sum), .selectNeighbour .next]
    s.Reachable ∧ s.sharedSelection? = some ⟨0, 2⟩ ∧ ∃ shared, s.IsSharedAs shared := by
  intro sum s
  have h : s.Reachable := Reachable.start.run (by simp [Action.Admissible])
  have hselection : s.sharedSelection? = some ⟨0, 2⟩ := by decide
  refine ⟨h, hselection, exists_isSharedAs h fun selection hs => ?_⟩
  obtain rfl := Option.some.inj (hselection.symm.trans hs)
  exact ⟨by decide, by decide⟩

end Session

end PromTree
