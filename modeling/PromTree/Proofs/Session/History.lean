import PromTree.Proofs.Session.Invariant

namespace PromTree

namespace Session

structure SameHistory (s s' : Session) : Prop where
  panes : s.panes = s'.panes
  past : s.past = s'.past
  future : s.future = s'.future

def pushes (s : Session) : Action → Bool
  | .edit e => (s.edit? e).isSome
  | _ => false

/-- The panes that are put in the past in a run, the newest first. -/
def pushed (s : Session) : List Action → List (List Pane)
  | [] => []
  | a :: actions => (s.dispatch a).pushed actions ++ if s.pushes a then [s.panes] else []

variable {s s' : Session} {a : Action} {n : Nat}

theorem dispatch_of_pushes (h : s.pushes a) :
    (s.dispatch a).past = (s.panes :: s.past).take maxPast ∧ (s.dispatch a).future = [] := by
  cases a with
  | edit e =>
    obtain ⟨s', hs'⟩ := Option.isSome_iff_exists.mp h
    rw [dispatch, record, hs']
    exact ⟨rfl, rfl⟩
  | _ => contradiction

theorem dispatch_of_not_pushes (h : s.pushes a = false) (hl : a.leavesHistory = false) :
    (s.dispatch a).past = s.past ∧ (s.dispatch a).future = s.future := by
  cases hr : a.isRecorded with
  | true =>
    cases a with
    | edit e =>
      rw [dispatch, record, Option.not_isSome_iff_eq_none.mp (Bool.eq_false_iff.mp h)]
      exact ⟨rfl, rfl⟩
    | _ => contradiction
  | false =>
    obtain ⟨hpast, hfuture, -⟩ := dispatch_history (s := s) hr hl
    exact ⟨hpast, hfuture⟩

theorem pushes_of_panes_ne (hr : a.isRecorded) (h : (s.dispatch a).panes ≠ s.panes) :
    s.pushes a := by
  cases a with
  | edit e =>
    rw [pushes, ← Option.ne_none_iff_isSome]
    intro hnone
    apply h
    rw [dispatch, record, hnone]
  | _ => contradiction

theorem undo_nothing (h : s.past = []) : s.undo = s := by rw [undo, h]

theorem redo_nothing (h : s.future = []) : s.redo = s := by rw [redo, h]

theorem undo_eq {panes : List Pane} {past : List (List Pane)} (h : s.past = panes :: past) :
    s.undo = { s with panes, past, future := s.panes :: s.future, selection := none } := by
  rw [undo, h]

theorem redo_eq {panes : List Pane} {future : List (List Pane)} (h : s.future = panes :: future) :
    s.redo = { s with panes, past := s.panes :: s.past, future, selection := none } := by
  rw [redo, h]

theorem sameHistory_undo_redo (h : s.past ≠ []) : SameHistory s.undo.redo s := by
  obtain ⟨panes, past, hpast⟩ := List.exists_cons_of_ne_nil h
  rw [undo_eq hpast, redo_eq rfl]
  exact ⟨rfl, hpast.symm, rfl⟩

theorem sameHistory_redo_undo (h : s.future ≠ []) : SameHistory s.redo.undo s := by
  obtain ⟨panes, future, hfuture⟩ := List.exists_cons_of_ne_nil h
  rw [redo_eq hfuture, undo_eq rfl]
  exact ⟨rfl, rfl, hfuture.symm⟩

namespace SameHistory

theorem trans {s'' : Session} (h : SameHistory s s') (h' : SameHistory s' s'') :
    SameHistory s s'' :=
  ⟨h.panes.trans h'.panes, h.past.trans h'.past, h.future.trans h'.future⟩

theorem redo (h : SameHistory s s') : SameHistory s.redo s'.redo := by
  have hf := h.future
  cases hs : s.future with
  | nil =>
    rw [hs] at hf
    rwa [redo_nothing hs, redo_nothing hf.symm]
  | cons panes future =>
    rw [hs] at hf
    rw [redo_eq hs, redo_eq hf.symm]
    exact ⟨rfl, congrArg₂ List.cons h.panes h.past, rfl⟩

end SameHistory

theorem run_append (s : Session) (before after : List Action) :
    s.run (before ++ after) = (s.run before).run after := List.foldl_append

theorem pushed_append (s : Session) (before after : List Action) :
    s.pushed (before ++ after) = (s.run before).pushed after ++ s.pushed before := by
  induction before generalizing s with
  | nil => exact (List.append_nil _).symm
  | cons a before ih =>
    rw [List.cons_append, pushed, pushed, ih, List.append_assoc]
    rfl

theorem run_undo (h : n ≤ s.past.length) :
    (s.run (List.replicate n .undo)).panes :: (s.run (List.replicate n .undo)).past =
      (s.panes :: s.past).drop n := by
  induction n generalizing s with
  | zero => rfl
  | succ n ih =>
    cases hs : s.past with
    | nil =>
      rw [hs] at h
      contradiction
    | cons panes past =>
      have hlen : n ≤ s.undo.past.length := by
        rw [undo_eq hs]
        rw [hs] at h
        exact Nat.le_of_succ_le_succ h
      have hstep := ih hlen
      rw [undo_eq hs] at hstep
      rw [List.drop_succ_cons, ← hstep, ← undo_eq hs]
      rfl

theorem run_undo_redo (h : n ≤ s.past.length) :
    SameHistory ((s.run (List.replicate n .undo)).run (List.replicate n .redo)) s := by
  induction n generalizing s with
  | zero => exact ⟨rfl, rfl, rfl⟩
  | succ n ih =>
    have hne : s.past ≠ [] := by
      rintro hnil
      rw [hnil] at h
      contradiction
    have hlen : n ≤ s.undo.past.length := by
      obtain ⟨panes, past, hpast⟩ := List.exists_cons_of_ne_nil hne
      rw [undo_eq hpast]
      rw [hpast] at h
      exact Nat.le_of_succ_le_succ h
    -- the first undo and the last redo are those of this step
    have hlast : s.undo.run (List.replicate n .undo) = s.run (List.replicate (n + 1) .undo) := rfl
    rw [List.replicate_succ' (a := Action.redo), run_append, ← hlast]
    exact (ih hlen).redo.trans (sameHistory_undo_redo hne)

theorem take_append_take {α : Type} (as bs : List α) (n : Nat) :
    (as ++ bs.take n).take n = (as ++ bs).take n := by
  rw [List.take_append, List.take_append, List.take_take, Nat.min_eq_left (Nat.sub_le _ _)]

theorem past_run (h : s.past.length ≤ maxPast) {actions : List Action}
    (ha : ∀ a ∈ actions, a.leavesHistory = false) :
    (s.run actions).past = (s.pushed actions ++ s.past).take maxPast := by
  induction actions generalizing s with
  | nil => exact (List.take_of_length_le h).symm
  | cons a actions ih =>
    rw [List.forall_mem_cons] at ha
    change ((s.dispatch a).run actions).past = _
    -- a push cuts the past off, and the last cut is the one that counts
    cases hp : s.pushes a with
    | true =>
      have hpast := (dispatch_of_pushes hp).1
      have hlen : (s.dispatch a).past.length ≤ maxPast := by
        rw [hpast]
        exact List.length_take_le _ _
      rw [ih hlen ha.2, hpast, take_append_take, pushed, hp, if_pos rfl, List.append_assoc]
      rfl
    | false =>
      have hpast := (dispatch_of_not_pushes hp ha.1).1
      rw [ih (hpast ▸ h) ha.2, hpast, pushed, hp, if_neg Bool.false_ne_true, List.append_nil]

theorem historyLength_dispatch (h : s.past.length + s.future.length ≤ maxPast) (a : Action) :
    (s.dispatch a).past.length + (s.dispatch a).future.length ≤ maxPast := by
  cases hl : a.leavesHistory with
  | false =>
    cases hp : s.pushes a with
    | true =>
      obtain ⟨hpast, hfuture⟩ := dispatch_of_pushes hp
      rw [hpast, hfuture]
      exact List.length_take_le _ _
    | false =>
      obtain ⟨hpast, hfuture⟩ := dispatch_of_not_pushes hp hl
      rwa [hpast, hfuture]
  | true =>
    cases a with
    | undo =>
      rw [dispatch]
      cases hs : s.past with
      | nil => rwa [undo_nothing hs]
      | cons panes past =>
        -- what the past loses the future gets
        rw [hs] at h
        rw [undo_eq hs]
        simp only [List.length_cons] at h ⊢
        omega
    | redo =>
      rw [dispatch]
      cases hs : s.future with
      | nil => rwa [redo_nothing hs]
      | cons panes future =>
        -- here no push cuts the past, but the future gets shorter
        rw [hs] at h
        rw [redo_eq hs]
        simp only [List.length_cons] at h ⊢
        omega
    | load shared => exact Nat.zero_le _
    | _ => contradiction

theorem Reachable.historyLength_le (h : s.Reachable) :
    s.past.length + s.future.length ≤ maxPast := by
  induction h with
  | start => exact Nat.zero_le _
  | @dispatch s a reachable admissible ih => exact historyLength_dispatch ih a

theorem run_undo_pushed (h : s.past.length ≤ maxPast) {before after : List Action} {first : Action}
    (ha : ∀ a ∈ before ++ first :: after, a.leavesHistory = false) (hb : s.pushed before = [])
    (hf : (s.run before).pushes first)
    (hn : (s.pushed (before ++ first :: after)).length = n) (hle : n ≤ maxPast) :
    ((s.run (before ++ first :: after)).run (List.replicate n .undo)).panes =
        (s.run before).panes ∧
      SameHistory (((s.run (before ++ first :: after)).run (List.replicate n .undo)).run
        (List.replicate n .redo)) (s.run (before ++ first :: after)) := by
  have hpast := past_run h ha
  have hlen : n ≤ (s.run (before ++ first :: after)).past.length := by
    rw [hpast, List.length_take, List.length_append, hn]
    exact Nat.le_min.mpr ⟨hle, Nat.le_add_right _ _⟩
  refine ⟨?_, run_undo_redo hlen⟩
  have hpushed : s.pushed (before ++ first :: after) =
      ((s.run before).dispatch first).pushed after ++ [(s.run before).panes] := by
    rw [pushed_append, hb, List.append_nil, pushed, hf, if_pos rfl]
  -- the oldest of those that were pushed comes to the fore
  have hdrop := run_undo hlen
  rw [hpushed, List.length_append, List.length_singleton] at hn
  rw [hpast, hpushed, ← hn, List.drop_succ_cons, List.append_assoc, List.drop_take,
    List.drop_left, List.singleton_append] at hdrop
  have hroom : maxPast - (((s.run before).dispatch first).pushed after).length =
      maxPast - n + 1 := by omega
  rw [hroom, List.take_succ_cons, hn] at hdrop
  exact (List.cons.inj hdrop).1

structure HistoryExact (s : Session) : Prop where
  bounded : s.past.length + s.future.length ≤ 20
  undoRedo : s.past ≠ [] → SameHistory ((s.dispatch .undo).dispatch .redo) s
  redoUndo : s.future ≠ [] → SameHistory ((s.dispatch .redo).dispatch .undo) s
  recorded : ∀ a, a.isRecorded → (s.dispatch a).panes ≠ s.panes →
    (s.dispatch a).past.head? = some s.panes ∧ (s.dispatch a).future = []
  runs : ∀ before first after, (∀ a ∈ before ++ first :: after, a.leavesHistory = false) →
    s.pushed before = [] → (s.run before).pushes first →
    ∀ n, (s.pushed (before ++ first :: after)).length = n → n ≤ 20 →
      ((s.run (before ++ first :: after)).run (List.replicate n .undo)).panes =
          (s.run before).panes ∧
        (((s.run (before ++ first :: after)).run (List.replicate n .undo)).run
          (List.replicate n .redo)).panes = (s.run (before ++ first :: after)).panes

theorem historyExact_of_reachable (h : s.Reachable) : s.HistoryExact where
  bounded := h.historyLength_le
  undoRedo := sameHistory_undo_redo
  redoUndo := sameHistory_redo_undo
  recorded := by
    intro a hr hne
    obtain ⟨hpast, hfuture⟩ := dispatch_of_pushes (pushes_of_panes_ne hr hne)
    rw [hpast]
    exact ⟨rfl, hfuture⟩
  runs := by
    intro before first after ha hb hf n hn hle
    have hpast : s.past.length ≤ maxPast := (Nat.le_add_right _ _).trans h.historyLength_le
    obtain ⟨hundo, hredo⟩ := run_undo_pushed hpast ha hb hf hn hle
    exact ⟨hundo, hredo.panes⟩

theorem historyExact_between_undo_and_redo :
    (start.run [.edit .addPane, .edit .addPane, .undo]).Reachable ∧
      (start.run [.edit .addPane, .edit .addPane, .undo]).past ≠ [] ∧
      (start.run [.edit .addPane, .edit .addPane, .undo]).future ≠ [] ∧
      (start.run [.edit .addPane, .edit .addPane, .undo]).HistoryExact := by
  have h : (start.run [.edit .addPane, .edit .addPane, .undo]).Reachable :=
    Reachable.start.run (by simp [Action.Admissible])
  exact ⟨h, List.cons_ne_nil _ _, List.cons_ne_nil _ _, historyExact_of_reachable h⟩

end Session

end PromTree
