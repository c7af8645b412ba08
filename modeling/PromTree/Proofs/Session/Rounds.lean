import Mathlib.Data.List.Rotate
import PromTree.Proofs.Session.Selection
import PromTree.Proofs.Tree.Traversals

namespace PromTree

namespace Direction

variable {index count : Nat}

def opposite : Direction → Direction
  | .next => .previous
  | .previous => .next

theorem step_lt (d : Direction) (h : index < count) : d.step index count < count := by
  cases d <;> exact Nat.mod_lt _ (Nat.zero_lt_of_lt h)

theorem step_opposite (d : Direction) (h : index < count) :
    d.opposite.step (d.step index count) count = index := by
  cases d with
  | next =>
    rcases Nat.lt_or_ge (index + 1) count with hlast | hlast
    · rw [step, Nat.mod_eq_of_lt hlast, opposite, step, Nat.add_right_comm, Nat.add_sub_cancel,
        Nat.add_mod_right, Nat.mod_eq_of_lt h]
    · obtain rfl : count = index + 1 := by omega
      rw [step, Nat.mod_self, opposite, step, Nat.zero_add, Nat.add_sub_cancel, Nat.mod_eq_of_lt h]
  | previous =>
    rw [step, opposite, step, Nat.mod_add_mod, Nat.sub_add_cancel (by omega), Nat.add_mod_right,
      Nat.mod_eq_of_lt h]

end Direction

namespace Session

def StepsAlong (s : Session) (move : Direction → Action) (refs : List NodeRef) : Prop :=
  ∀ d i, i < refs.length →
    { s with selection := refs[i]? }.dispatch (move d) =
      { s with selection := refs[d.step i refs.length]? }

/-- Steps ahead, as many as there are nodes in the list, lead to each of them once and back to the
first selection, and a step either way is undone by one the other way. -/
structure GoesRound (s : Session) (move : Direction → Action) (refs : List NodeRef) : Prop where
  visits : ((List.range refs.length).map fun k =>
    (s.run (List.replicate (k + 1) (move .next))).selection).Perm (refs.map some)
  returns : s.run (List.replicate refs.length (move .next)) = s
  undone : ∀ d, s.run [move d, move d.opposite] = s

variable {s : Session} {move : Direction → Action} {refs refs' : List NodeRef} {i : Nat}

namespace StepsAlong

theorem run (h : s.StepsAlong move refs) (hi : i < refs.length) (k : Nat) :
    { s with selection := refs[i]? }.run (List.replicate k (move .next)) =
      { s with selection := refs[(i + k) % refs.length]? } := by
  induction k generalizing i with
  | zero =>
    rw [Nat.add_zero, Nat.mod_eq_of_lt hi]
    rfl
  | succ k ih =>
    have hnext : Direction.next.step i refs.length < refs.length := Direction.next.step_lt hi
    rw [Session.run, List.replicate_succ, List.foldl_cons, h .next i hi]
    refine (ih hnext).trans ?_
    rw [Direction.step, Nat.mod_add_mod, Nat.add_right_comm, Nat.add_assoc]

theorem goesRound (h : s.StepsAlong move refs) (hi : i < refs.length)
    (hs : s.selection = refs[i]?) : s.GoesRound move refs := by
  have hself : { s with selection := refs[i]? } = s := by rw [← hs]
  have hrun (k : Nat) : s.run (List.replicate k (move .next)) =
      { s with selection := refs[(i + k) % refs.length]? } := by
    rw [← h.run hi, hself]
  refine ⟨?_, ?_, fun d => ?_⟩
  · -- the list of what is selected, rotated so that it begins after the first selection
    have hrotated : ((List.range refs.length).map fun k =>
        (s.run (List.replicate (k + 1) (move .next))).selection) =
        (refs.rotate (i + 1)).map some := by
      refine List.ext_getElem? fun k => ?_
      rw [List.getElem?_map, List.getElem?_map]
      rcases Nat.lt_or_ge k refs.length with hk | hk
      · have hlt : (i + (k + 1)) % refs.length < refs.length :=
          Nat.mod_lt _ (Nat.zero_lt_of_lt hi)
        rw [List.getElem?_range hk, List.getElem?_rotate hk, Option.map_some, hrun,
          Nat.add_left_comm k i 1, List.getElem?_eq_getElem hlt, Option.map_some]
      · rw [List.getElem?_eq_none (by simpa using hk), List.getElem?_eq_none (by simpa using hk),
          Option.map_none, Option.map_none]
    rw [hrotated]
    exact (List.rotate_perm refs (i + 1)).map some
  · rw [hrun, Nat.add_mod_right, Nat.mod_eq_of_lt hi, hself]
  · change (s.dispatch (move d)).dispatch (move d.opposite) = s
    have hback := h d.opposite _ (d.step_lt hi)
    rw [← h d i hi, hself, d.step_opposite hi, hself] at hback
    exact hback

end StepsAlong

theorem GoesRound.of_perm (h : s.GoesRound move refs) (hp : refs.Perm refs') :
    s.GoesRound move refs' := by
  obtain ⟨hvisits, hreturns, hundone⟩ := h
  rw [hp.length_eq] at hvisits hreturns
  exact ⟨hvisits.trans (hp.map some), hreturns, hundone⟩

theorem neighbour?_eq {d : Direction} {t : Tree} (hn : t.orderedIds.Nodup) {id : NodeId}
    (hid : t.orderedIds[i]? = some id) :
    neighbour? d t id = t.orderedIds[d.step i t.orderedIds.length]? := by
  obtain ⟨hi, rfl⟩ := List.getElem?_eq_some_iff.mp hid
  have hindex : t.orderedIds.idxOf? t.orderedIds[i] = some i := by
    refine List.idxOf?_eq_some_iff.mpr ⟨hi, rfl, fun j hj he => ?_⟩
    exact hj.ne ((hn.getElem_inj_iff).mp he)
  rw [neighbour?, hindex]
  rfl

theorem stepsAlong_selectNeighbour {pane : Nat} {p : Pane} (hp : s.pane? pane = some p)
    (hn : p.tree.orderedIds.Nodup) :
    s.StepsAlong .selectNeighbour (p.tree.orderedIds.map (NodeRef.mk pane)) := by
  intro d i hi
  rw [List.length_map] at hi ⊢
  have hstep := d.step_lt hi
  have hnode := neighbour?_eq (d := d) hn (List.getElem?_eq_getElem hi)
  rw [List.getElem?_map, List.getElem?_map, List.getElem?_eq_getElem hi,
    List.getElem?_eq_getElem hstep, Option.map_some, Option.map_some]
  rw [List.getElem?_eq_getElem hstep] at hnode
  change s.panes[pane]? = some p at hp
  simp only [dispatch, selectNeighbour, pane?, hp, Option.bind_some, hnode]

theorem stepsAlong_selectPaneBeside (s : Session) :
    s.StepsAlong .selectPaneBeside (s.panes.mapIdx fun i p => ⟨i, p.tree.root⟩) := by
  intro d i hi
  rw [List.length_mapIdx] at hi ⊢
  have hstep := d.step_lt hi
  rw [List.getElem?_mapIdx, List.getElem?_mapIdx, List.getElem?_eq_getElem hi,
    List.getElem?_eq_getElem hstep, Option.map_some, Option.map_some]
  simp only [dispatch, selectPaneBeside, selectRootOf, pane?, List.getElem?_eq_getElem hstep]

theorem run_movesSelection {actions : List Action} (h : ∀ a ∈ actions, a.movesSelection) :
    s.run actions = { s with selection := (s.run actions).selection } := by
  induction actions generalizing s with
  | nil => rfl
  | cons a actions ih =>
    rw [List.forall_mem_cons] at h
    refine (ih h.2).trans ?_
    change { s.dispatch a with selection := ((s.dispatch a).run actions).selection } =
      { s with selection := ((s.dispatch a).run actions).selection }
    generalize ((s.dispatch a).run actions).selection = selection
    rw [dispatch_movesSelection h.1]

structure Navigable (s : Session) : Prop where
  nodes : ∀ ref, s.selection = some ref → ∃ p, s.pane? ref.pane = some p ∧
    p.tree.contains ref.node ∧
    s.GoesRound .selectNeighbour (p.tree.nodes.keys.map (NodeRef.mk ref.pane))
  roots : ∀ pane p, s.pane? pane = some p → s.selection = some ⟨pane, p.tree.root⟩ →
    s.GoesRound .selectPaneBeside (s.panes.mapIdx fun i p => ⟨i, p.tree.root⟩)
  keeps : ∀ actions : List Action, (∀ a ∈ actions, a.movesSelection) →
    s.run actions = { s with selection := (s.run actions).selection }
  /-- No remainder is taken by zero. -/
  counts : 0 < s.panes.length ∧ ∀ p ∈ s.panes, 0 < p.tree.orderedIds.length

theorem navigable_of_reachable (h : s.Reachable) : s.Navigable where
  nodes := by
    intro ref href
    obtain ⟨p, hp, hc⟩ := (s.nodeExists_iff ref).mp (h.selectionExists ref href)
    obtain ⟨r, hr⟩ := h.intact.present.pane? hp
    have hf := hr.flattens
    have hperm := hf.linked.orderedIds_perm hf.listsOnce hf.spanned
    obtain ⟨i, hi, hnode⟩ := List.getElem_of_mem (hr.mem_orderedIds.mpr hc)
    have hsteps := stepsAlong_selectNeighbour hp hr.nodup_orderedIds
    have hround := hsteps.goesRound (i := i) (by rwa [List.length_map])
      (by rw [href, List.getElem?_map, List.getElem?_eq_getElem hi, hnode, Option.map_some])
    exact ⟨p, hp, hc, hround.of_perm (hperm.map _)⟩
  roots := by
    intro pane p hp hroot
    change s.panes[pane]? = some p at hp
    refine s.stepsAlong_selectPaneBeside.goesRound (i := pane) ?_ ?_
    · rw [List.length_mapIdx]
      exact (List.getElem?_eq_some_iff.mp hp).1
    · rw [hroot, List.getElem?_mapIdx, hp, Option.map_some]
  keeps := fun _ hmoves => run_movesSelection hmoves
  counts := by
    refine ⟨List.length_pos_iff.mpr h.intact.present.panes.nonempty, fun p hp => ?_⟩
    obtain ⟨r, hr⟩ := h.intact.present.panes.trees p hp
    exact List.length_pos_of_mem (hr.mem_orderedIds.mpr hr.flattens.contains_root)

theorem navigable_from_operand :
    let a : Expr := .vectorSelector ⟨"a", [], .zero⟩
    let b : Expr := .vectorSelector ⟨"b", [], .zero⟩
    let s := start.run [.edit (.setExpr 0 (.binary .div none false
      (.aggregation .sum ⟨[], false⟩ none a) b)), .edit .addPane, .select ⟨0, 3⟩]
    s.Reachable ∧ s.selection = some ⟨0, 3⟩ ∧ s.Navigable ∧
      (List.range 4).map (fun k =>
        (s.run (List.replicate (k + 1) (.selectNeighbour .next))).selection) =
        [some ⟨0, 2⟩, some ⟨0, 5⟩, some ⟨0, 4⟩, some ⟨0, 3⟩] := by
  intro a b s
  have h : s.Reachable := Reachable.start.run (by simp [Action.Admissible])
  exact ⟨h, by decide +kernel, navigable_of_reachable h, by decide +kernel⟩

end Session

end PromTree
