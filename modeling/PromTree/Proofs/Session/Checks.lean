import PromTree.Proofs.Session.Codec

namespace PromTree.SharedState

structure Tells (text : String) (j : Json) (s : SharedState) : Prop where
  parsed : Json.parse? text = some j
  read : ∃ j', upgrade j = .ok j' ∧ ofJson? j' = some s

/-- There is no such pane, or no such position among the nodes of its expression. -/
def IsBeyond (s : SharedState) (selection : SharedSelection) : Prop :=
  ∀ p, s.panes[selection.pane]? = some p → p.expr.size ≤ selection.position

variable {text : String} {j : Json} {s s' : SharedState} {selection : SharedSelection}
  {error : ShareError}

theorem Tells.parse_eq (h : Tells text j s) : parse text = s.check := by
  obtain ⟨j', hupgrade, hread⟩ := h.read
  rw [parse, h.parsed]
  simp only [ofJson, hupgrade, hread, bind, Except.bind]

theorem ne_invalidSelection_of_upgrade (h : upgrade j = .error error) :
    error ≠ .invalidSelection selection := by
  rintro rfl
  unfold upgrade at h
  split at h
  · cases h
  · unfold addSettings at h
    split at h <;> cases h
  · cases h
  · cases h
  · cases h

theorem tells_or_error (text : String) : (∃ j s, Tells text j s) ∨
    ∃ error, parse text = .error error ∧ ∀ selection, error ≠ .invalidSelection selection := by
  cases hj : Json.parse? text with
  | none => exact .inr ⟨.malformed, by rw [parse, hj], nofun⟩
  | some j =>
    have hparse : parse text = ofJson j := by rw [parse, hj]
    cases hupgrade : upgrade j with
    | error error =>
      refine .inr ⟨error, ?_, fun selection => ne_invalidSelection_of_upgrade hupgrade⟩
      simp only [hparse, ofJson, hupgrade, bind, Except.bind]
    | ok j' =>
      cases hread : ofJson? j' with
      | none =>
        refine .inr ⟨.malformed, ?_, nofun⟩
        simp only [hparse, ofJson, hupgrade, hread, bind, Except.bind]
      | some s => exact .inl ⟨j, s, hj, j', hupgrade, hread⟩

theorem ne_invalidSelection_of_exprError? (h : s.exprError? = some error) :
    error ≠ .invalidSelection selection := by
  obtain ⟨p, -, hp⟩ := List.exists_of_findSome?_eq_some h
  obtain ⟨defect, -, rfl⟩ := Option.map_eq_some_iff.mp hp
  exact nofun

theorem not_isBeyond_iff : ¬s.IsBeyond selection ↔
    ∃ p, s.panes[selection.pane]? = some p ∧ selection.position < p.expr.size := by
  simp only [IsBeyond, not_forall, exists_prop, Nat.not_le]

theorem any_lt_size_iff :
    ((s.panes[selection.pane]?).any fun p => selection.position < p.expr.size) ↔
      ¬s.IsBeyond selection := by
  simp only [not_isBeyond_iff, Option.any_eq_true, decide_eq_true_eq]

theorem selectionError?_eq_some_iff : s.selectionError? = some error ↔
    ∃ selection, s.selection = some selection ∧ s.IsBeyond selection ∧
      error = .invalidSelection selection := by
  rw [selectionError?]
  constructor
  · intro h
    split at h
    · contradiction
    · rename_i selection hs
      split at h
      · contradiction
      · rename_i hany
        rw [any_lt_size_iff, not_not] at hany
        exact ⟨selection, hs, hany, (Option.some.inj h).symm⟩
  · rintro ⟨selection, hs, hbeyond, rfl⟩
    rw [hs]
    exact if_neg (any_lt_size_iff.not_left.mpr hbeyond)

theorem check_eq_ok_iff : s.check = .ok s' ↔
    s = s' ∧ (∀ p ∈ s.panes, p.expr.IsValid) ∧
      ∀ selection, s.selection = some selection → ¬s.IsBeyond selection := by
  simp only [not_isBeyond_iff]
  rw [← exprError?_eq_none_iff, ← selectionError?_eq_none_iff, ← Option.or_eq_none_iff, check]
  split
  · rename_i error herror
    rw [herror]
    constructor
    · intro h
      cases h
    · rintro ⟨-, h⟩
      cases h
  · rename_i hnone
    exact ⟨fun h => ⟨Except.ok.inj h, hnone⟩, fun h => congrArg _ h.1⟩

theorem check_eq_error_iff :
    s.check = .error error ↔ s.exprError?.or s.selectionError? = some error := by
  rw [check]
  split
  · rename_i found hfound
    rw [hfound, Except.error.injEq, Option.some.injEq]
  · rename_i hnone
    rw [hnone]
    constructor
    · intro h
      cases h
    · intro h
      cases h

theorem check_eq_invalidSelection_iff : s.check = .error (.invalidSelection selection) ↔
    (∀ p ∈ s.panes, p.expr.IsValid) ∧ s.selection = some selection ∧ s.IsBeyond selection := by
  rw [check_eq_error_iff, Option.or_eq_some_iff, selectionError?_eq_some_iff,
    exprError?_eq_none_iff]
  constructor
  · rintro (hexpr | ⟨hvalid, named, hs, hbeyond, heq⟩)
    · exact absurd rfl (ne_invalidSelection_of_exprError? hexpr)
    · obtain rfl := ShareError.invalidSelection.inj heq
      exact ⟨hvalid, hs, hbeyond⟩
  · rintro ⟨hvalid, hs, hbeyond⟩
    exact .inr ⟨hvalid, selection, hs, hbeyond, rfl⟩

theorem exists_tells_of_parse (h : parse text = .ok s) :
    (∃ j, Tells text j s) ∧ s.check = .ok s := by
  rcases tells_or_error text with ⟨j, read, htells⟩ | ⟨error, herror, -⟩
  · have hcheck := htells.parse_eq.symm.trans h
    obtain ⟨rfl, -⟩ := check_eq_ok_iff.mp hcheck
    exact ⟨⟨j, htells⟩, hcheck⟩
  · rw [herror] at h
    contradiction

end PromTree.SharedState
