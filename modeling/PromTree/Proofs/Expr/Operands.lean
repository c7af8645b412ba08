import PromTree.Proofs.Expr.Stated
import PromTree.Proofs.Query.Grouping

namespace PromTree

namespace Literal

theorem isNegative_of_signed?_text {x : Binary64} {unsigned : String}
    (h : signed? (SampleValue.text x) = some (.minus, unsigned)) : x.isNegative := by
  cases x with
  | nan => exact absurd (h.symm.trans (by decide +kernel : _ = none)) (Option.some_ne_none _)
  | infinite negative =>
    cases negative with
    | true => rfl
    | false =>
      have hplus : (signed? (SampleValue.text (.infinite false))).map Prod.fst = some .plus := by
        decide +kernel
      rw [h] at hplus
      exact absurd hplus (by simp)
  | finite negative m e =>
    cases negative with
    | true => rfl
    | false =>
      rw [signed?_text_nonneg] at h
      contradiction

end Literal

namespace Shape

def outline : Shape → Shape
  | .binary op _ _ => .binary op none false
  | .unary _ => .unary .minus
  | _ => .paren

theorem needsParens_outline (s : Shape) (op : BinaryOp) (isRight : Bool) :
    s.outline.needsParens op isRight = s.needsParens op isRight := by
  cases s <;> rfl

theorem needsParensAfterSign_outline (s : Shape) :
    s.outline.needsParensAfterSign = s.needsParensAfterSign := by
  cases s <;> rfl

theorem needsParensInSubquery_outline (s : Shape) :
    s.outline.needsParensInSubquery = s.needsParensInSubquery := by
  cases s <;> rfl

end Shape

namespace Term

variable {t : Term} {e : Expr}

theorem outline_toExpr (h : t.toExpr = .ok e) : e.shape.outline = t.outline := by
  cases means_of_toExpr h <;> rfl

theorem exists_number_of_toExpr {text : String} (h : t.toExpr = .ok (.number text)) :
    ∃ x, t = .number x ∧ text = SampleValue.text x := by
  cases means_of_toExpr h with
  | number x => exact ⟨x, rfl, rfl⟩

theorem negated_cases (t : Term) : (∃ x, t = .number x ∧ t.negated = .number x.neg) ∨
    (∀ x, t ≠ .number x) ∧ t.negated = .minus t := by
  cases t with
  | number x => exact .inl ⟨x, rfl, rfl⟩
  | _ => exact .inr ⟨by simp, rfl⟩

theorem outline_foldSigns (t : Term) :
    t.foldSigns.outline = t.outline ∨ t.foldSigns.outline = .paren := by
  cases t with
  | minus body =>
    rw [foldSigns]
    obtain ⟨x, -, hx⟩ | ⟨-, hminus⟩ := body.foldSigns.negated_cases
    · exact .inr (hx ▸ rfl)
    · exact .inl (hminus ▸ rfl)
  | _ => exact .inl rfl

theorem exists_of_mem_children_foldSigns {u : Term} (h : u ∈ t.foldSigns.children) :
    ∃ c ∈ t.children, u = c.foldSigns := by
  cases t with
  | minus body =>
    rw [foldSigns] at h
    obtain ⟨x, -, hx⟩ | ⟨-, hminus⟩ := body.foldSigns.negated_cases
    · rw [hx] at h
      contradiction
    · rw [hminus] at h
      exact ⟨body, List.mem_cons_self, List.mem_singleton.mp h⟩
  | call name args | aggregate op grouping args =>
    rw [foldSigns, foldAllSigns_eq] at h
    obtain ⟨c, hc, rfl⟩ := List.mem_map.mp h
    exact ⟨c, hc, rfl⟩
  | binary op clauses lhs rhs =>
    rcases List.mem_pair.mp h with rfl | rfl
    · exact ⟨lhs, by simp [children], rfl⟩
    · exact ⟨rhs, by simp [children], rfl⟩
  | subquery body | paren body => exact ⟨body, List.mem_cons_self, List.mem_singleton.mp h⟩
  | number | string | selector | matrix => contradiction

theorem wraps_of_toExpr (wraps : Shape → Bool) (houtline : ∀ s, wraps s.outline = wraps s)
    (hparen : wraps .paren = false) (h : t.foldSigns.toExpr = .ok e)
    (ht : wraps t.outline = false) : wraps e.shape = false := by
  rw [← houtline, outline_toExpr h]
  rcases t.outline_foldSigns with hfold | hfold
  · rwa [hfold]
  · rwa [hfold]

end Term

namespace Expr

variable {e : Expr}

def SignsNoNumber : Expr → Prop
  | .unary sign body => sign = .minus ∧ ∀ text, body ≠ .number text
  | _ => True

structure ShowsOperands (e : Expr) : Prop where
  groups : e.shape.Groups (e.children.map shape)
  base : ¬IsNegativePower false e
  sign : e.SignsNoNumber

theorem isGrouped_of_showsOperands (h : e.Everywhere ShowsOperands) : e.IsGrouped := by
  induction h with
  | node e own below ih => exact .node e own.groups ih

end Expr

namespace Term

variable {t : Term} {e : Expr}

theorem baseSign?_ne_of_isRaw {op : BinaryOp} {clauses : OperatorClauses} {lhs rhs : Term}
    {l : Expr}
    (hraw : (binary op clauses lhs rhs).Everywhere IsRaw) (hl : lhs.foldSigns.toExpr = .ok l)
    (base : String) : l.baseSign? false op ≠ some (.minus, base) := by
  intro hbase
  obtain ⟨rfl, hsign⟩ := Expr.baseSign?_eq_some_iff.mp hbase
  obtain ⟨text, hsigned, rfl | ⟨hstrip, -⟩⟩ := Expr.exists_number_of_writtenSign? hsign
  · obtain ⟨x, hx, rfl⟩ := exists_number_of_toExpr hl
    have hparens := hraw.own.1
    have hlhs := (hraw.of_mem (List.mem_cons_self (a := lhs) (l := [rhs]))).own
    cases lhs with
    | number y =>
      obtain rfl : y = x := number.inj hx
      rw [IsRaw, Literal.isNegative_of_signed?_text hsigned] at hlhs
      contradiction
    | minus body => contradiction
    | _ => simp [foldSigns] at hx
  · contradiction

theorem showsOperands_of_isRaw (hraw : t.Everywhere IsRaw) (h : t.foldSigns.toExpr = .ok e) :
    e.ShowsOperands := by
  cases t with
  | minus body =>
    rw [foldSigns] at h
    obtain ⟨x, -, hx⟩ | ⟨hne, hminus⟩ := body.foldSigns.negated_cases
    · obtain rfl := Except.ok.inj (hx ▸ h)
      exact ⟨trivial, id, trivial⟩
    · rw [hminus] at h
      cases means_of_toExpr h with | @minus _ b hb =>
      refine ⟨wraps_of_toExpr _ Shape.needsParensAfterSign_outline rfl hb hraw.own, id, rfl, ?_⟩
      rintro text rfl
      obtain ⟨x, hx, -⟩ := exists_number_of_toExpr hb
      exact hne x hx
  | subquery =>
    cases means_of_toExpr h with | subquery hb =>
    exact ⟨wraps_of_toExpr _ Shape.needsParensInSubquery_outline rfl hb hraw.own, id, trivial⟩
  | binary op =>
    cases means_of_toExpr h with | binary hl hr =>
    refine ⟨⟨?_, ?_⟩, not_exists.mpr (baseSign?_ne_of_isRaw hraw hl), trivial⟩
    · exact wraps_of_toExpr (·.needsParens op false) (Shape.needsParens_outline · op false) rfl hl
        hraw.own.1
    · exact wraps_of_toExpr (·.needsParens op true) (Shape.needsParens_outline · op true) rfl hr
        hraw.own.2
  | _ =>
    cases means_of_toExpr h
    exact ⟨trivial, id, trivial⟩

theorem everywhere_showsOperands (hraw : t.Everywhere IsRaw) (h : t.foldSigns.toExpr = .ok e) :
    e.Everywhere Expr.ShowsOperands := by
  induction e generalizing t with
  | node e ih =>
    refine .node _ (showsOperands_of_isRaw hraw h) fun c hc => ?_
    obtain ⟨u, hu, huc⟩ := exists_left_of_mem (children_toExpr h) hc
    obtain ⟨v, hv, rfl⟩ := exists_of_mem_children_foldSigns hu
    exact ih c hc (hraw.of_mem hv) huc

end Term

end PromTree
