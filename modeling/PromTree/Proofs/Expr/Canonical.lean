import Mathlib
import PromTree.Proofs.Expr.Edited
import PromTree.Proofs.Expr.Operands
import PromTree.Proofs.Expr.Writable
import PromTree.Service

namespace PromTree

namespace Term

variable {t : Term} {e : Expr}

theorem isExempt_signedTerm {name : String} {ts : List Term} {es : List Expr}
    (hes : List.Forall₂ (fun t e => t.toExpr = .ok e) ts es) (hwritten : ∀ t ∈ ts, t.IsWritten)
    (h : isExempt name ts) : isExempt name (es.map Expr.signedTerm) := by
  cases hes with
  | nil => contradiction
  | @cons t e ts es ht hes =>
    cases t with
    | number x =>
      obtain rfl := Except.ok.inj ht
      have hvalue := Literal.signedValue?_text (hwritten _ List.mem_cons_self)
      rw [List.map_cons, Expr.signedTerm_eq, Expr.shape, Shape.signedTerm, hvalue]
      exact h
    | _ => contradiction

theorem hasAdmittedArguments_of_isWellTyped (hw : t.isWellTyped)
    (hwritten : ∀ c ∈ t.children, c.IsWritten) (h : t.toExpr = .ok e) :
    e.HasAdmittedArguments := by
  cases means_of_toExpr h with
  | call hargs =>
    have htypes := map_valueType_of_toExpr hargs fun _ => isWellTyped_of_mem_children hw
    intro f hf
    rw [Signature.name_ofCall] at hf ⊢
    simp only [isWellTyped, hf, Bool.and_eq_true, Bool.or_eq_true] at hw
    exact hw.1.2.imp (isExempt_signedTerm hargs hwritten) fun h => htypes ▸ h
  | _ => trivial

theorem everywhere_hasAdmittedArguments (hw : t.isWellTyped) (hwritten : t.Everywhere IsWritten)
    (h : t.toExpr = .ok e) : e.Everywhere Expr.HasAdmittedArguments := by
  induction e generalizing t with
  | node e ih =>
    have hbelow {c : Term} (hc : c ∈ t.children) := hwritten.of_mem hc
    refine .node _ (hasAdmittedArguments_of_isWellTyped hw (fun _ hc => (hbelow hc).own) h) ?_
    intro c hc
    obtain ⟨u, hu, huc⟩ := exists_left_of_mem (children_toExpr h) hc
    exact ih c hc (isWellTyped_of_mem_children hw hu) (hbelow hu) huc

end Term

namespace Expr

variable {e : Expr}

theorem isGrouped_leaf (h : e.children = []) : e.IsGrouped := by
  refine .node _ ?_ (h ▸ List.forall_mem_nil _)
  cases e <;> trivial

theorem isGrouped_spelled (hg : e.IsGrouped) (hw : e.Everywhere (¬HasSignedWindow false ·)) :
    (e.spelled false).IsGrouped := by
  induction e with
  | node e ih =>
    replace ih (c : Expr) (hc : c ∈ e.children) := ih c hc (hg.of_mem hc) (hw.of_mem hc)
    cases e with
    | aggregation op grouping param body =>
      cases param <;> exact .node _ trivial (by simpa [spelled, children] using ih)
    | binary op matching returnBool lhs rhs =>
      have hlhs := ih lhs (by simp [children])
      have hrhs := ih rhs (by simp [children])
      obtain ⟨⟨hleft, hright⟩, -⟩ := isGrouped_binary.mp hg
      have hright' : (rhs.spelled false).shape.needsParens op true = false :=
        (needsParens_spelled fun _ h => absurd h (by decide)).trans hright
      obtain ⟨sign, base, rfl, -, heq⟩ | ⟨hnone, heq⟩ :=
        spelled_binary_cases false op matching returnBool lhs rhs
      · rw [heq]
        exact isGrouped_unary.mpr ⟨rfl,
          isGrouped_binary.mpr ⟨⟨rfl, hright'⟩, isGrouped_leaf rfl, hrhs⟩⟩
      · have hleft' : (lhs.spelled false).shape.needsParens op false = false :=
          (needsParens_spelled fun hop _ => hnone hop).trans hleft
        rw [heq]
        exact isGrouped_binary.mpr ⟨⟨hleft', hright'⟩, hlhs, hrhs⟩
    | call func args =>
      exact .node _ trivial (by simpa [spelled, spelledAll_eq, children] using ih)
    | subquery window body =>
      obtain ⟨hbody, -⟩ := isGrouped_subquery.mp hg
      have hwrap := needsParensInSubquery_spelled (not_ne_iff.mp hw.own)
      exact isGrouped_subquery.mpr ⟨hwrap.trans hbody, ih body (by simp [children])⟩
    | number text =>
      rw [spelled]
      split
      · exact isGrouped_unary.mpr ⟨rfl, isGrouped_leaf rfl⟩
      · exact hg
    | paren body => exact .node _ trivial (by simpa [spelled, children] using ih)
    | unary sign body =>
      obtain ⟨hbody, -⟩ := isGrouped_unary.mp hg
      exact isGrouped_unary.mpr ⟨(needsParensAfterSign_spelled body).trans hbody,
        ih body (by simp [children])⟩
    | placeholder children' =>
      exact .node _ trivial (by simpa [spelled, spelledAll_eq, children] using ih)
    | _ => exact hg

theorem isNumber_of_signedTerm {x : Binary64} (h : e.ShowsOperands)
    (hx : e.signedTerm = .number x) : ∃ text, e = .number text := by
  rw [signedTerm_eq] at hx
  cases e with
  | number text => exact ⟨text, rfl⟩
  | unary sign body =>
    obtain ⟨rfl, -⟩ := h.sign
    contradiction
  | _ => simp [shape, children, Shape.signedTerm, Shape.term] at hx

theorem foldSigns_term_spelled_number (text : String) :
    ((number text).spelled false).term.foldSigns = (number text).signedTerm := by
  rw [spelled, signedTerm_eq]
  simp only [shape, Shape.signedTerm, Literal.signedValue?, Literal.unsigned]
  split
  · rename_i sign unsigned hsigned
    rw [hsigned]
    cases sign <;> cases hvalue : Literal.value? unsigned <;>
      simp [term_eq, shape, children, Shape.term, hvalue, Term.signed, Term.foldSigns, Term.negated,
        Binary64.neg]
  · rename_i hsigned
    simp [hsigned, term_eq, shape, Shape.term, Term.foldSigns]

theorem foldSigns_term_spelled (h : e.Everywhere ShowsOperands) :
    (e.spelled false).term.foldSigns = e.signedTerm := by
  induction e with
  | node e ih =>
    replace ih (c : Expr) (hc : c ∈ e.children) := ih c hc (h.of_mem hc)
    rw [signedTerm_eq]
    cases e with
    | aggregation op grouping param body =>
      have hbody := ih body (by simp [children])
      cases param with
      | none =>
        simp [spelled, term_eq (aggregation ..), shape, children, Shape.term, Shape.signedTerm,
          Term.foldSigns, Term.foldAllSigns_eq, hbody]
      | some param =>
        have hparam := ih param (by simp [children])
        simp [spelled, term_eq (aggregation ..), shape, children, Shape.term, Shape.signedTerm,
          Term.foldSigns, Term.foldAllSigns_eq, hparam, hbody]
    | binary op matching returnBool lhs rhs =>
      have hlhs := ih lhs (by simp [children])
      have hrhs := ih rhs (by simp [children])
      obtain ⟨sign, base, rfl, hsign, heq⟩ | ⟨-, heq⟩ :=
        spelled_binary_cases false op matching returnBool lhs rhs
      · cases sign with
        | minus => exact absurd ⟨base, baseSign?_eq_some_iff.mpr ⟨rfl, hsign⟩⟩ h.own.base
        | plus =>
          rw [spelled_of_writtenSign? hsign] at hlhs
          simp [heq, term_eq (unary ..), term_eq (binary ..), shape, children, Shape.term,
            Shape.signedTerm, Term.signed, Term.foldSigns, ← hlhs, hrhs]
      · simp [heq, term_eq (binary ..), shape, children, Shape.term, Shape.signedTerm,
          Term.foldSigns, hlhs, hrhs]
    | call func args =>
      have hargs := List.map_congr_left ih
      simp [spelled, term_eq (call ..), shape, children, Shape.term, Shape.signedTerm,
        spelledAll_eq, Term.foldSigns, Term.foldAllSigns_eq]
      exact ih
    | subquery window body =>
      have hbody := ih body (by simp [children])
      simp [spelled, term_eq (subquery ..), shape, children, Shape.term, Shape.signedTerm,
        Term.foldSigns, hbody]
    | number text => exact (foldSigns_term_spelled_number text).trans (signedTerm_eq _)
    | paren body =>
      have hbody := ih body (by simp [children])
      simp [spelled, term_eq (paren ..), shape, children, Shape.term, Shape.signedTerm,
        Term.foldSigns, hbody]
    | unary sign body =>
      have hbody := ih body (by simp [children])
      obtain ⟨rfl, hnumber⟩ := h.own.sign
      -- a sign before a number would be part of it, so this one stays
      have hnegated : body.signedTerm.negated = .minus body.signedTerm := by
        obtain ⟨x, hx, -⟩ | ⟨-, hminus⟩ := body.signedTerm.negated_cases
        · obtain ⟨text, rfl⟩ := isNumber_of_signedTerm (h.of_mem (by simp [children])).own hx
          exact absurd rfl (hnumber text)
        · exact hminus
      simp [spelled, term_eq (unary ..), shape, children, Shape.term, Shape.signedTerm,
        Term.signed, Term.foldSigns, hbody, hnegated]
    | placeholder cs => simp [spelled, term_eq (placeholder ..), shape, Shape.term,
        Shape.signedTerm, Term.foldSigns]
    | _ => rfl

/-- The text of an expression that has been parsed is parsed as just that expression, as long as it
can state the names and the times. So formatting a query once more changes nothing. -/
theorem parse_text_of_parse {text : String} (h : Query.parse text = .ok e)
    (hnames : e.Everywhere (·.shape.HasBareNames))
    (htimes : e.Everywhere (·.shape.HasWritableTimes)) :
    Query.parse e.text = .ok e ∧ FormatRequest.answer ⟨some e.text, none, false⟩ =
      FormatRequest.answer ⟨some text, none, false⟩ := by
  suffices hparse : Query.parse e.text = .ok e by
    refine ⟨hparse, ?_⟩
    simp only [FormatRequest.answer, FormatRequest.target, hparse, h]
  obtain ⟨t, hread, hw, he⟩ := Query.parse_eq_ok_iff.mp h
  have hstated := isStated_of_parse h
  have hr := isSignedReadable_of_isStated hstated hnames htimes
  have hshows := Term.everywhere_showsOperands (Query.everywhere_isRaw_of_read hread) he
  have hwindow : e.Everywhere (¬HasSignedWindow false ·) := not_hasSignedWindow hstated
  have hwritten := Term.everywhere_isWritten_foldSigns (Query.everywhere_isWritten_of_read hread)
  have hread' := read_text_of_isGrouped (isReadable_spelled false hr)
    (isGrouped_spelled (isGrouped_of_showsOperands hshows) hwindow)
  rw [← render_eq_text_spelled hr hwindow 0] at hread'
  refine Query.parse_eq_ok_iff.mpr ⟨_, hread', ?_, ?_⟩
  · rw [foldSigns_term_spelled hshows]
    exact isWellTyped_signedTerm hstated (Term.everywhere_hasAdmittedArguments hw hwritten he)
  · rw [foldSigns_term_spelled hshows]
    exact toExpr_signedTerm hstated

-- The number with a place after the point takes more than the usual depth to evaluate.
set_option maxRecDepth 20000 in
theorem parse_text_negatedSelector :
    let e : Expr := .binary .pow none false (.paren (.number "-2")) (.unary .minus
      (.vectorSelector ⟨"up", [⟨.equal, "job", "api"⟩], ⟨3600000, some 1500, none⟩⟩))
    Query.parse "( -2) ^ - up\x7bjob=\"api\"\x7d offset 60m @ 1.5" = .ok e ∧
      e.text = "(-2) ^ -up\x7bjob=\"api\"\x7d @ 1.500 offset 1h" ∧ Query.parse e.text = .ok e := by
  intro e
  have hparse : Query.parse "( -2) ^ - up\x7bjob=\"api\"\x7d offset 60m @ 1.5" = .ok e := by cbv
  have hnames : e.Everywhere (·.shape.HasBareNames) := by decide +kernel
  have htimes : e.Everywhere (·.shape.HasWritableTimes) := by decide +kernel
  exact ⟨hparse, by decide +kernel, (parse_text_of_parse hparse hnames htimes).1⟩

/-- A label name that needs quotes is printed without them. -/
theorem parse_text_quotedName :
    let e : Expr := .vectorSelector ⟨"", [⟨.equal, "quoted name", "x"⟩], .zero⟩
    Query.parse "\x7b\"quoted name\"=\"x\"\x7d" = .ok e ∧ e.text = "\x7bquoted name=\"x\"\x7d" ∧
      Query.parse e.text = .error .malformed := by
  intro e
  exact ⟨by cbv, by decide +kernel, by cbv⟩

end Expr

end PromTree
