import Mathlib
import PromTree.Explanation
import PromTree.Proofs.Matching.Table
import PromTree.Proofs.Query.Meaning

namespace PromTree

open Std.Do

set_option mvcgen.warning false

def Explanation.Fits : Explanation → ValueType → ValueType → Prop
  | .scalars .., l, r => l = .scalar ∧ r = .scalar
  | .vectorScalar _ true _, l, r => l = .scalar ∧ r = .vector
  | .vectorScalar _ false _, l, r => l = .vector ∧ r = .scalar
  | .vectors _, l, r => l = .vector ∧ r = .vector

def Reply.HasType (type : ValueType) (reply : Reply) : Prop :=
  ∃ result, reply = .ok result ∧ result.valueType = type

namespace BinaryPlan

structure Admits (p : BinaryPlan) (l r : ValueType) : Prop where
  left : l = .scalar ∨ l = .vector
  right : r = .scalar ∨ r = .vector
  sets : p.op.isSetOperator → l = .vector ∧ r = .vector
  matching : l = .vector → r = .vector → p.matching.isSome

variable {p : BinaryPlan}

theorem Admits.exists_elementwise {l r : ValueType} (h : p.Admits l r)
    (hs : l = .scalar ∨ r = .scalar) : ∃ f, p.op.elementwise? = some f := by
  cases hf : p.op.elementwise? with
  | some f => exact ⟨f, rfl⟩
  | none =>
    obtain ⟨rfl, rfl⟩ := h.sets (BinaryOp.isSetOperator_of_elementwise? hf)
    rcases hs with hs | hs <;> contradiction

theorem exists_explainScalars {f : Float → Float → Outcome} (hf : p.op.elementwise? = some f)
    (l r : Float) : ∃ result, p.explainScalars l r = .ok (.scalars l r result) := by
  rw [explainScalars, BinaryOp.onScalars?, hf]
  exact ⟨_, rfl⟩

theorem exists_explainVectorScalar {f : Float → Float → Outcome} (hf : p.op.elementwise? = some f)
    (vector : List Sample) (scalar : Float) (scalarLeft : Bool) : ∃ rows,
      p.explainVectorScalar vector scalar scalarLeft = .ok (.vectorScalar scalar scalarLeft rows) := by
  rw [explainVectorScalar, ScalarRow.ofVector?, hf]
  exact ⟨_, rfl⟩

theorem exists_explain {l r : QueryResult} (h : p.Admits l.valueType r.valueType)
    (limits : MatchLimits) :
    ∃ x, p.explain limits l r = .ok x ∧ x.Fits l.valueType r.valueType := by
  cases l with
  | scalar lp =>
    obtain ⟨f, hf⟩ := h.exists_elementwise (.inl rfl)
    cases r with
    | scalar rp =>
      obtain ⟨result, hresult⟩ := exists_explainScalars hf lp.value rp.value
      exact ⟨_, hresult, rfl, rfl⟩
    | vector rv =>
      obtain ⟨rows, hrows⟩ := exists_explainVectorScalar hf rv lp.value true
      exact ⟨_, hrows, rfl, rfl⟩
    | matrix | string => exact absurd h.right (by simp [QueryResult.valueType])
  | vector lv =>
    cases r with
    | scalar rp =>
      obtain ⟨f, hf⟩ := h.exists_elementwise (.inr rfl)
      obtain ⟨rows, hrows⟩ := exists_explainVectorScalar hf lv rp.value false
      exact ⟨_, hrows, rfl, rfl⟩
    | vector rv =>
      obtain ⟨m, hm⟩ := Option.isSome_iff_exists.mp (h.matching rfl rfl)
      refine ⟨.vectors (.compute p.op m p.returnBool lv rv limits), ?_, rfl, rfl⟩
      simp only [explain, explainVectors, hm]
    | matrix | string => exact absurd h.right (by simp [QueryResult.valueType])
  | matrix | string => exact absurd h.left (by simp [QueryResult.valueType])

theorem ofExpr_of_parse {text : String} {e lhs rhs : Expr} {op : BinaryOp}
    {matching : Option VectorMatching} {returnBool : Bool} (he : Query.parse text = .ok e)
    (hb : e.stripParens = .binary op matching returnBool lhs rhs) :
    ofExpr e = .ok ⟨op, matching, returnBool, lhs.text, rhs.text⟩ ∧
      Admits ⟨op, matching, returnBool, lhs.text, rhs.text⟩ lhs.valueType rhs.valueType := by
  obtain ⟨t, -, hw, ht⟩ := Query.parse_eq_ok_iff.mp he
  have hsubmittable : e.isSubmittable := by
    rw [Expr.isSubmittable, Term.containsPlaceholder_of_toExpr ht, Bool.not_false]
  obtain ⟨clauses, hc, rfl⟩ := Term.exists_clauses_of_toExpr hw ht hb
  constructor
  · rw [ofExpr, hb]
    exact if_pos hsubmittable
  · simp only [Term.admitsOperands, Bool.and_eq_true, Bool.or_eq_true, Bool.not_eq_true',
      beq_iff_eq] at hc
    obtain ⟨⟨⟨⟨⟨⟨hl, hr⟩, -⟩, -⟩, hset⟩, -⟩, -⟩ := hc
    refine ⟨hl, hr, fun hs => ?_, fun hl hr => ?_⟩
    · exact (hset.resolve_left (by simp [hs])).1
    · simp [hl, hr]

end BinaryPlan

namespace Explanation

/-- What was parsed as a binary expression is explained, whatever its operands come to. -/
theorem explains_parsed {m : Type → Type} {ps : PostShape} [Monad m] [WPMonad m ps] {text : String}
    {e lhs rhs : Expr} {op : BinaryOp} {matching : Option VectorMatching} {returnBool : Bool}
    (he : Query.parse text = .ok e) (hb : e.stripParens = .binary op matching returnBool lhs rhs)
    (ask : String → m Reply)
    (hl : ⦃⌜True⌝⦄ ask lhs.text ⦃⇓ reply => ⌜reply.HasType lhs.valueType⌝⦄)
    (hr : ⦃⌜True⌝⦄ ask rhs.text ⦃⇓ reply => ⌜reply.HasType rhs.valueType⌝⦄)
    (limits : MatchLimits) :
    ⦃⌜True⌝⦄ ofExpr ask limits e
      ⦃⇓ answer => ⌜∃ x, answer = .ok x ∧ x.Fits lhs.valueType rhs.valueType⌝⦄ := by
  obtain ⟨hplan, hadmits⟩ := BinaryPlan.ofExpr_of_parse he hb
  rw [ofExpr, hplan]
  mvcgen [hl, hr]
  case vc1.success.success left hleft right hright =>
    obtain ⟨l, rfl, hlt⟩ := hleft
    obtain ⟨r, rfl, hrt⟩ := hright
    rw [← hlt, ← hrt] at hadmits ⊢
    mpure_intro
    exact BinaryPlan.exists_explain hadmits limits

def recordingAsk (text : String) : StateM (List String) Reply := do
  modify (text :: ·)
  pure (.ok (if text = "time()" then .scalar ⟨.zero false, "1"⟩ else .vector []))

theorem explains_parsed_scalarLeft :
    let lhs : Expr := .call ⟨"time", [], 0, .scalar⟩ []
    let rhs : Expr := .paren (.unary .minus (.vectorSelector ⟨"up", [], .zero⟩))
    let e : Expr := .paren (.binary .gtr none true lhs rhs)
    Query.parse "(time() > bool (-up))" = .ok e ∧ e.stripParens = .binary .gtr none true lhs rhs ∧
      ⦃⌜True⌝⦄ recordingAsk lhs.text ⦃⇓ reply => ⌜reply.HasType lhs.valueType⌝⦄ ∧
      ⦃⌜True⌝⦄ recordingAsk rhs.text ⦃⇓ reply => ⌜reply.HasType rhs.valueType⌝⦄ ∧
      ⦃⌜True⌝⦄ ofExpr recordingAsk .unlimited e
        ⦃⇓ answer => ⌜∃ x, answer = .ok x ∧ x.Fits .scalar .vector⌝⦄ := by
  intro lhs rhs e
  have he : Query.parse "(time() > bool (-up))" = .ok e := by cbv
  have hl : ⦃⌜True⌝⦄ recordingAsk lhs.text ⦃⇓ reply => ⌜reply.HasType lhs.valueType⌝⦄ := by
    mvcgen [recordingAsk]
    exact ⟨_, rfl, by rw [if_pos (by decide +kernel)]; rfl⟩
  have hr : ⦃⌜True⌝⦄ recordingAsk rhs.text ⦃⇓ reply => ⌜reply.HasType rhs.valueType⌝⦄ := by
    mvcgen [recordingAsk]
    exact ⟨_, rfl, by rw [if_neg (by decide +kernel)]; rfl⟩
  exact ⟨he, rfl, hl, hr, explains_parsed he rfl recordingAsk hl hr .unlimited⟩

end Explanation

end PromTree
