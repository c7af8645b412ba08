import Mathlib
import PromTree.Proofs.Expr.Stated

namespace PromTree.Expr

/-- What is parsed, or comes from that by taking parts and by replacing parts by others of the same
type. -/
inductive Edited : Expr → Prop where
  | parsed {text : String} {e : Expr} (h : Query.parse text = .ok e) : Edited e
  | part {e c : Expr} {p : Position} (he : Edited e) (h : e.subterm? p = some c) : Edited c
  | replaced {e old new : Expr} {p : Position} (he : Edited e) (hnew : Edited new)
    (hold : e.subterm? p = some old) (htype : new.valueType = old.valueType) :
    Edited (e.replaceAt p new)

variable {strip : Bool} {e : Expr}

theorem isStated_of_parse {text : String} (h : Query.parse text = .ok e) : e.IsStated := by
  obtain ⟨t, hread, hw, he⟩ := Query.parse_eq_ok_iff.mp h
  have hwritten := Term.everywhere_isWritten_foldSigns (Query.everywhere_isWritten_of_read hread)
  exact Term.isStated_of_toExpr hw hwritten he

theorem isStated_subterm {c : Expr} {p : Position} (he : e.IsStated) (h : e.subterm? p = some c) :
    c.IsStated := by
  induction p generalizing e with
  | nil => exact Option.some.inj h ▸ he
  | cons i p ih =>
    obtain ⟨d, hd, hc⟩ := Option.bind_eq_some_iff.mp h
    exact ih (he.of_mem (List.mem_of_getElem? hd)) hc

theorem Edited.isStated (h : Edited e) : e.IsStated := by
  induction h with
  | parsed h => exact isStated_of_parse h
  | part _ h ih => exact isStated_subterm ih h
  | replaced _ _ hold htype ih ihnew => exact (isStated_replaceAt ih ihnew hold htype).1

theorem valueType_of_writtenSign? {sign : Sign} {unsigned : String}
    (h : e.writtenSign? strip = some (sign, unsigned)) : e.valueType = .scalar := by
  obtain ⟨text, -, rfl | ⟨-, rfl⟩⟩ := exists_number_of_writtenSign? h <;> rfl

theorem not_hasSignedWindow (h : e.IsStated) : e.Everywhere (¬HasSignedWindow strip ·) := by
  refine h.mono fun e hown => ?_
  cases e with
  | subquery window body =>
    have hvector : body.valueType = .vector := (List.cons.inj hown.1).1
    refine not_ne_iff.mpr (Option.eq_none_iff_forall_ne_some.mpr fun sign hsign => ?_)
    rw [valueType_of_writtenSign? hsign] at hvector
    contradiction
  | _ => exact id

/-- The text of an edited expression is parsed as the same expression but for its parentheses, as
long as no power has a negative base. -/
theorem exists_parse_render (strip : Bool) (he : Edited e) (hr : e.IsSignedReadable)
    (ha : e.Everywhere HasTypedArguments) (hp : e.Everywhere (¬IsNegativePower strip ·)) :
    ∃ e', Query.parse (e.render ⟨false, strip⟩ 0) = .ok e' ∧ e'.plain = e.plain := by
  have hs := he.isStated
  obtain ⟨t, hread, hkept⟩ := exists_read_render strip hr (not_hasSignedWindow hs)
  have hplain : t.foldSigns.plain = e.signedTerm.plain := t.plain_foldSigns.trans (hkept.mpr hp)
  have htyped : t.foldSigns.Everywhere Term.TypedArguments := by
    rw [← Term.everywhere_typedArguments_plain, hplain, Term.everywhere_typedArguments_plain]
    exact typedArguments_signedTerm hs ha
  have hw : t.foldSigns.isWellTyped := by
    rw [← Term.isWellTyped_plain htyped, hplain,
      Term.isWellTyped_plain (typedArguments_signedTerm hs ha)]
    exact isWellTyped_signedTerm hs (ha.mono fun _ => HasTypedArguments.admitted)
  have hexpr : t.foldSigns.plain.toExpr = .ok e.plain :=
    hplain ▸ Term.toExpr_plain (toExpr_signedTerm hs)
  obtain ⟨e', he'⟩ := Term.exists_toExpr_of_plain hexpr
  refine ⟨e', Query.parse_eq_ok_iff.mpr ⟨t, hread, hw, he'⟩, ?_⟩
  exact Except.ok.inj ((Term.toExpr_plain he').symm.trans hexpr)

theorem exists_parse_render_exponent :
    let e : Expr :=
      .binary .pow none false (.paren (.vectorSelector ⟨"up", [], .zero⟩)) (.number "-1")
    Edited e ∧ ∃ e', Query.parse "up ^ -1" = .ok e' ∧ e'.plain = e.plain := by
  intro e
  have hpower : Query.parse "(up) ^ 2" = .ok (.binary .pow none false
      (.paren (.vectorSelector ⟨"up", [], .zero⟩)) (.number "2")) := by cbv
  have hnew : Query.parse "-1" = .ok (.number "-1") := by cbv
  have hedited : Edited e := .replaced (p := [1]) (.parsed hpower) (.parsed hnew) rfl rfl
  have htext : e.render ⟨false, true⟩ 0 = "up ^ -1" := by cbv
  have hall {P : Expr → Prop} (hbase : P (.paren (.vectorSelector ⟨"up", [], .zero⟩)))
      (hup : P (.vectorSelector ⟨"up", [], .zero⟩)) (hnumber : P (.number "-1")) (hown : P e) :
      e.Everywhere P :=
    .node _ hown (List.forall_mem_cons.mpr
      ⟨.node _ hbase (List.forall_mem_singleton.mpr (.node _ hup (List.forall_mem_nil _))),
        List.forall_mem_singleton.mpr (.node _ hnumber (List.forall_mem_nil _))⟩)
  have hkept := exists_parse_render true hedited (by decide +kernel)
    (hall trivial trivial trivial trivial)
    (hall id id id (by simp [e, IsNegativePower, baseSign?, writtenSign?]))
  exact ⟨hedited, htext ▸ hkept⟩

/-- A negative literal comes to be a base in two ways: an edit puts it there, or the parentheses
around it are left out. -/
theorem parse_render_negativeBase :
    let power (base : Expr) : Expr := .binary .pow none false base (.number "2")
    Edited (power (.number "-1")) ∧ (power (.number "-1")).render ⟨false, false⟩ 0 = "-1 ^ 2" ∧
      Edited (power (.paren (.number "-1"))) ∧
      (power (.paren (.number "-1"))).render ⟨false, true⟩ 0 = "-1 ^ 2" ∧
      ∃ e', Query.parse "-1 ^ 2" = .ok e' ∧ e'.plain ≠ (power (.number "-1")).plain := by
  intro power
  have hpower : Query.parse "1 ^ 2" = .ok (power (.number "1")) := by cbv
  have hparen : Query.parse "(-1) ^ 2" = .ok (power (.paren (.number "-1"))) := by cbv
  have hnew : Query.parse "-1" = .ok (.number "-1") := by cbv
  have hread : Query.parse "-1 ^ 2" = .ok (.unary .minus (power (.number "1"))) := by cbv
  refine ⟨.replaced (p := [0]) (.parsed hpower) (.parsed hnew) rfl rfl, by cbv, .parsed hparen,
    by cbv, _, hread, ?_⟩
  simp [power, plain, negated]

end PromTree.Expr
