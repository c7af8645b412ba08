import PromTree.Proofs.Decimal.Text
import PromTree.Proofs.Expr.Term
import PromTree.Proofs.Query.Meaning

namespace PromTree

namespace SampleValue

def negatedChars : List Char → List Char
  | ['N', 'a', 'N'] => ['N', 'a', 'N']
  | ['-', 'I', 'n', 'f'] => ['+', 'I', 'n', 'f']
  | '+' :: cs => '-' :: cs
  | '-' :: cs => cs
  | cs => '-' :: cs

theorem negatedChars_digit {c : Char} (hc : c.isDigit) (cs : List Char) :
    negatedChars (c :: cs) = '-' :: c :: cs := by
  have hne (d : Char) (hd : d.isDigit = false) : c ≠ d := by
    rintro rfl
    rw [hc] at hd
    contradiction
  rw [negatedChars]
  · exact fun h => hne 'N' rfl (List.cons.inj h).1
  · exact fun h => hne '-' rfl (List.cons.inj h).1
  · exact fun _ h => hne '+' rfl (List.cons.inj h).1
  · exact fun _ h => hne '-' rfl (List.cons.inj h).1

theorem negatedChars_chars (x : Binary64) : negatedChars (chars x) = chars x.neg := by
  cases x with
  | nan => rfl
  | infinite negative => cases negative <;> rfl
  | finite negative m e =>
    obtain ⟨c, cs, hcs, hc⟩ := (Decimal.shortest m e).exists_cons_positional
    cases negative with
    | false =>
      rw [chars, hcs, negatedChars_digit hc, Binary64.neg, Bool.not_false, chars, hcs]
    | true =>
      rw [chars, hcs, Binary64.neg, Bool.not_true, chars, hcs, negatedChars]
      intro h
      rw [(List.cons.inj h).1] at hc
      contradiction

def negatedText (text : String) : String := String.ofList (negatedChars text.toList)

theorem negatedText_text (x : Binary64) : negatedText (text x) = text x.neg := by
  rw [negatedText, text, String.toList_ofList, negatedChars_chars, text]

end SampleValue

namespace Term

theorem sizeOf_lt_of_mem_children {t c : Term} (h : c ∈ t.children) : sizeOf c < sizeOf t := by
  cases t with
  | call | aggregate =>
    have hlt := List.sizeOf_lt_of_mem h
    simp only [children, call.sizeOf_spec, aggregate.sizeOf_spec] at hlt ⊢
    omega
  | _ => grind [children]

@[elab_as_elim]
theorem induct {P : Term → Prop} (node : ∀ t, (∀ c ∈ t.children, P c) → P t) (t : Term) : P t :=
  node t fun c h =>
    have := sizeOf_lt_of_mem_children h
    induct node c
termination_by t

abbrev Everywhere (P : Term → Prop) (t : Term) : Prop := Hereditarily children P t

def plain (t : Term) : Term := t.withoutParens.foldSigns

theorem foldAllSigns_eq (ts : List Term) : foldAllSigns ts = ts.map foldSigns := by
  induction ts with
  | nil => rfl
  | cons t ts ih => rw [foldAllSigns, ih, List.map_cons]

@[simp]
theorem plain_number (x : Binary64) : (number x).plain = number x := rfl

@[simp]
theorem plain_subquery (body : Term) (range : Span) (step : Option Span) (modifiers : Modifiers) :
    (subquery body range step modifiers).plain = subquery body.plain range step modifiers := rfl

@[simp]
theorem plain_paren (body : Term) : (paren body).plain = body.plain := rfl

@[simp]
theorem plain_minus (body : Term) : (minus body).plain = body.plain.negated := rfl

@[simp]
theorem plain_binary (op : BinaryOp) (clauses : OperatorClauses) (lhs rhs : Term) :
    (binary op clauses lhs rhs).plain = binary op clauses lhs.plain rhs.plain := rfl

@[simp]
theorem plain_signed (negative : Bool) (t : Term) :
    (signed negative t).plain = if negative then t.plain.negated else t.plain := by
  cases negative <;> rfl

@[simp]
theorem plain_call (name : String) (args : List Term) :
    (call name args).plain = call name (args.map plain) := by
  rw [plain, withoutParens, foldSigns, foldAllSigns_eq, withoutParensAll_eq, List.map_map]
  rfl

@[simp]
theorem plain_aggregate (op : AggregatorWord) (grouping : Option Grouping) (args : List Term) :
    (aggregate op grouping args).plain = aggregate op grouping (args.map plain) := by
  rw [plain, withoutParens, foldSigns, foldAllSigns_eq, withoutParensAll_eq, List.map_map]
  rfl

theorem plain_negated (t : Term) : t.negated.plain = t.plain.negated := by
  cases t <;> rfl

theorem negated_injective : Function.Injective negated := by
  intro t u h
  have hneg (x : Binary64) : x.neg.neg = x := by cases x <;> simp [Binary64.neg]
  cases t <;> cases u <;> simp_all [negated]
  rename_i x y
  rw [← hneg x, h, hneg]

theorem plain_foldSigns (t : Term) : t.foldSigns.plain = t.plain := by
  induction t using induct with
  | node t ih =>
    cases t with
    | minus body =>
      rw [foldSigns, plain_negated, ih body (by simp [children]), plain_minus]
    | call name args | aggregate op grouping args =>
      rw [foldSigns, foldAllSigns_eq]
      simpa [children] using ih
    | _ => simp_all [foldSigns, children]

theorem type_negated (t : Term) : t.negated.type = t.type := by
  cases t <;> simp [negated, type]

theorem type_plain (t : Term) : t.plain.type = t.type := by
  induction t using induct with
  | node t ih =>
    cases t with
    | minus body => rw [plain_minus, type_negated, ih body (by simp [children]), type]
    | _ => simp_all [type, children] <;> rfl

end Term

namespace Expr

def negated : Expr → Expr
  | .number text => .number (SampleValue.negatedText text)
  | e => .unary .minus e

mutual

/-- An expression without its parentheses, where a minus before a number is part of the number. -/
def plain : Expr → Expr
  | .aggregation op grouping none body => .aggregation op grouping none body.plain
  | .aggregation op grouping (some param) body =>
    .aggregation op grouping (some param.plain) body.plain
  | .binary op matching returnBool lhs rhs => .binary op matching returnBool lhs.plain rhs.plain
  | .call func args => .call func (plainAll args)
  | .subquery window body => .subquery window body.plain
  | .paren body => body.plain
  | .unary .minus body => body.plain.negated
  | .unary .plus body => .unary .plus body.plain
  | .placeholder children => .placeholder (plainAll children)
  | e => e

def plainAll : List Expr → List Expr
  | [] => []
  | e :: es => e.plain :: plainAll es

end

theorem plainAll_eq (es : List Expr) : plainAll es = es.map plain := by
  induction es with
  | nil => rfl
  | cons e es ih => rw [plainAll, ih, List.map_cons]

theorem valueType_negated (e : Expr) : e.negated.valueType = e.valueType := by
  cases e with
  | number text => rfl
  | _ =>
    rw [negated, valueType_eq (unary ..)]
    · rfl
    · exact nofun

theorem valueType_plain (e : Expr) : e.plain.valueType = e.valueType := by
  induction e with
  | node e ih =>
    cases e with
    | aggregation op grouping param body => cases param <;> rfl
    | binary op matching returnBool lhs rhs =>
      have hlhs := ih lhs (by simp [children])
      have hrhs := ih rhs (by simp [children])
      rw [plain, valueType_eq, valueType_eq (binary ..)]
      simp [shape, children, hlhs, hrhs, typeOf]
    | paren body =>
      rw [plain, ih body (by simp [children]), valueType_eq (paren body)]
      rfl
    | unary sign body =>
      have hbody := ih body (by simp [children])
      cases sign with
      | plus =>
        rw [plain, valueType_eq, valueType_eq (unary ..)]
        simp [shape, children, hbody, typeOf]
      | minus =>
        rw [plain, valueType_negated, hbody, valueType_eq (unary ..)]
        rfl
    | _ => rfl

end Expr

namespace Term

theorem toExpr_negated {t : Term} {e : Expr} (h : t.toExpr = .ok e) :
    t.negated.toExpr = .ok e.negated := by
  have hminus : t.minus.toExpr = .ok (.unary .minus e) := by
    rw [toExpr, h]
    rfl
  cases means_of_toExpr h with
  | number x => rw [negated, toExpr, Expr.negated, SampleValue.negatedText_text]
  | _ => exact hminus

theorem toExpr_aggregate {op : Aggregator} {grouping : Option Grouping} {args : List Term}
    {p : Option Expr} {body : Expr}
    (h : List.Forall₂ (fun t e => t.toExpr = .ok e) args (p.toList ++ [body])) :
    (aggregate (.known op) grouping args).toExpr =
      .ok (.aggregation op (grouping.getD ⟨[], false⟩) p body) := by
  cases p with
  | none =>
    obtain _ | ⟨hb, _ | _⟩ := h
    rw [toExpr, hb]
    rfl
  | some p =>
    obtain _ | ⟨hp, _ | ⟨hb, _ | _⟩⟩ := h
    rw [toExpr, hp, hb]
    rfl

theorem forall₂_plain {ts : List Term} {es : List Expr}
    (h : List.Forall₂ (fun t e => t.toExpr = .ok e) ts es)
    (hplain : ∀ t ∈ ts, ∀ {e}, t.toExpr = .ok e → t.plain.toExpr = .ok e.plain) :
    List.Forall₂ (fun t e => t.toExpr = .ok e) (ts.map plain) (es.map Expr.plain) := by
  induction h with
  | nil => exact .nil
  | cons ht _ ih =>
    rw [List.forall_mem_cons] at hplain
    exact .cons (hplain.1 ht) (ih hplain.2)

theorem toExpr_plain {t : Term} {e : Expr} (h : t.toExpr = .ok e) :
    t.plain.toExpr = .ok e.plain := by
  induction t using induct generalizing e with
  | node t ih =>
    have hsame := h
    cases means_of_toExpr h with
    | number | string => rfl
    | selector | matrix => exact hsame
    | @subquery body range step m b hb =>
      simp only [plain_subquery, toExpr, ih body (by simp [children]) hb]
      rfl
    | @paren body b hb => rw [plain_paren, ih body (by simp [children]) hb, Expr.plain]
    | @minus body b hb =>
      rw [plain_minus, toExpr_negated (ih body (by simp [children]) hb), Expr.plain]
    | @binary op clauses lhs rhs l r hl hr =>
      simp only [plain_binary, toExpr, ih lhs (by simp [children]) hl,
        ih rhs (by simp [children]) hr, Expr.plain, ← l.valueType_plain, ← r.valueType_plain]
      rfl
    | call hes =>
      have hplain := toExprs_eq_ok_iff.mpr (forall₂_plain hes ih)
      rw [plain_call, toExpr, hplain, Expr.plain, Expr.plainAll_eq]
      rfl
    | @aggregate op grouping args param body hargs =>
      have hplain := forall₂_plain hargs ih
      rw [List.map_append, ← Option.toList_map] at hplain
      rw [plain_aggregate, toExpr_aggregate hplain]
      cases param <;> rfl

def TypedArguments : Term → Prop
  | .call name args => ∀ f, Signature.callable? name = some f → f.admitsTypes (args.map type)
  | _ => True

theorem map_type_plain (ts : List Term) : (ts.map plain).map type = ts.map type := by
  rw [List.map_map]
  exact List.map_congr_left fun t _ => t.type_plain

theorem everywhere_iff {P : Term → Prop} (t : Term) :
    t.Everywhere P ↔ P t ∧ ∀ c ∈ t.children, c.Everywhere P := Hereditarily.iff_below

theorem everywhere_typedArguments_negated (t : Term) :
    t.negated.Everywhere TypedArguments ↔ t.Everywhere TypedArguments := by
  cases t with
  | number x =>
    exact iff_of_true (.node _ trivial (List.forall_mem_nil _))
      (.node _ trivial (List.forall_mem_nil _))
  | _ =>
    rw [negated]
    · simp [everywhere_iff (minus _), TypedArguments, children]
    · simp

theorem everywhere_typedArguments_plain (t : Term) :
    t.plain.Everywhere TypedArguments ↔ t.Everywhere TypedArguments := by
  induction t using induct with
  | node t ih =>
    cases t with
    | number | string | selector | matrix => rfl
    | minus body =>
      rw [plain_minus, everywhere_typedArguments_negated, ih body (by simp [children])]
      simp [everywhere_iff (minus _), TypedArguments, children]
    | paren body =>
      rw [plain_paren, ih body (by simp [children])]
      simp [everywhere_iff (paren _), TypedArguments, children]
    | subquery body range step modifiers =>
      have hbody := ih body (by simp [children])
      simp [everywhere_iff (subquery ..), TypedArguments, children, hbody]
    | binary op clauses lhs rhs =>
      have hlhs := ih lhs (by simp [children])
      have hrhs := ih rhs (by simp [children])
      simp [everywhere_iff (binary ..), TypedArguments, children, hlhs, hrhs]
    | call name args =>
      rw [plain_call, everywhere_iff, everywhere_iff (call name args)]
      simp only [TypedArguments, map_type_plain, children, List.forall_mem_map]
      exact and_congr_right fun _ => forall₂_congr ih
    | aggregate op grouping args =>
      rw [plain_aggregate, everywhere_iff, everywhere_iff (aggregate op grouping args)]
      simp only [TypedArguments, children, List.forall_mem_map]
      exact and_congr_right fun _ => forall₂_congr ih

theorem isWellTyped_negated (t : Term) : t.negated.isWellTyped = t.minus.isWellTyped := by
  cases t <;> rfl

theorem allWellTyped_plain {ts : List Term} (h : ∀ t ∈ ts, t.plain.isWellTyped = t.isWellTyped) :
    allWellTyped (ts.map plain) = allWellTyped ts := by
  induction ts with
  | nil => rfl
  | cons t ts ih =>
    rw [List.forall_mem_cons] at h
    rw [List.map_cons, allWellTyped, allWellTyped, h.1, ih h.2]

theorem isWellTyped_plain {t : Term} (h : t.Everywhere TypedArguments) :
    t.plain.isWellTyped = t.isWellTyped := by
  induction t using induct with
  | node t ih =>
    replace ih (c : Term) (hc : c ∈ t.children) := ih c hc (h.of_mem hc)
    cases t with
    | number | string | selector | matrix => rfl
    | subquery body range step modifiers =>
      simp only [plain_subquery, isWellTyped, type_plain, ih body (by simp [children])]
    | paren body => exact ih body (by simp [children])
    | minus body =>
      rw [plain_minus, isWellTyped_negated]
      simp only [isWellTyped, type_plain, ih body (by simp [children])]
    | binary op clauses lhs rhs =>
      simp only [plain_binary, isWellTyped, type_plain, ih lhs (by simp [children]),
        ih rhs (by simp [children])]
    | call name args =>
      have htyped := h.own
      simp only [plain_call, isWellTyped]
      cases hf : Signature.callable? name with
      | none => rfl
      | some f =>
        have hargs : allWellTyped (args.map plain) = allWellTyped args := allWellTyped_plain ih
        simp only [List.length_map, map_type_plain, htyped f hf, Bool.or_true, hargs]
    | aggregate op grouping args =>
      have hargs : allWellTyped (args.map plain) = allWellTyped args := allWellTyped_plain ih
      simp only [plain_aggregate, isWellTyped, map_type_plain, hargs]

theorem exists_toExpr_of_negated {t : Term} {e : Expr} (h : t.negated.toExpr = .ok e) :
    ∃ e, t.toExpr = .ok e := by
  have hminus {u : Term} (hu : u.minus.toExpr = .ok e) : ∃ e, u.toExpr = .ok e := by
    rw [toExpr, bind_eq_ok_iff] at hu
    exact hu.imp fun _ hb => hb.1
  cases t with
  | number x => exact ⟨_, rfl⟩
  | _ => exact hminus h

theorem exists_toExprs_of_plain {ts : List Term} {es : List Expr}
    (h : List.Forall₂ (fun t e => t.plain.toExpr = .ok e) ts es)
    (hplain : ∀ t ∈ ts, ∀ {e}, t.plain.toExpr = .ok e → ∃ e, t.toExpr = .ok e) :
    ∃ es', es'.length = es.length ∧ List.Forall₂ (fun t e => t.toExpr = .ok e) ts es' := by
  induction h with
  | nil => exact ⟨[], rfl, .nil⟩
  | cons ht _ ih =>
    rw [List.forall_mem_cons] at hplain
    obtain ⟨e, he⟩ := hplain.1 ht
    obtain ⟨es, hlen, hes⟩ := ih hplain.2
    exact ⟨e :: es, congrArg Nat.succ hlen, .cons he hes⟩

theorem exists_toExpr_of_plain {t : Term} {e : Expr} (h : t.plain.toExpr = .ok e) :
    ∃ e, t.toExpr = .ok e := by
  induction t using induct generalizing e with
  | node t ih =>
    cases t with
    | number | string | selector | matrix => exact ⟨e, h⟩
    | subquery body range step modifiers =>
      simp only [plain_subquery, toExpr, bind_eq_ok_iff] at h ⊢
      obtain ⟨b, hb, -⟩ := h
      obtain ⟨b, hb⟩ := ih body (by simp [children]) hb
      exact ⟨_, b, hb, rfl⟩
    | paren body =>
      obtain ⟨b, hb⟩ := ih body (by simp [children]) h
      simp only [toExpr, bind_eq_ok_iff]
      exact ⟨_, b, hb, rfl⟩
    | minus body =>
      obtain ⟨b, hb⟩ := exists_toExpr_of_negated h
      obtain ⟨b, hb⟩ := ih body (by simp [children]) hb
      simp only [toExpr, bind_eq_ok_iff]
      exact ⟨_, b, hb, rfl⟩
    | binary op clauses lhs rhs =>
      simp only [plain_binary, toExpr, bind_eq_ok_iff] at h ⊢
      obtain ⟨l, hl, r, hr, -⟩ := h
      obtain ⟨l, hl⟩ := ih lhs (by simp [children]) hl
      obtain ⟨r, hr⟩ := ih rhs (by simp [children]) hr
      exact ⟨_, l, hl, r, hr, rfl⟩
    | call name args =>
      rw [plain_call] at h
      have hargs := List.forall₂_map_left_iff.mp (children_toExpr h)
      obtain ⟨es, -, hes⟩ := exists_toExprs_of_plain hargs ih
      simp only [toExpr, bind_eq_ok_iff, toExprs_eq_ok_iff]
      exact ⟨_, es, hes, rfl⟩
    | aggregate op grouping args =>
      rw [plain_aggregate] at h
      cases means_of_toExpr h with | @aggregate op _ _ param body hargs =>
      -- there are as many arguments as before, so the parameter is among them as it was before
      obtain ⟨es, hlen, hes⟩ := exists_toExprs_of_plain (List.forall₂_map_left_iff.mp hargs) ih
      cases param with
      | none =>
        obtain ⟨body', rfl⟩ := List.length_eq_one_iff.mp hlen
        exact ⟨_, toExpr_aggregate (p := none) hes⟩
      | some param =>
        obtain ⟨param', body', rfl⟩ := List.length_eq_two.mp hlen
        exact ⟨_, toExpr_aggregate (p := some param') hes⟩

end Term

end PromTree
