import Mathlib.Data.List.Forall2
import PromTree.Proofs.Expr.Positions
import PromTree.Proofs.Query.Clauses
import PromTree.Query

namespace PromTree

theorem exists_left_of_mem {α β : Type} {R : α → β → Prop} {as : List α} {bs : List β}
    (h : List.Forall₂ R as bs) {b : β} (hb : b ∈ bs) : ∃ a ∈ as, R a b := by
  induction h with
  | nil => contradiction
  | cons hab _ ih =>
    rcases List.mem_cons.mp hb with rfl | hb
    · exact ⟨_, List.mem_cons_self, hab⟩
    · obtain ⟨a, ha, hr⟩ := ih hb
      exact ⟨a, List.mem_cons_of_mem _ ha, hr⟩

namespace Signature

theorem returnType_ofCall {name : String} {f : Signature} (h : callable? name = some f) :
    (ofCall name).returnType = f.returnType := by
  rw [ofCall]
  cases hfind : find? name with
  | none => rw [h]
  | some g =>
    have hname : name ≠ "mad_over_time" := by
      rintro rfl
      have hnone : callable? "mad_over_time" = none := by decide
      rw [hnone] at h
      contradiction
    have hfilter : (all.filter fun f => f.name != "mad_over_time").find? (fun f => f.name = name) =
        some g := by
      rw [List.find?_filter, ← hfind, find?]
      congr 1
      funext f
      by_cases hf : f.name = name
      · simp [hf, hname]
      · simp [hf]
    rw [callable?, callable, List.find?_append, hfilter, Option.some_or] at h
    exact Option.some.inj h ▸ rfl

end Signature

namespace Term

def children : Term → List Term
  | .subquery body _ _ _ | .paren body | .minus body => [body]
  | .binary _ _ lhs rhs => [lhs, rhs]
  | .call _ args | .aggregate _ _ args => args
  | .number _ | .string _ | .selector .. | .matrix .. => []

variable {t : Term} {e : Expr}

theorem toExprs_eq_ok_iff {ts : List Term} {es : List Expr} :
    toExprs ts = .ok es ↔ List.Forall₂ (fun t e => t.toExpr = .ok e) ts es := by
  induction ts generalizing es with
  | nil => rw [toExprs, List.forall₂_nil_left_iff, Except.ok.injEq, eq_comm]
  | cons t ts ih =>
    simp only [toExprs, bind_eq_ok_iff, Except.ok.injEq, List.forall₂_cons_left_iff, ih]
    constructor
    · rintro ⟨e, he, es, hes, rfl⟩
      exact ⟨e, es, he, hes, rfl⟩
    · rintro ⟨e, es, he, hes, rfl⟩
      exact ⟨e, he, es, hes, rfl⟩

theorem allWellTyped_iff {ts : List Term} : allWellTyped ts ↔ ∀ t ∈ ts, t.isWellTyped := by
  induction ts with
  | nil => simp [allWellTyped]
  | cons t ts ih => simp [allWellTyped, ih]

theorem isWellTyped_of_mem_children (hw : t.isWellTyped) {c : Term} (hc : c ∈ t.children) :
    c.isWellTyped := by
  cases t with
  | subquery | paren | minus | aggregate =>
    simp only [isWellTyped, Bool.and_eq_true, allWellTyped_iff] at hw
    simp_all [children]
  | binary op clauses lhs rhs =>
    simp only [isWellTyped, Bool.and_eq_true] at hw
    rcases List.mem_pair.mp hc with rfl | rfl
    · exact hw.1.2
    · exact hw.2
  | call name args =>
    simp only [isWellTyped] at hw
    split at hw
    · simp only [Bool.and_eq_true, allWellTyped_iff] at hw
      exact hw.2 c hc
    · contradiction
  | number | string | selector | matrix => contradiction

theorem exists_of_toExpr_aggregate {op : AggregatorWord} {grouping : Option Grouping}
    {args : List Term} (h : (aggregate op grouping args).toExpr = .ok e) :
    ∃ op' param body, op = .known op' ∧
      e = .aggregation op' (grouping.getD ⟨[], false⟩) param body ∧
      List.Forall₂ (fun t e => t.toExpr = .ok e) args (param.toList ++ [body]) := by
  have hfail (param : Term) (feature : String) :
      (param.toExpr >>= fun _ => (.error (.unsupported feature) : Parsed Expr)) ≠ .ok e := by
    rw [ne_eq, bind_eq_ok_iff]
    rintro ⟨_, -, h⟩
    contradiction
  cases op with
  | known op =>
    match args with
    | [] => contradiction
    | [body] =>
      simp only [toExpr, bind_eq_ok_iff, Except.ok.injEq] at h
      obtain ⟨b, hb, rfl⟩ := h
      exact ⟨op, none, b, rfl, rfl, .cons hb .nil⟩
    | [param, body] =>
      simp only [toExpr, bind_eq_ok_iff, Except.ok.injEq] at h
      obtain ⟨p, hp, b, hb, rfl⟩ := h
      exact ⟨op, some p, b, rfl, rfl, .cons hp (.cons hb .nil)⟩
    | param :: _ :: _ :: _ => exact absurd h (hfail _ _)
  | limitk | limitRatio =>
    cases args with
    | nil => contradiction
    | cons param args => exact absurd h (hfail _ _)

/-- What a term stands for, by its head. The children of the expression are what the children of the
term stand for. -/
inductive Means : Term → Expr → Prop where
  | number (x : Binary64) : Means (.number x) (.number (SampleValue.text x))
  | string (s : String) : Means (.string s) (.string s)
  | selector {p : Pattern} {m : Modifiers} {s : Selector} (h : p.selector? m = .ok s) :
    Means (.selector p m) (.vectorSelector s)
  | matrix {p : Pattern} {range : Span} {m : Modifiers} {s : Selector}
    (h : p.selector? m = .ok s) : Means (.matrix p range m) (.matrixSelector s range.range)
  | subquery {body : Term} {range : Span} {step : Option Span} {m : Modifiers} {b : Expr}
    (h : body.toExpr = .ok b) : Means (.subquery body range step m)
      (.subquery ⟨range.range, step.elim 0 Span.range, m.shift⟩ b)
  | paren {body : Term} {b : Expr} (h : body.toExpr = .ok b) : Means (.paren body) (.paren b)
  | minus {body : Term} {b : Expr} (h : body.toExpr = .ok b) :
    Means (.minus body) (.unary .minus b)
  | binary {op : BinaryOp} {clauses : OperatorClauses} {lhs rhs : Term} {l r : Expr}
    (hl : lhs.toExpr = .ok l) (hr : rhs.toExpr = .ok r) : Means (.binary op clauses lhs rhs)
      (.binary op (if l.valueType = .vector ∧ r.valueType = .vector then
        some (clauses.vectorMatching op) else none) clauses.returnBool l r)
  | call {name : String} {args : List Term} {es : List Expr}
    (h : List.Forall₂ (fun t e => t.toExpr = .ok e) args es) :
    Means (.call name args) (.call (.ofCall name) es)
  | aggregate {op : Aggregator} {grouping : Option Grouping} {args : List Term}
    {param : Option Expr} {body : Expr}
    (h : List.Forall₂ (fun t e => t.toExpr = .ok e) args (param.toList ++ [body])) :
    Means (.aggregate (.known op) grouping args)
      (.aggregation op (grouping.getD ⟨[], false⟩) param body)

theorem means_of_toExpr (h : t.toExpr = .ok e) : t.Means e := by
  cases t with
  | number | string =>
    obtain rfl := Except.ok.inj h
    constructor
  | aggregate op grouping args =>
    obtain ⟨op', param, body, rfl, rfl, hargs⟩ := exists_of_toExpr_aggregate h
    exact .aggregate hargs
  | binary op clauses lhs rhs =>
    simp only [toExpr, bind_eq_ok_iff, Except.ok.injEq] at h
    obtain ⟨l, hl, r, hr, rfl⟩ := h
    exact .binary hl hr
  | call name args =>
    simp only [toExpr, bind_eq_ok_iff, Except.ok.injEq, toExprs_eq_ok_iff] at h
    obtain ⟨es, hes, rfl⟩ := h
    exact .call hes
  | _ =>
    simp only [toExpr, bind_eq_ok_iff, Except.ok.injEq] at h
    obtain ⟨_, h, rfl⟩ := h
    constructor
    exact h

theorem children_toExpr (h : t.toExpr = .ok e) :
    List.Forall₂ (fun t e => t.toExpr = .ok e) t.children e.children := by
  cases means_of_toExpr h with
  | number | string | selector | matrix => exact .nil
  | subquery hbody | paren hbody | minus hbody => exact .cons hbody .nil
  | binary hl hr => exact .cons hl (.cons hr .nil)
  | call hargs | aggregate hargs => exact hargs

theorem forall₂_children {R : Term → Expr → Prop} (h : t.toExpr = .ok e)
    (hR : ∀ c ∈ t.children, ∀ {d}, c.toExpr = .ok d → R c d) :
    List.Forall₂ R t.children e.children := by
  have hboth := (List.forall₂_and_left (p := (· ∈ t.children)) _ _).mpr
    ⟨fun _ hc => hc, children_toExpr h⟩
  exact hboth.imp fun c _ hc => hR c hc.1 hc.2

theorem not_isPlaceholder_of_toExpr (h : t.toExpr = .ok e) : e.shape.isPlaceholder = false := by
  cases means_of_toExpr h <;> rfl

theorem containsPlaceholder_of_toExpr (h : t.toExpr = .ok e) : e.containsPlaceholder = false := by
  induction e generalizing t with
  | node e ih =>
    have hchildren : ∀ c ∈ e.children, c.containsPlaceholder = false := by
      intro c hc
      obtain ⟨u, -, hu⟩ := exists_left_of_mem (children_toExpr h) hc
      exact ih c hc hu
    rw [Expr.containsPlaceholder_eq, not_isPlaceholder_of_toExpr h, Bool.false_or,
      List.any_eq_false]
    exact fun c hc => Bool.eq_false_iff.mp (hchildren c hc)

theorem valueType_of_toExpr (hw : t.isWellTyped) (h : t.toExpr = .ok e) : e.valueType = t.type := by
  induction e generalizing t with
  | node e ih =>
    have hchildren (u : Term) (c : Expr) (hu : u ∈ t.children) (hc : c ∈ e.children)
        (huc : u.toExpr = .ok c) : c.valueType = u.type :=
      ih c hc (isWellTyped_of_mem_children hw hu) huc
    rw [Expr.valueType, Expr.fold_eq]
    cases means_of_toExpr h with
    | @paren body b hb | @minus body b hb =>
      exact hchildren body b (by simp [children]) (by simp [Expr.children]) hb
    | @binary op clauses lhs rhs l r hl hr =>
      have hlt := hchildren lhs l (by simp [children]) (by simp [Expr.children]) hl
      have hrt := hchildren rhs r (by simp [children]) (by simp [Expr.children]) hr
      rw [Expr.valueType] at hlt hrt
      simp [Expr.shape, Expr.children, Expr.typeOf, type, hlt, hrt]
    | call =>
      simp only [isWellTyped] at hw
      split at hw
      · rename_i f hf
        simp [Expr.shape, Expr.typeOf, type, hf, Signature.returnType_ofCall hf]
      · contradiction
    | _ => rfl

theorem exists_clauses_of_toExpr (hw : t.isWellTyped) (h : t.toExpr = .ok e) {op : BinaryOp}
    {matching : Option VectorMatching} {returnBool : Bool} {lhs rhs : Expr}
    (hb : e.stripParens = .binary op matching returnBool lhs rhs) :
    ∃ clauses, admitsOperands op clauses lhs.valueType rhs.valueType ∧
      matching = if lhs.valueType = .vector ∧ rhs.valueType = .vector then
        some (clauses.vectorMatching op) else none := by
  induction e generalizing t with
  | node e ih =>
    cases means_of_toExpr h with
    | @paren body b hbe =>
      have hbody := isWellTyped_of_mem_children hw (c := body) (by simp [children])
      exact ih b (by simp [Expr.children]) hbody hbe hb
    | @binary op' clauses l r le re hle hre =>
      have hl := isWellTyped_of_mem_children hw (c := l) (by simp [children])
      have hr := isWellTyped_of_mem_children hw (c := r) (by simp [children])
      cases hb
      simp only [isWellTyped, Bool.and_eq_true] at hw
      refine ⟨clauses, ?_, rfl⟩
      rw [valueType_of_toExpr hl hle, valueType_of_toExpr hr hre]
      exact hw.1.1
    | _ => contradiction

end Term

namespace Query

theorem parse_eq_ok_iff {text : String} {e : Expr} : parse text = .ok e ↔
    ∃ t, read text = .ok t ∧ t.foldSigns.isWellTyped ∧ t.foldSigns.toExpr = .ok e := by
  simp only [parse, term, bind_eq_ok_iff]
  constructor
  · rintro ⟨u, ⟨t, hread, hu⟩, he⟩
    split at hu
    · rename_i hw
      exact ⟨t, hread, hw, Except.ok.inj hu ▸ he⟩
    · contradiction
  · rintro ⟨t, hread, hw, he⟩
    exact ⟨t.foldSigns, ⟨t, hread, if_pos hw⟩, he⟩

end Query

end PromTree
