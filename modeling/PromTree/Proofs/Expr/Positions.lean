import Mathlib.Algebra.GroupWithZero.Nat
import Mathlib.Data.List.Basic
import PromTree.Expr.Basic

namespace PromTree

inductive Hereditarily {α : Type} (children : α → List α) (P : α → Prop) : α → Prop where
  | node (a : α) (own : P a) (below : ∀ b ∈ children a, Hereditarily children P b) :
    Hereditarily children P a

namespace Hereditarily

variable {α : Type} {children : α → List α} {P Q : α → Prop} {a b : α}

theorem iff_below : Hereditarily children P a ↔
    P a ∧ ∀ b ∈ children a, Hereditarily children P b :=
  ⟨fun h => by cases h with | node _ own below => exact ⟨own, below⟩, fun h => .node a h.1 h.2⟩

theorem own (h : Hereditarily children P a) : P a := (iff_below.mp h).1

theorem of_mem (h : Hereditarily children P a) (hb : b ∈ children a) :
    Hereditarily children P b := (iff_below.mp h).2 b hb

theorem mono (h : Hereditarily children P a) (hpq : ∀ a, P a → Q a) :
    Hereditarily children Q a := by
  induction h with
  | node a own below ih => exact .node a (hpq a own) ih

end Hereditarily

def Shape.Fits (s : Shape) (count : Nat) : Prop := ∀ n, s.arity? = some n → count = n

abbrev Position := List Nat

namespace Expr

theorem sizeOf_lt_of_mem_children {e c : Expr} (h : c ∈ e.children) : sizeOf c < sizeOf e := by
  cases e with
  | call | placeholder =>
    have hlt := List.sizeOf_lt_of_mem h
    simp only [children, call.sizeOf_spec, placeholder.sizeOf_spec] at hlt ⊢
    omega
  | aggregation op grouping param body => cases param <;> grind [children]
  | _ => grind [children]

@[induction_eliminator]
theorem induct {P : Expr → Prop} (node : ∀ e, (∀ c ∈ e.children, P c) → P e) (e : Expr) : P e :=
  node e fun c h =>
    have := sizeOf_lt_of_mem_children h
    induct node c
termination_by e

theorem shape_of_ofShape? {s : Shape} {es : List Expr} {e : Expr} (h : ofShape? s es = some e) :
    e.shape = s ∧ e.children = es := by
  revert h
  fun_cases ofShape? s es <;> intro h
  all_goals first | contradiction | cases h; exact ⟨rfl, rfl⟩

theorem ofShape?_self (e : Expr) :
    ofShape? e.shape e.children = some e ↔ e.shape.Fits e.children.length := by
  cases e with
  | aggregation op grouping param body =>
    cases param <;> cases h : op.hasParam <;>
      simp [ofShape?, shape, children, Shape.Fits, Shape.arity?, h]
  | _ => simp [ofShape?, shape, children, Shape.Fits, Shape.arity?]

theorem fits_of_ofShape? {s : Shape} {es : List Expr} {e : Expr} (h : ofShape? s es = some e) :
    s.Fits es.length := by
  obtain ⟨rfl, rfl⟩ := shape_of_ofShape? h
  exact (ofShape?_self e).mp h

theorem exists_ofShape? {s : Shape} {es : List Expr} (h : s.Fits es.length) :
    ∃ e, ofShape? s es = some e := by
  cases s with
  | aggregation op grouping =>
    have hl : es.length = if op.hasParam then 2 else 1 := h _ rfl
    cases hp : op.hasParam with
    | true =>
      obtain ⟨param, body, rfl⟩ := List.length_eq_two.mp (by simpa [hp] using hl)
      exact ⟨.aggregation op grouping (some param) body, by simp [ofShape?, hp]⟩
    | false =>
      obtain ⟨body, rfl⟩ := List.length_eq_one_iff.mp (by simpa [hp] using hl)
      exact ⟨.aggregation op grouping none body, by simp [ofShape?, hp]⟩
  | binary =>
    obtain ⟨lhs, rhs, rfl⟩ := List.length_eq_two.mp (h _ rfl)
    exact ⟨_, rfl⟩
  | subquery | paren | unary =>
    obtain ⟨body, rfl⟩ := List.length_eq_one_iff.mp (h _ rfl)
    exact ⟨_, rfl⟩
  | call | placeholder => exact ⟨_, rfl⟩
  | _ =>
    obtain rfl := List.length_eq_zero_iff.mp (h _ rfl)
    exact ⟨_, rfl⟩

theorem ownDefect_eq_none_iff (e : Expr) :
    ownDefect e.shape e.children.length = none ↔ e.shape.Fits e.children.length := by
  cases e with
  | aggregation op grouping param body =>
    cases param <;> cases h : op.hasParam <;>
      simp [ownDefect, shape, children, Shape.Fits, Shape.arity?, h]
  | _ => simp [ownDefect, shape, children, Shape.Fits, Shape.arity?]

theorem isValid_iff (e : Expr) :
    e.IsValid ↔ e.shape.Fits e.children.length ∧ ∀ c ∈ e.children, c.IsValid := by
  have hd : e.defect? = (ownDefect e.shape e.children.length).or
      ((e.children.map defect?).findSome? id) := by
    rw [defect?, fold_eq, List.length_map]
    rfl
  rw [IsValid, hd, Option.or_eq_none_iff, ownDefect_eq_none_iff, List.findSome?_eq_none_iff]
  simp [IsValid]

theorem isValid_of_ofShape? {s : Shape} {es : List Expr} {e : Expr} (h : ofShape? s es = some e)
    (hes : ∀ c ∈ es, c.IsValid) : e.IsValid := by
  have hf := fits_of_ofShape? h
  obtain ⟨rfl, rfl⟩ := shape_of_ofShape? h
  exact e.isValid_iff.mpr ⟨hf, hes⟩

theorem isValid_empty : empty.IsValid := rfl

theorem isValid_placeholder {e : Expr} (h : e.IsValid) : (placeholder [e]).IsValid := by
  rw [isValid_iff]
  exact ⟨by simp [shape, Shape.Fits, Shape.arity?], by simpa [children] using h⟩

theorem size_eq (e : Expr) : e.size = (e.children.map size).sum + 1 := by
  have hs (ns : List Nat) : ns.foldr (· + ·) 1 = ns.sum + 1 := by
    induction ns with
    | nil => rfl
    | cons n ns ih => rw [List.foldr_cons, List.sum_cons, ih, Nat.add_assoc]
  rw [size, fold_eq, hs]
  rfl

theorem containsPlaceholder_eq (e : Expr) :
    e.containsPlaceholder = (e.shape.isPlaceholder || e.children.any containsPlaceholder) := by
  rw [containsPlaceholder, fold_eq, List.any_map]
  rfl

theorem valueType_eq (e : Expr) : e.valueType = typeOf e.shape (e.children.map valueType) :=
  fold_eq _ e

def subterm? : Expr → Position → Option Expr
  | e, [] => some e
  | e, i :: path => e.children[i]?.bind fun c => c.subterm? path

def modifyChild (f : Expr → Expr) : Nat → Expr → Expr
  | 0, .aggregation op grouping none body => .aggregation op grouping none (f body)
  | 0, .aggregation op grouping (some param) body => .aggregation op grouping (some (f param)) body
  | 1, .aggregation op grouping (some param) body => .aggregation op grouping (some param) (f body)
  | 0, .binary op matching returnBool lhs rhs => .binary op matching returnBool (f lhs) rhs
  | 1, .binary op matching returnBool lhs rhs => .binary op matching returnBool lhs (f rhs)
  | i, .call func args => .call func (args.modify i f)
  | 0, .subquery window body => .subquery window (f body)
  | 0, .paren body => .paren (f body)
  | 0, .unary sign body => .unary sign (f body)
  | i, .placeholder children => .placeholder (children.modify i f)
  | _, e => e

def replaceAt : Expr → Position → Expr → Expr
  | _, [], new => new
  | e, i :: path, new => e.modifyChild (fun c => c.replaceAt path new) i

@[simp]
theorem shape_modifyChild (f : Expr → Expr) (i : Nat) (e : Expr) :
    (e.modifyChild f i).shape = e.shape := by
  fun_cases modifyChild f i e <;> rfl

@[simp]
theorem children_modifyChild (f : Expr → Expr) (i : Nat) (e : Expr) :
    (e.modifyChild f i).children = e.children.modify i f := by
  cases e with
  | aggregation op grouping param body =>
    cases param <;> rcases i with _ | _ | i <;> simp [modifyChild, children]
  | _ => rcases i with _ | _ | i <;> simp [modifyChild, children]

theorem ofShape?_modify {s : Shape} {es : List Expr} {e : Expr} (h : ofShape? s es = some e)
    (f : Expr → Expr) (i : Nat) : ofShape? s (es.modify i f) = some (e.modifyChild f i) := by
  have hf := fits_of_ofShape? h
  obtain ⟨rfl, rfl⟩ := shape_of_ofShape? h
  have hm := (ofShape?_self (e.modifyChild f i)).mpr (by simpa using hf)
  simpa using hm

end Expr

end PromTree
