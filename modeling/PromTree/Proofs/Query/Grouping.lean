import PromTree.Proofs.Expr.Reading
import PromTree.Proofs.Query.Written

/-!
Terms as reading builds them. What is open binds tighter the further in it is, so that what is closed
needs no parentheses to be an operand.
-/

namespace PromTree

namespace Term

def outline : Term → Shape
  | .binary op _ _ _ => .binary op none false
  | .minus _ => .unary .minus
  | _ => .paren

def IsRaw : Term → Prop
  | .number x => x.isNegative = false
  | .subquery body _ _ _ => body.outline.needsParensInSubquery = false
  | .minus body => body.outline.needsParensAfterSign = false
  | .binary op _ lhs rhs =>
    lhs.outline.needsParens op false = false ∧ rhs.outline.needsParens op true = false
  | _ => True

namespace Reader

variable {fs fs' : List Frame} {t t' : Term} {r r' : Reader} {op : BinaryOp}
  {closes : Nat → Bool}

/-- What is known of a frame when it is opened. An operator stays open only inside of what it does not
close. -/
def Stands : Frame → List Frame → Prop
  | .operator lhs op _, fs =>
    lhs.Everywhere IsRaw ∧ lhs.outline.needsParens op false = false ∧ Holds (closesBefore op) fs
  | .call _ args, _ | .aggregate _ _ args, _ => ∀ t ∈ args, t.Everywhere IsRaw
  | .sign _, _ | .paren, _ => True

inductive Nests : List Frame → Prop where
  | nil : Nests []
  | cons {f : Frame} {fs : List Frame} (hf : Stands f fs) (hfs : Nests fs) : Nests (f :: fs)

def Admits : List Frame → Shape → Prop
  | .sign _ :: _, s => s.needsParensAfterSign = false
  | .operator _ op _ :: _, s => s.needsParens op true = false
  | _, _ => True

def IsClosed (closes : Nat → Bool) : Shape → Prop
  | .binary op _ _ => closes op.precedence
  | .unary _ => closes Sign.precedence
  | _ => True

theorem admits_paren (fs : List Frame) : Admits fs .paren := by
  rcases fs with _ | ⟨f, fs⟩
  · trivial
  · cases f <;> trivial

theorem admits_unary (fs : List Frame) (sign : Sign) : Admits fs (.unary sign) := by
  rcases fs with _ | ⟨f, fs⟩
  · trivial
  · cases f <;> trivial

theorem admits_of_needsParensAfterSign {s : Shape} (h : s.needsParensAfterSign = false)
    (fs : List Frame) : Admits fs s := by
  rcases fs with _ | ⟨f, fs⟩
  · trivial
  · cases f with
    | sign => exact h
    | operator lhs op clauses =>
      cases s with
      | binary op' matching returnBool =>
        have hle := Shape.needsParensAfterSign_binary.mp h
        have hle' := precedence_le op
        exact Shape.needsParens_binary.mpr ⟨by omega, by simp; omega⟩
      | _ => rfl
    | paren | call | aggregate => trivial

theorem admits_binary (h : Holds (closesBefore op) fs) : Admits fs (.binary op none false) := by
  rcases fs with _ | ⟨f, fs⟩
  · trivial
  · have hsign : Sign.precedence = 5 := rfl
    cases f with
    | sign =>
      rw [Holds, ← Bool.not_eq_true, closesBefore_iff] at h
      exact Shape.needsParensAfterSign_binary.mpr (by omega)
    | operator lhs op' clauses =>
      rw [Holds, ← Bool.not_eq_true, closesBefore_iff] at h
      exact Shape.needsParens_binary.mpr ⟨by omega, by simp; omega⟩
    | paren | call | aggregate => trivial

theorem needsParens_of_isClosed {s : Shape} (h : IsClosed (closesBefore op) s) :
    s.needsParens op false = false := by
  cases s with
  | binary op' matching returnBool =>
    have hclosed := closesBefore_iff.mp h
    exact Shape.needsParens_binary.mpr ⟨by omega, by simp; omega⟩
  | unary sign =>
    have hclosed := closesBefore_iff.mp h
    have hsign : Sign.precedence = 5 := rfl
    exact Shape.needsParens_unary.mpr (by omega)
  | _ => rfl

def IsOperand (t : Term) : Prop := t.Everywhere IsRaw ∧ t.outline = .paren

structure IsNested (r : Reader) : Prop where
  frames : Nests r.frames
  operand : ∀ t ∈ r.operand, IsOperand t

theorem isNested_some (hfs : Nests fs) (ht : IsOperand t) : IsNested ⟨fs, some t⟩ :=
  ⟨hfs, fun _ hu => Option.some.inj hu ▸ ht⟩

theorem isNested_none (hfs : Nests fs) : IsNested ⟨fs, none⟩ := ⟨hfs, nofun⟩

theorem holds_collapse (hc : collapse closes fs t = (fs', t')) : Holds closes fs' := by
  fun_induction collapse closes fs t with
  | case1 negative fs t hcloses ih | case3 lhs op clauses fs t hcloses ih => exact ih hc
  | case2 negative fs t hcloses | case4 lhs op clauses fs t hcloses =>
    cases hc
    exact eq_false_of_ne_true hcloses
  | case5 fs t hsign hoperator =>
    obtain ⟨rfl, -⟩ := Prod.mk.inj hc
    rcases fs with _ | ⟨f, fs⟩
    · trivial
    · cases f with
      | sign negative => exact absurd rfl (hsign negative fs)
      | operator lhs op clauses => exact absurd rfl (hoperator lhs op clauses fs)
      | paren | call | aggregate => trivial

theorem nests_collapse (hfs : Nests fs) (ht : t.Everywhere IsRaw) (hadmits : Admits fs t.outline)
    (hclosed : IsClosed closes t.outline) (hc : collapse closes fs t = (fs', t')) :
    Nests fs' ∧ t'.Everywhere IsRaw ∧ IsClosed closes t'.outline := by
  fun_induction collapse closes fs t with
  | case1 negative fs t hcloses ih =>
    cases hfs with
    | cons _ hfs =>
      cases negative with
      | false => exact ih hfs ht (admits_of_needsParensAfterSign hadmits fs) hclosed hc
      | true =>
        exact ih hfs (.node _ hadmits (List.forall_mem_singleton.mpr ht)) (admits_unary fs _)
          hcloses hc
  | case3 lhs op clauses fs t hcloses ih =>
    cases hfs with
    | cons hf hfs =>
      obtain ⟨hlhs, hparens, hopen⟩ := hf
      have hoperands := List.forall_mem_cons.mpr ⟨hlhs, List.forall_mem_singleton.mpr ht⟩
      exact ih hfs (.node _ ⟨hparens, hadmits⟩ hoperands) (admits_binary hopen) hcloses hc
  | _ =>
    cases hc
    exact ⟨hfs, ht, hclosed⟩

theorem nests_collapse_operand (h : IsNested ⟨fs, some t⟩)
    (hc : collapse closes fs t = (fs', t')) :
    Nests fs' ∧ t'.Everywhere IsRaw ∧ IsClosed closes t'.outline := by
  obtain ⟨ht, houtline⟩ := h.operand t rfl
  exact nests_collapse h.frames ht (houtline ▸ admits_paren fs) (houtline ▸ trivial) hc

theorem isOperand_closes {f : Frame} {operand : Option Term} (hf : Stands f fs)
    (hoperand : ∀ t ∈ operand, t.Everywhere IsRaw) (h : f.Closes operand t) : IsOperand t := by
  cases h with
  | paren u => exact ⟨.node _ trivial (List.forall_mem_singleton.mpr (hoperand u rfl)), rfl⟩
  | call name args u | aggregate op grouping args u =>
    have hu := List.forall_mem_singleton.mpr (hoperand u rfl)
    exact ⟨.node _ trivial (List.forall_mem_append.mpr ⟨hf, hu⟩), rfl⟩
  | emptyCall | emptyAggregate => exact ⟨.node _ trivial (List.forall_mem_nil _), rfl⟩

theorem stands_collects {f f' : Frame} (hf : Stands f fs) (ht : t.Everywhere IsRaw)
    (h : f.Collects t f') : Stands f' fs := by
  cases h with
  | call | aggregate =>
    exact List.forall_mem_append.mpr ⟨hf, List.forall_mem_singleton.mpr ht⟩

theorem isOperand_bracketed {b : Token.Brackets} (h : IsOperand t) (ht : Bracketed b t t') :
    IsOperand t' := by
  cases ht with
  | matrix => exact ⟨.node _ trivial (List.forall_mem_nil _), rfl⟩
  | subquery =>
    have hparens : t.outline.needsParensInSubquery = false := h.2 ▸ rfl
    exact ⟨.node _ hparens (List.forall_mem_singleton.mpr h.1), rfl⟩

theorem isOperand_modifies {m m' : Modifiers} (h : IsOperand t) (ht : Modifies m m' t t') :
    IsOperand t' := by
  cases ht with
  | selector | matrix | subquery => exact ⟨.node _ h.1.own fun c hc => h.1.of_mem hc, rfl⟩

theorem nests_opens {f : Frame} (hf : f.IsFresh) (h : Nests fs) : Nests (f :: fs) := by
  refine .cons ?_ h
  cases f with
  | sign | paren => trivial
  | operator => contradiction
  | call name args | aggregate op grouping args =>
    cases args with
    | nil => exact List.forall_mem_nil _
    | cons => contradiction

theorem isNested_moves {ts rest : List Token} (hts : ∀ t ∈ ts, t.IsWritten)
    (hmoves : Moves r ts r' rest) (h : r.IsNested) : r'.IsNested := by
  have hfs := h.frames
  have hsome {t : Term} (ht : IsOperand t) : IsNested ⟨r.frames, some t⟩ :=
    isNested_some hfs ht
  cases hmoves with
  | number hx =>
    have hwritten := Token.isWritten_of_numeric? (hts _ List.mem_cons_self) hx
    exact hsome ⟨.node _ hwritten.2 (List.forall_mem_nil _), rfl⟩
  | string | selector => exact hsome ⟨.node _ trivial (List.forall_mem_nil _), rfl⟩
  | opens hf => exact isNested_none (nests_opens hf hfs)
  | closesEmpty hf =>
    cases hfs with
    | cons hargs hfs =>
      exact isNested_some hfs (isOperand_closes hargs (by simp) hf)
  | closes hc hf =>
    obtain ⟨hgs, hu, -⟩ := nests_collapse_operand h hc
    cases hgs with
    | cons hargs hgs =>
      have hoperand := isOperand_closes hargs (fun _ ht => Option.some.inj ht ▸ hu) hf
      exact isNested_some hgs hoperand
  | argument hc hf =>
    obtain ⟨hgs, hu, -⟩ := nests_collapse_operand h hc
    cases hgs with
    | cons hargs hgs => exact isNested_none (.cons (stands_collects hargs hu hf) hgs)
  | operator _ _ hc =>
    obtain ⟨hgs, hlhs, hclosed⟩ := nests_collapse_operand h hc
    exact isNested_none (.cons ⟨hlhs, needsParens_of_isClosed hclosed, holds_collapse hc⟩ hgs)
  | brackets _ ht => exact hsome (isOperand_bracketed (h.operand _ rfl) ht)
  | time _ ht | offset _ _ ht => exact hsome (isOperand_modifies (h.operand _ rfl) ht)
  | grouping => exact hsome ⟨.node _ trivial fun c hc => (h.operand _ rfl).1.of_mem hc, rfl⟩

theorem everywhere_isRaw_of_finish (h : r.IsNested) (hfinish : r.finish = .ok t) :
    t.Everywhere IsRaw := by
  obtain ⟨fs, u, rfl, hc⟩ := exists_of_finish hfinish
  exact (nests_collapse_operand h hc).2.1

end Reader

end Term

theorem Query.everywhere_isRaw_of_read {text : String} {t : Term} (h : read text = .ok t) :
    t.Everywhere Term.IsRaw :=
  holds_of_read (Term.Reader.isNested_none .nil) Term.Reader.isNested_moves
    Term.Reader.everywhere_isRaw_of_finish Token.isWritten_of_list? h

end PromTree
