import PromTree.Proofs.Query.Written

namespace PromTree

structure Lookup where
  pattern : Option Pattern
  range : Option Span
  step : Option Span
  modifiers : Modifiers

namespace Term

def lookup? : Term → Option Lookup
  | .selector p m => some ⟨some p, none, none, m⟩
  | .matrix p range m => some ⟨some p, some range, none, m⟩
  | .subquery _ range step m => some ⟨none, some range, step, m⟩
  | _ => none

mutual

def lookups : Term → List Lookup
  | .selector p m => [⟨some p, none, none, m⟩]
  | .matrix p range m => [⟨some p, some range, none, m⟩]
  | .subquery body range step m => body.lookups ++ [⟨none, some range, step, m⟩]
  | .paren body | .minus body => body.lookups
  | .binary _ _ lhs rhs => lhs.lookups ++ rhs.lookups
  | .call _ args | .aggregate _ _ args => lookupsAll args
  | .number _ | .string _ => []

def lookupsAll : List Term → List Lookup
  | [] => []
  | t :: ts => t.lookups ++ lookupsAll ts

end

theorem lookupsAll_eq (ts : List Term) : lookupsAll ts = ts.flatMap lookups := by
  induction ts with
  | nil => rfl
  | cons t ts ih => rw [lookupsAll, ih, List.flatMap_cons]

theorem lookups_eq (t : Term) : t.lookups = t.children.flatMap lookups ++ t.lookup?.toList := by
  cases t <;> simp [lookups, lookup?, children, lookupsAll_eq]

theorem lookups_negated (t : Term) : t.negated.lookups = t.lookups := by
  cases t <;> rfl

theorem lookups_signed (negative : Bool) (t : Term) : (signed negative t).lookups = t.lookups := by
  cases negative <;> rfl

theorem lookups_foldSigns (t : Term) : t.foldSigns.lookups = t.lookups := by
  induction t using induct with
  | node t ih =>
    cases t with
    | minus body => rw [foldSigns, lookups_negated, ih body (by simp [children]), lookups]
    | call name args | aggregate op grouping args =>
      rw [foldSigns, lookups, lookups, foldAllSigns_eq, lookupsAll_eq, lookupsAll_eq,
        List.flatMap_map]
      exact List.flatMap_congr ih
    | _ => simp_all [foldSigns, lookups, children]

def Frame.lookups : Frame → List Lookup
  | .operator lhs _ _ => lhs.lookups
  | .call _ args | .aggregate _ _ args => args.flatMap Term.lookups
  | .sign _ | .paren => []

theorem Frame.IsFresh.lookups {f : Frame} (h : f.IsFresh) : f.lookups = [] := by
  cases f with
  | sign | paren => rfl
  | operator => contradiction
  | call name args | aggregate op grouping args =>
    cases args with
    | nil => rfl
    | cons => contradiction

namespace Reader

def lookups (r : Reader) : List Lookup :=
  r.frames.reverse.flatMap Frame.lookups ++ r.operand.elim [] Term.lookups

variable {fs fs' : List Frame} {t t' : Term} {r : Reader}

@[simp]
theorem lookups_cons (f : Frame) (fs : List Frame) (operand : Option Term) :
    lookups ⟨f :: fs, operand⟩ =
      lookups ⟨fs, none⟩ ++ (f.lookups ++ operand.elim [] Term.lookups) := by
  simp [lookups]

@[simp]
theorem lookups_some (fs : List Frame) (t : Term) :
    lookups ⟨fs, some t⟩ = lookups ⟨fs, none⟩ ++ t.lookups := by
  simp [lookups]

theorem lookups_collapse {closes : Nat → Bool} (h : collapse closes fs t = (fs', t')) :
    lookups ⟨fs', some t'⟩ = lookups ⟨fs, some t⟩ := by
  revert h
  fun_induction collapse closes fs t with
  | case1 negative fs t hcloses ih =>
    intro h
    simp [ih h, lookups_signed, Frame.lookups]
  | case3 lhs op clauses fs t hcloses ih =>
    intro h
    simp [ih h, Frame.lookups, Term.lookups]
  | _ =>
    intro h
    cases h
    rfl

theorem lookups_closes {f : Frame} {operand : Option Term} (h : f.Closes operand t) :
    t.lookups = f.lookups ++ operand.elim [] Term.lookups := by
  cases h <;> simp [Frame.lookups, Term.lookups, lookupsAll_eq]

theorem lookups_collects {f f' : Frame} (h : f.Collects t f') :
    f'.lookups = f.lookups ++ t.lookups := by
  cases h <;> simp [Frame.lookups]

theorem lookups_finish (h : r.finish = .ok t) : r.lookups = t.lookups := by
  obtain ⟨fs, u, rfl, hc⟩ := exists_of_finish h
  rw [← lookups_collapse hc, lookups_some]
  rfl

end Reader

end Term

end PromTree
