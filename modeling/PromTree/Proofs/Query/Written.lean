import PromTree.Proofs.Query.Moves
import PromTree.Proofs.Query.Numbers
import PromTree.Proofs.Query.Plain

namespace PromTree

namespace Token

def IsWritten : Token → Prop
  | .word text => text ≠ ""
  | .metric name => name ≠ ""
  | .number x => x.IsWritten
  | _ => True

variable {t : Token} {ts rest : List Token}

theorem isWritten_ofWord {cs : List Char} (h : cs ≠ []) : (ofWord cs).IsWritten := by
  have hne : String.ofList cs ≠ "" := mt String.ofList_eq_empty_iff.mp h
  rw [ofWord]
  split_ifs
  · exact hne
  · trivial
  · trivial
  · exact hne

theorem isWritten_of_number? {cs cs' : List Char} (h : number? cs = some (t, cs')) :
    t.IsWritten := by
  rw [number?] at h
  dsimp only at h
  split at h
  · obtain ⟨rfl, -⟩ := Prod.mk.inj (Option.some.inj h)
    trivial
  · split at h
    · contradiction
    · obtain ⟨x, hx, h⟩ := Option.map_eq_some_iff.mp h
      obtain ⟨rfl, -⟩ := Prod.mk.inj h
      exact Literal.isWritten_of_number? hx

theorem isWritten_of_numeric? {x : Binary64} (h : t.IsWritten) (hx : t.numeric? = some x) :
    x.IsWritten := by
  cases t with
  | number y => exact Option.some.inj hx ▸ h
  | span s => exact Option.some.inj hx ▸ s.isWritten_seconds
  | _ => contradiction

theorem ne_empty_of_name? {name : String} (h : t.IsWritten) (hname : t.name? = some name) :
    name ≠ "" := by
  cases t with
  | word | metric => exact Option.some.inj hname ▸ h
  | _ => contradiction

theorem ne_nil_of_span {p : Char → Bool} {c : Char} {cs run rest : List Char} (hc : p c)
    (h : (c :: cs).span p = (run, rest)) : run ≠ [] := by
  rw [List.span_eq_takeWhile_dropWhile, List.takeWhile_cons_of_pos hc] at h
  exact (Prod.mk.inj h).1 ▸ List.cons_ne_nil _ _

theorem isWordChar_of_isWordStart {c : Char} (h : isWordStart c) : Literal.isWordChar c := by
  simp only [isWordStart, Bool.or_eq_true] at h
  rcases h with h | h
  · simp [Literal.isWordChar, Char.isAlphanum, h]
  · simp [Literal.isWordChar, h]

theorem isWritten_of_outside? {c : Char} {cs cs' : List Char} {place : Place}
    (h : outside? c cs = some (place, some t, cs')) : t.IsWritten := by
  revert h
  fun_cases outside? c cs with
  | case1 | case2 => exact nofun
  | case3 =>
    rename_i hword hspan
    intro h
    cases h
    refine isWritten_ofWord (ne_nil_of_span ?_ hspan)
    rw [Bool.or_eq_true] at hword ⊢
    exact hword.imp_left isWordChar_of_isWordStart
  | case4 =>
    intro h
    obtain ⟨⟨t', rest⟩, ht, h⟩ := Option.bind_eq_some_iff.mp h
    cases h
    exact isWritten_of_number? ht
  | case5 | case6 | case7 =>
    intro h
    obtain ⟨⟨s, rest⟩, -, h⟩ := Option.bind_eq_some_iff.mp h
    cases h
    trivial
  | _ =>
    intro h
    cases h <;> trivial

theorem isWritten_of_inBraces? {c : Char} {cs cs' : List Char} {place : Place}
    (h : inBraces? c cs = some (place, some t, cs')) : t.IsWritten := by
  revert h
  fun_cases inBraces? c cs with
  | case1 | case2 => exact nofun
  | case4 =>
    rename_i hword hspan
    intro h
    cases h
    have hrun := ne_nil_of_span (isWordChar_of_isWordStart hword) hspan
    exact mt String.ofList_eq_empty_iff.mp hrun
  | case5 | case6 | case7 =>
    intro h
    obtain ⟨⟨s, rest⟩, -, h⟩ := Option.bind_eq_some_iff.mp h
    cases h
    trivial
  | _ =>
    intro h
    cases h <;> trivial

theorem isWritten_of_inBrackets? {c : Char} {cs cs' : List Char} {place : Place} {colonSeen : Bool}
    (h : inBrackets? colonSeen c cs = some (place, some t, cs')) : t.IsWritten := by
  revert h
  fun_cases inBrackets? colonSeen c cs with
  | case2 =>
    intro h
    obtain ⟨⟨t', rest⟩, ht, h⟩ := Option.bind_eq_some_iff.mp h
    cases h
    exact isWritten_of_number? ht
  | _ =>
    intro h
    cases h <;> trivial

theorem isWritten_of_step? {place place' : Place} {c : Char} {cs cs' : List Char}
    (h : step? place c cs = some (place', some t, cs')) : t.IsWritten := by
  cases place with
  | outside => exact isWritten_of_outside? h
  | braces => exact isWritten_of_inBraces? h
  | brackets => exact isWritten_of_inBrackets? h

theorem isWritten_of_listFrom? {fuel : Nat} {place : Place} {cs : List Char}
    (h : listFrom? fuel place cs = some ts) : ∀ t ∈ ts, t.IsWritten := by
  fun_induction listFrom? fuel place cs generalizing ts with
  | case1 =>
    cases h
    exact nofun
  | case2 => contradiction
  | case3 fuel place c cs ih =>
    simp only [Option.bind_eq_bind, Option.bind_eq_some_iff] at h
    obtain ⟨⟨place', t?, cs'⟩, hstep, tokens, htokens, h⟩ := h
    cases h
    intro t ht
    rcases List.mem_append.mp ht with ht | ht
    · obtain rfl := Option.mem_toList.mp ht
      exact isWritten_of_step? hstep
    · exact ih _ _ htokens t ht

theorem isWritten_of_list? {text : String} (h : list? text = some ts) : ∀ t ∈ ts, t.IsWritten :=
  isWritten_of_listFrom? h

end Token

def OperatorClauses.IsWritten (c : OperatorClauses) : Prop :=
  ∀ g, c.group = some g → g.side ≠ .oneToOne ∧ g.side ≠ .manyToMany

namespace Term

def IsWritten : Term → Prop
  | .number x => x.IsCanonical
  | .selector p _ | .matrix p _ _ => p.name ≠ some ""
  | .binary _ clauses _ _ => clauses.IsWritten
  | _ => True

def Frame.IsWritten : Frame → Prop
  | .operator lhs _ clauses => lhs.Everywhere Term.IsWritten ∧ clauses.IsWritten
  | .call _ args | .aggregate _ _ args => ∀ t ∈ args, t.Everywhere Term.IsWritten
  | .sign _ | .paren => True

theorem Frame.IsFresh.isWritten {f : Frame} (h : f.IsFresh) : f.IsWritten := by
  cases f with
  | sign | paren => trivial
  | operator => contradiction
  | call name args | aggregate op grouping args =>
    cases args with
    | nil => exact nofun
    | cons => contradiction

namespace Reader

structure IsWritten (r : Reader) : Prop where
  frames : ∀ f ∈ r.frames, f.IsWritten
  operand : ∀ t ∈ r.operand, t.Everywhere Term.IsWritten

variable {fs fs' : List Frame} {t t' : Term} {r r' : Reader}

theorem isWritten_none : IsWritten ⟨fs, none⟩ ↔ ∀ f ∈ fs, f.IsWritten :=
  ⟨fun h => h.frames, fun h => ⟨h, nofun⟩⟩

theorem isWritten_some :
    IsWritten ⟨fs, some t⟩ ↔ (∀ f ∈ fs, f.IsWritten) ∧ t.Everywhere Term.IsWritten := by
  constructor
  · exact fun h => ⟨h.frames, h.operand t rfl⟩
  · rintro ⟨hfs, ht⟩
    exact ⟨hfs, fun u hu => Option.some.inj hu ▸ ht⟩

theorem isWritten_collapse {closes : Nat → Bool} (h : IsWritten ⟨fs, some t⟩)
    (hc : collapse closes fs t = (fs', t')) : IsWritten ⟨fs', some t'⟩ := by
  revert h
  fun_induction collapse closes fs t with
  | case1 negative fs t hcloses ih =>
    intro h
    obtain ⟨hfs, ht⟩ := isWritten_some.mp h
    refine ih hc (isWritten_some.mpr ⟨(List.forall_mem_cons.mp hfs).2, ?_⟩)
    cases negative with
    | false => exact ht
    | true => exact .node _ trivial (List.forall_mem_singleton.mpr ht)
  | case3 lhs op clauses fs t hcloses ih =>
    intro h
    obtain ⟨hfs, ht⟩ := isWritten_some.mp h
    obtain ⟨⟨hlhs, hclauses⟩, hrest⟩ := List.forall_mem_cons.mp hfs
    have hoperands := List.forall_mem_cons.mpr ⟨hlhs, List.forall_mem_singleton.mpr ht⟩
    exact ih hc (isWritten_some.mpr ⟨hrest, .node _ hclauses hoperands⟩)
  | _ =>
    cases hc
    exact id

theorem everywhere_closes {f : Frame} {operand : Option Term} (hf : f.IsWritten)
    (hoperand : ∀ t ∈ operand, t.Everywhere Term.IsWritten) (h : f.Closes operand t) :
    t.Everywhere Term.IsWritten := by
  cases h with
  | paren u => exact .node _ trivial (List.forall_mem_singleton.mpr (hoperand u rfl))
  | call name args u | aggregate op grouping args u =>
    have hu := List.forall_mem_singleton.mpr (hoperand u rfl)
    exact .node _ trivial (List.forall_mem_append.mpr ⟨hf, hu⟩)
  | emptyCall | emptyAggregate => exact .node _ trivial (List.forall_mem_nil _)

theorem isWritten_collects {f f' : Frame} (hf : f.IsWritten) (ht : t.Everywhere Term.IsWritten)
    (h : f.Collects t f') : f'.IsWritten := by
  cases h with
  | call | aggregate =>
    exact List.forall_mem_append.mpr ⟨hf, List.forall_mem_singleton.mpr ht⟩

theorem everywhere_bracketed {b : Token.Brackets} (h : t.Everywhere Term.IsWritten)
    (ht : Bracketed b t t') : t'.Everywhere Term.IsWritten := by
  cases ht with
  | matrix => exact .node _ h.own (List.forall_mem_nil _)
  | subquery => exact .node _ trivial (List.forall_mem_singleton.mpr h)

theorem everywhere_modifies {m m' : Modifiers} (h : t.Everywhere Term.IsWritten)
    (ht : Modifies m m' t t') : t'.Everywhere Term.IsWritten := by
  cases ht with
  | selector | matrix | subquery => exact .node _ h.own fun c hc => h.of_mem hc

theorem name_ne_of_isWrittenAs {p : Pattern} {written : List Token} (hp : p.IsWrittenAs written)
    (h : ∀ t ∈ written, t.IsWritten) : p.name ≠ some "" := by
  intro hempty
  obtain ⟨t, ht, hname⟩ := hp.exists_name? hempty
  exact Token.ne_empty_of_name? (h t ht) hname rfl

theorem isWritten_moves {ts rest : List Token} (hts : ∀ t ∈ ts, t.IsWritten)
    (hmoves : Moves r ts r' rest) (h : r.IsWritten) : r'.IsWritten := by
  have hframes := h.frames
  cases hmoves with
  | number hx =>
    have hwritten := Token.isWritten_of_numeric? (hts _ List.mem_cons_self) hx
    exact isWritten_some.mpr ⟨hframes, .node _ hwritten.1 (List.forall_mem_nil _)⟩
  | string => exact isWritten_some.mpr ⟨hframes, .node _ trivial (List.forall_mem_nil _)⟩
  | selector hp =>
    have hname := name_ne_of_isWrittenAs hp fun t ht => hts t (List.mem_append_left _ ht)
    exact isWritten_some.mpr ⟨hframes, .node _ hname (List.forall_mem_nil _)⟩
  | opens hf => exact isWritten_none.mpr (List.forall_mem_cons.mpr ⟨hf.isWritten, hframes⟩)
  | closesEmpty hf =>
    obtain ⟨hargs, hfs⟩ := List.forall_mem_cons.mp hframes
    exact isWritten_some.mpr ⟨hfs, everywhere_closes hargs (by simp) hf⟩
  | closes hc hf =>
    obtain ⟨hgs, hu⟩ := isWritten_some.mp (isWritten_collapse h hc)
    obtain ⟨hargs, hgs⟩ := List.forall_mem_cons.mp hgs
    exact isWritten_some.mpr ⟨hgs, everywhere_closes hargs (fun _ ht => Option.some.inj ht ▸ hu) hf⟩
  | argument hc hf =>
    obtain ⟨hgs, hu⟩ := isWritten_some.mp (isWritten_collapse h hc)
    obtain ⟨hargs, hgs⟩ := List.forall_mem_cons.mp hgs
    exact isWritten_none.mpr (List.forall_mem_cons.mpr ⟨isWritten_collects hargs hu hf, hgs⟩)
  | operator _ hclauses hc =>
    obtain ⟨hgs, hlhs⟩ := isWritten_some.mp (isWritten_collapse h hc)
    exact isWritten_none.mpr
      (List.forall_mem_cons.mpr ⟨⟨hlhs, fun g => Token.operatorClauses_side hclauses⟩, hgs⟩)
  | brackets _ ht => exact isWritten_some.mpr ⟨hframes, everywhere_bracketed (h.operand _ rfl) ht⟩
  | time _ ht | offset _ _ ht =>
    exact isWritten_some.mpr ⟨hframes, everywhere_modifies (h.operand _ rfl) ht⟩
  | grouping =>
    exact isWritten_some.mpr ⟨hframes, .node _ trivial fun c hc => (h.operand _ rfl).of_mem hc⟩

theorem isWritten_finish (h : r.IsWritten) (hfinish : r.finish = .ok t) :
    t.Everywhere Term.IsWritten := by
  obtain ⟨fs, u, rfl, hc⟩ := exists_of_finish hfinish
  exact (isWritten_some.mp (isWritten_collapse h hc)).2

end Reader

end Term

theorem Query.everywhere_isWritten_of_read {text : String} {t : Term} (h : read text = .ok t) :
    t.Everywhere Term.IsWritten :=
  holds_of_read ⟨nofun, nofun⟩ Term.Reader.isWritten_moves Term.Reader.isWritten_finish
    Token.isWritten_of_list? h

end PromTree
