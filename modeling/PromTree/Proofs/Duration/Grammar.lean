import Mathlib.Data.List.Sort
import PromTree.Proofs.Duration.Overflow

namespace PromTree.Duration

structure Part where
  digits : List Char
  unit : TimeUnit
  ne_nil : digits ≠ []
  isDigit : ∀ c ∈ digits, c.isDigit

namespace Part

def chars (p : Part) : List Char := p.digits ++ p.unit.symbol

def count (p : Part) : Nat := Nat.ofDigitChars 10 p.digits 0

def component (p : Part) : Component := ⟨p.count, p.unit⟩

def capture (p : Part) : Capture := ⟨p.digits, p.unit⟩

theorem component_capture (p : Part) : p.capture.component = p.component := rfl

def ofComponent (c : Component) : Part where
  digits := Nat.toDigits 10 c.count
  unit := c.unit
  ne_nil := Nat.toDigits_ne_nil
  isDigit _ h := Nat.isDigit_of_mem_toDigits (by decide) (by decide) h

theorem component_ofComponent (c : Component) : (ofComponent c).component = c := by
  rw [component, count, ofComponent, Nat.ofDigitChars_toDigits (by decide) (by decide)]

end Part

/-- A lone zero needs no unit. All other texts are made up of parts, and each unit comes up at most
once, the larger ones first. -/
inductive Denotes : String → Nat → Prop where
  | zero : Denotes "0" 0
  | parts (ps : List Part) (ne_nil : ps ≠ []) (units : (ps.map Part.unit).Sublist TimeUnit.all) :
    Denotes (String.ofList (ps.flatMap Part.chars))
      (ps.map fun p => p.count * p.unit.milliseconds).sum

variable {cs rest : List Char} {ps : List Part} {components : List Component} {text : String}
  {ms : Nat}

theorem avoids_isDigit_symbol (u : TimeUnit) (rest : List Char) :
    Avoids Char.isDigit (u.symbol ++ rest) := by
  cases u <;> exact Avoids.cons.mpr (by decide)

theorem avoids_isAlpha_parts (ps : List Part) : Avoids Char.isAlpha (ps.flatMap Part.chars) := by
  cases ps with
  | nil => exact .nil _
  | cons p ps =>
    obtain ⟨d, digits, hd⟩ := List.exists_cons_of_ne_nil p.ne_nil
    have hdigit := p.isDigit d (hd ▸ List.mem_cons_self)
    rw [List.flatMap_cons, Part.chars, hd, List.cons_append, List.cons_append, Avoids.cons]
    rw [isDigit_iff] at hdigit
    rw [Bool.eq_false_iff, Ne, isAlpha_iff]
    omega

theorem group?_part (p : Part) (rest : List Char) :
    p.unit.group? (p.chars ++ rest) = some (p.digits, rest) := by
  have hspan : (p.chars ++ rest).span Char.isDigit = (p.digits, p.unit.symbol ++ rest) := by
    rw [Part.chars, List.append_assoc]
    exact (avoids_isDigit_symbol _ _).span_eq p.isDigit
  rw [TimeUnit.group?, hspan]
  simp [p.ne_nil]

theorem exists_part_of_group? {u : TimeUnit} {digits : List Char}
    (h : u.group? cs = some (digits, rest)) :
    ∃ p : Part, cs = p.chars ++ rest ∧ p.capture = ⟨digits, u⟩ := by
  have hsplit := List.takeWhile_append_dropWhile (p := Char.isDigit) (l := cs)
  simp only [TimeUnit.group?, List.span_eq_takeWhile_dropWhile] at h
  split at h
  · rename_i hgroup
    obtain ⟨hdigits, hrest⟩ := Prod.mk.inj (Option.some.inj h)
    obtain ⟨hne, hsymbol⟩ := hgroup
    have hall : ∀ c ∈ digits, c.isDigit := by
      intro c hc
      rw [← hdigits] at hc
      exact List.mem_takeWhile_imp hc
    refine ⟨⟨digits, u, hdigits ▸ hne, hall⟩, ?_, rfl⟩
    rw [List.isPrefixOf_iff_prefix, List.prefix_iff_eq_append] at hsymbol
    change cs = digits ++ u.symbol ++ rest
    rw [← hdigits, ← hrest, List.append_assoc, hsymbol, hsplit]
  · contradiction

theorem captures?_of_avoids (h : Avoids Char.isDigit cs) (hcs : cs ≠ []) (units : List TimeUnit) :
    captures? units cs = none := by
  induction units with
  | nil => exact if_neg hcs
  | cons u units ih =>
    have hspan : List.span Char.isDigit ([] ++ cs) = ([], cs) := h.span_eq (List.forall_mem_nil _)
    rw [List.nil_append] at hspan
    rw [captures?, ih, TimeUnit.group?, hspan]
    rfl

theorem captures?_nil (units : List TimeUnit) : captures? units [] = some [] := by
  induction units with
  | nil => rfl
  | cons u units ih =>
    rw [captures?, ih]
    rfl

theorem captures?_cons_part {captures : List Capture} {units : List TimeUnit} (p : Part)
    (h : captures? units rest = some captures) :
    captures? (p.unit :: units) (p.chars ++ rest) = some (p.capture :: captures) := by
  rw [captures?, group?_part]
  simp only [Option.bind_eq_bind, Option.bind_some, h]
  rfl

theorem avoids_of_symbol_append {u v : TimeUnit} (huv : u ≠ v) (hrest : Avoids Char.isAlpha rest)
    {rest' : List Char} (h : v.symbol ++ rest = u.symbol ++ rest') :
    Avoids Char.isDigit rest' ∧ rest' ≠ [] := by
  -- only minutes and milliseconds begin alike
  cases u <;> cases v <;>
    simp only [TimeUnit.symbol, List.cons_append, List.nil_append, List.cons.injEq, Char.reduceEq,
      false_and, true_and, ne_eq, not_true_eq_false] at huv h
  · subst h
    exact ⟨Avoids.cons.mpr (by decide), List.cons_ne_nil _ _⟩
  · subst h
    exact absurd (Avoids.cons.mp hrest) (by decide)

theorem captures?_cons_of_ne {u : TimeUnit} {p : Part} (hu : u ≠ p.unit) (units : List TimeUnit)
    (hrest : Avoids Char.isAlpha rest) :
    captures? (u :: units) (p.chars ++ rest) = captures? units (p.chars ++ rest) := by
  rw [captures?]
  cases hgroup : u.group? (p.chars ++ rest) with
  | none => rfl
  | some group =>
    obtain ⟨digits, rest'⟩ := group
    obtain ⟨q, hq, hcapture⟩ := exists_part_of_group? hgroup
    obtain ⟨hdigits, rfl⟩ := Capture.mk.inj hcapture
    have hsame := congrArg (List.span Char.isDigit) hq
    simp only [Part.chars, List.append_assoc,
      (avoids_isDigit_symbol _ _).span_eq p.isDigit,
      (avoids_isDigit_symbol _ _).span_eq q.isDigit, Prod.mk.injEq] at hsame
    obtain ⟨havoids, hne⟩ := avoids_of_symbol_append hu hrest hsame.2
    have hnone := captures?_of_avoids havoids hne units
    simp only [Option.bind_eq_bind, Option.bind_some, hnone]
    rfl

theorem captures?_parts {units : List TimeUnit} (hnodup : units.Nodup)
    (h : (ps.map Part.unit).Sublist units) :
    captures? units (ps.flatMap Part.chars) = some (ps.map Part.capture) := by
  induction units generalizing ps with
  | nil =>
    obtain rfl := List.map_eq_nil_iff.mp (List.sublist_nil.mp h)
    rfl
  | cons u units ih =>
    rw [List.nodup_cons] at hnodup
    cases ps with
    | nil => exact captures?_nil _
    | cons p ps =>
      rw [List.flatMap_cons]
      by_cases hu : u = p.unit
      · subst hu
        exact captures?_cons_part p (ih hnodup.2 (List.cons_sublist_cons.mp h))
      · rw [captures?_cons_of_ne hu units (avoids_isAlpha_parts ps), ← List.flatMap_cons]
        refine ih hnodup.2 ?_
        cases h with
        | cons _ h => exact h
        | cons_cons => exact absurd rfl hu

theorem exists_parts {units : List TimeUnit} {captures : List Capture}
    (h : captures? units cs = some captures) :
    ∃ ps : List Part, cs = ps.flatMap Part.chars ∧ (ps.map Part.unit).Sublist units ∧
      ps.map Part.capture = captures := by
  induction units generalizing cs captures with
  | nil =>
    rw [captures?] at h
    split at h
    · rename_i hcs
      exact ⟨[], hcs, .slnil, Option.some.inj h⟩
    · contradiction
  | cons u units ih =>
    rw [captures?, Option.orElse_eq_orElse, Option.orElse_eq_or, Option.or_eq_some_iff] at h
    rcases h with htaken | ⟨-, hskipped⟩
    · simp only [Option.bind_eq_bind, Option.bind_eq_some_iff] at htaken
      obtain ⟨⟨digits, rest⟩, hgroup, found, hfound, heq⟩ := htaken
      obtain rfl := Option.some.inj heq
      obtain ⟨p, rfl, hp⟩ := exists_part_of_group? hgroup
      obtain ⟨ps, rfl, hsublist, rfl⟩ := ih hfound
      obtain rfl := (Capture.mk.inj hp).2
      exact ⟨p :: ps, rfl, hsublist.cons_cons _, congrArg (· :: _) hp⟩
    · obtain ⟨ps, hcs, hsublist, hcaptures⟩ := ih hskipped
      exact ⟨ps, hcs, hsublist.cons u, hcaptures⟩

theorem captures?_all_eq_some_iff {captures : List Capture} :
    captures? TimeUnit.all cs = some captures ↔ ∃ ps : List Part, cs = ps.flatMap Part.chars ∧
      (ps.map Part.unit).Sublist TimeUnit.all ∧ ps.map Part.capture = captures := by
  constructor
  · exact exists_parts
  · rintro ⟨ps, rfl, hsublist, rfl⟩
    exact captures?_parts (by decide) hsublist

example : captures? TimeUnit.all ['0', '7', 'm', '0', '8', 'm', 's'] =
    some [⟨['0', '7'], .minute⟩, ⟨['0', '8'], .millisecond⟩] := by
  decide

theorem two_le_length_parts (h : ps ≠ []) : 2 ≤ (ps.flatMap Part.chars).length := by
  obtain ⟨p, ps, rfl⟩ := List.exists_cons_of_ne_nil h
  have hdigits := List.length_pos_iff.mpr p.ne_nil
  have hsymbol : 0 < p.unit.symbol.length := by cases p.unit <;> decide
  rw [List.flatMap_cons, Part.chars, List.length_append, List.length_append]
  omega

theorem Denotes.ne_empty (h : Denotes text ms) : text ≠ "" := by
  cases h with
  | zero => decide
  | parts ps ne_nil =>
    have hlength := two_le_length_parts ne_nil
    intro hempty
    rw [String.ofList_eq_empty_iff] at hempty
    rw [hempty] at hlength
    contradiction

theorem denotes_zero_iff : Denotes "0" ms ↔ ms = 0 := by
  constructor
  · intro h
    generalize htext : "0" = text at h
    cases h with
    | zero => rfl
    | parts ps ne_nil =>
      have hlength := two_le_length_parts ne_nil
      have hchars : ['0'] = ps.flatMap Part.chars := String.ofList_injective htext
      rw [← hchars] at hlength
      contradiction
  · rintro rfl
    exact .zero

theorem foldlM_parts (ps : List Part) : (ps.map Part.capture).foldlM Capture.addTo? 0 =
    Checked.ofNat? (ps.map fun p => p.count * p.unit.milliseconds).sum := by
  rw [foldlM_addTo?, List.map_map]
  · rfl
  · rw [List.forall_mem_map]
    exact fun p _ => p.isDigit

theorem parse_ofList_parts (hps : ps ≠ []) (hunits : (ps.map Part.unit).Sublist TimeUnit.all)
    (ms : UInt64) : parse (String.ofList (ps.flatMap Part.chars)) = .ok ms ↔
      (ps.map fun p => p.count * p.unit.milliseconds).sum = ms.toNat := by
  have hlength := two_le_length_parts hps
  have hne (s : String) (hs : s.toList.length < 2) : String.ofList (ps.flatMap Part.chars) ≠ s := by
    rintro rfl
    rw [String.toList_ofList] at hs
    omega
  have hread := captures?_all_eq_some_iff.mpr ⟨ps, rfl, hunits, rfl⟩
  rw [parse, if_neg (hne "" (by decide)), if_neg (hne "0" (by decide)), String.toList_ofList, hread]
  simp only [foldlM_parts, List.isEmpty_map, List.isEmpty_eq_false_iff.mpr hps]
  rw [← Checked.ofNat?_eq_some_iff]
  cases Checked.ofNat? (ps.map fun p => p.count * p.unit.milliseconds).sum <;> simp

theorem parse_empty : parse "" = .error .empty := rfl

theorem parse_zero : parse "0" = .ok 0 := rfl

theorem parse_of_ne_empty (h : text ≠ "") :
    (∃ ms, parse text = .ok ms) ∨ parse text = .error (.invalid text) := by
  rw [parse, if_neg h]
  split_ifs
  · exact .inl ⟨_, rfl⟩
  · split
    · exact .inr rfl
    · split
      · exact .inr rfl
      · split_ifs
        · exact .inr rfl
        · exact .inl ⟨_, rfl⟩

theorem exists_parts_of_parse (hempty : text ≠ "") (hzero : text ≠ "0") {ms : UInt64}
    (h : parse text = .ok ms) : ∃ ps : List Part, ps ≠ [] ∧
      (ps.map Part.unit).Sublist TimeUnit.all ∧ text = String.ofList (ps.flatMap Part.chars) := by
  rw [parse, if_neg hempty, if_neg hzero] at h
  cases hread : captures? TimeUnit.all text.toList with
  | none => simp [hread] at h
  | some captures =>
    obtain ⟨ps, htext, hunits, -⟩ := captures?_all_eq_some_iff.mp hread
    refine ⟨ps, ?_, hunits, by rw [← htext, String.ofList_toList]⟩
    rintro rfl
    exact hempty (String.toList_eq_nil_iff.mp htext)

theorem parse_eq_ok_iff (text : String) (ms : UInt64) :
    parse text = .ok ms ↔ Denotes text ms.toNat := by
  rcases eq_or_ne text "" with rfl | hempty
  · rw [parse_empty]
    exact iff_of_false nofun fun h => h.ne_empty rfl
  rcases eq_or_ne text "0" with rfl | hzero
  · rw [parse_zero, denotes_zero_iff, ← UInt64.toNat_zero, UInt64.toNat_inj, Except.ok.injEq]
    exact eq_comm
  constructor
  · intro h
    obtain ⟨ps, hps, hunits, rfl⟩ := exists_parts_of_parse hempty hzero h
    rw [← (parse_ofList_parts hps hunits ms).mp h]
    exact .parts ps hps hunits
  · intro h
    generalize hms : ms.toNat = n at h
    cases h with
    | zero => contradiction
    | parts ps hps hunits => exact (parse_ofList_parts hps hunits ms).mpr hms.symm

/-- Reading accepts the texts of the grammar whose sum fits 64 bits, and no others. -/
theorem parse_eq_iff_denotes (text : String) :
    (∀ ms : UInt64, parse text = .ok ms ↔ Denotes text ms.toNat) ∧
    (parse text = .error .empty ↔ text = "") ∧
    (parse text = .error (.invalid text) ↔
      text ≠ "" ∧ ∀ ms < UInt64.size, ¬Denotes text ms) := by
  refine ⟨parse_eq_ok_iff text, ?_, ?_⟩
  · constructor
    · intro h
      by_contra hempty
      rcases parse_of_ne_empty hempty with ⟨ms, hok⟩ | hinvalid
      · rw [hok] at h
        cases h
      · rw [hinvalid] at h
        cases h
    · rintro rfl
      exact parse_empty
  · constructor
    · intro h
      refine ⟨?_, fun ms hms hdenotes => ?_⟩
      · rintro rfl
        contradiction
      · rw [← UInt64.toNat_ofNat_of_lt hms, ← parse_eq_ok_iff, h] at hdenotes
        contradiction
    · rintro ⟨hempty, hnone⟩
      rcases parse_of_ne_empty hempty with ⟨ms, hok⟩ | hinvalid
      · exact absurd ((parse_eq_ok_iff text ms).mp hok) (hnone _ ms.toNat_lt)
      · exact hinvalid

end PromTree.Duration
