import PromTree.Proofs.Query.Spelling

namespace PromTree.Quoted

def escapes (escaped : Bool) (c : Char) : Bool := c == '\\' && !escaped

def split? (escaped : Bool) : List Char → Option (List Char × List Char)
  | [] => none
  | c :: cs =>
    if c = '"' ∧ escaped = false then some ([], cs)
    else (split? (escapes escaped c) cs).map fun (body, rest) => (c :: body, rest)

def unescape : List Char → List Char
  | '\\' :: '\\' :: cs => '\\' :: unescape cs
  | '\\' :: '"' :: cs => '"' :: unescape cs
  | '\\' :: 'n' :: cs => '\n' :: unescape cs
  | c :: cs => c :: unescape cs
  | [] => []

/-- Reads the string that ends at the first quote. -/
def read? (cs : List Char) : Option (String × List Char) :=
  (split? false cs).map fun (body, rest) => (String.ofList (unescape body), rest)

variable {escaped : Bool} {cs body rest : List Char}

theorem forall_before_cons {d : Char} :
    (∀ before after, d :: body = before ++ '"' :: after → before.foldl escapes escaped = true) ↔
      (d = '"' → escaped = true) ∧ ∀ before after, body = before ++ '"' :: after →
        before.foldl escapes (escapes escaped d) = true := by
  constructor
  · intro h
    refine ⟨fun hd => h [] body (by rw [hd, List.nil_append]), fun before after hbody => ?_⟩
    exact h (d :: before) after (by rw [hbody, List.cons_append])
  · rintro ⟨hd, hbody⟩ before after h
    cases before with
    | nil => exact hd (List.cons.inj h).1
    | cons _ before =>
      obtain ⟨rfl, hrest⟩ := List.cons.inj h
      exact hbody before after hrest

theorem split?_eq_some_iff : split? escaped cs = some (body, rest) ↔
    cs = body ++ '"' :: rest ∧ body.foldl escapes escaped = false ∧
      ∀ before after, body = before ++ '"' :: after → before.foldl escapes escaped = true := by
  -- whether a character is escaped depends on the one before it, so the body is taken off from the left
  induction cs generalizing escaped body with
  | nil => simp [split?]
  | cons c cs ih =>
    rw [split?]
    cases body with
    | nil =>
      split_ifs with hend
      · simp [hend]
      · simpa using fun hc _ => Bool.eq_true_of_not_eq_false fun hescaped => hend ⟨hc, hescaped⟩
    | cons d body =>
      rw [forall_before_cons, List.foldl_cons, List.cons_append, List.cons.injEq]
      split_ifs with hend
      · obtain ⟨rfl, rfl⟩ := hend
        constructor
        · exact nofun
        · rintro ⟨⟨hd, -⟩, -, hescaped, -⟩
          exact absurd (hescaped hd.symm) Bool.false_ne_true
      · have hmap : (split? (escapes escaped c) cs).map (fun (body, rest) => (c :: body, rest)) =
            some (d :: body, rest) ↔ c = d ∧ split? (escapes escaped c) cs = some (body, rest) := by
          simp [and_comm]
        rw [hmap, ih]
        constructor
        · rintro ⟨rfl, hcs, hbody, hbefore⟩
          have hescaped (hc : c = '"') : escaped = true :=
            Bool.eq_true_of_not_eq_false fun h => hend ⟨hc, h⟩
          exact ⟨⟨rfl, hcs⟩, hbody, hescaped, hbefore⟩
        · rintro ⟨⟨rfl, hcs⟩, hbody, -, hbefore⟩
          exact ⟨rfl, hcs, hbody, hbefore⟩

theorem escapeChar_cases (c : Char) :
    c = '\\' ∧ escapeChar c = ['\\', '\\'] ∨ c = '"' ∧ escapeChar c = ['\\', '"'] ∨
      c = '\n' ∧ escapeChar c = ['\\', 'n'] ∨
      (c ≠ '\\' ∧ c ≠ '"' ∧ c ≠ '\n') ∧ escapeChar c = [c] := by
  rw [escapeChar]
  split_ifs <;> simp_all

theorem split?_escapeChar (c : Char) (cs : List Char) : split? false (escapeChar c ++ cs) =
    (split? false cs).map fun (body, rest) => (escapeChar c ++ body, rest) := by
  rcases escapeChar_cases c with ⟨-, h⟩ | ⟨-, h⟩ | ⟨-, h⟩ | ⟨⟨hbackslash, hquote, -⟩, h⟩
  · simp [h, split?, escapes, Function.comp_def]
  · simp [h, split?, escapes, Function.comp_def]
  · simp [h, split?, escapes, Function.comp_def]
  · have hplain : (c == '\\') = false := beq_eq_false_iff_ne.mpr hbackslash
    simp [h, split?, escapes, hplain, hquote]

theorem unescape_escapeChar (c : Char) (cs : List Char) :
    unescape (escapeChar c ++ cs) = c :: unescape cs := by
  rcases escapeChar_cases c with ⟨rfl, h⟩ | ⟨rfl, h⟩ | ⟨rfl, h⟩ | ⟨⟨hbackslash, -⟩, h⟩
  · rfl
  · rfl
  · rfl
  · rw [h, List.singleton_append, unescape] <;> simp [hbackslash]

theorem newline_not_mem_escapeChar (c : Char) : '\n' ∉ escapeChar c := by
  rcases escapeChar_cases c with ⟨-, h⟩ | ⟨-, h⟩ | ⟨-, h⟩ | ⟨⟨-, -, hnewline⟩, h⟩
  · simp [h]
  · simp [h]
  · simp [h]
  · simpa [h, eq_comm] using hnewline

theorem split?_flatMap_escapeChar (s rest : List Char) :
    split? false (s.flatMap escapeChar ++ '"' :: rest) = some (s.flatMap escapeChar, rest) := by
  induction s with
  | nil => rfl
  | cons c s ih =>
    rw [List.flatMap_cons, List.append_assoc, split?_escapeChar, ih, Option.map_some]

theorem unescape_flatMap_escapeChar (s : List Char) : unescape (s.flatMap escapeChar) = s := by
  induction s with
  | nil => rfl
  | cons c s ih => rw [List.flatMap_cons, unescape_escapeChar, ih]

/-- What is written for a string between quotes has no line break and no quote that is not escaped,
and does not escape the quote after it. So that quote ends the string, whatever follows, and the string
is read back, by the lexer too. -/
theorem read?_escapeString (s : String) (rest : List Char) :
    let text := (escapeString s).toList
    text.foldl escapes false = false ∧
      (∀ before after, text = before ++ '"' :: after → before.foldl escapes false = true) ∧
      '\n' ∉ text ∧ read? (text ++ '"' :: rest) = some (s, rest) ∧
      Literal.string? '"' (text ++ '"' :: rest) = some (s.toList, rest) := by
  intro text
  have htext : text = s.toList.flatMap escapeChar := String.toList_ofList
  have hsplit : split? false (text ++ '"' :: rest) = some (text, rest) :=
    htext ▸ split?_flatMap_escapeChar s.toList rest
  obtain ⟨-, hclosed, hquotes⟩ := split?_eq_some_iff.mp hsplit
  have hvalue : unescape text = s.toList := htext ▸ unescape_flatMap_escapeChar s.toList
  refine ⟨hclosed, hquotes, fun hnewline => ?_, ?_, htext ▸ Token.string?_escape s rest⟩
  · obtain ⟨c, -, hc⟩ := List.mem_flatMap.mp (htext ▸ hnewline)
    exact newline_not_mem_escapeChar c hc
  · simp [read?, hsplit, hvalue]

end PromTree.Quoted
