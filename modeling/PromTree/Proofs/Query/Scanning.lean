import Mathlib.Data.List.TakeDrop
import Mathlib.Data.List.TakeWhile
import Mathlib.Tactic.IntervalCases
import PromTree.Expr.Printer
import PromTree.Query.Lexer
import PromTree.Query.Reader

/-!
What the lexer makes of a piece of text that something follows. A piece can only be told from what
follows it if that begins with a character that cannot belong to the piece.
-/

namespace PromTree

theorem isAlpha_iff (c : Char) : c.isAlpha ↔
    65 ≤ c.toNat ∧ c.toNat ≤ 90 ∨ 97 ≤ c.toNat ∧ c.toNat ≤ 122 := by
  delta Char.isAlpha Char.isUpper Char.isLower
  simp [UInt32.le_iff_toNat_le]

theorem isDigit_iff (c : Char) : c.isDigit ↔ 48 ≤ c.toNat ∧ c.toNat ≤ 57 := by
  delta Char.isDigit
  simp [UInt32.le_iff_toNat_le]

def Avoids (p : Char → Bool) (rest : List Char) : Prop := ∀ c ∈ rest.head?, p c = false

namespace Avoids

variable {p q : Char → Bool} {rest : List Char}

@[simp]
theorem nil (p : Char → Bool) : Avoids p [] := nofun

@[simp]
theorem cons {c : Char} : Avoids p (c :: rest) ↔ p c = false := by simp [Avoids]

theorem append {cs : List Char} (h : Avoids p cs) (h' : Avoids p rest) : Avoids p (cs ++ rest) := by
  cases cs with
  | nil => exact h'
  | cons c cs => exact h

theorem mono (h : Avoids q rest) (hpq : ∀ c, p c → q c) : Avoids p rest := by
  intro c hc
  have hq := h c hc
  by_contra hp
  rw [hpq c (by simpa using hp)] at hq
  contradiction

theorem span_append (h : Avoids p rest) (cs : List Char) :
    (cs ++ rest).span p = ((cs.span p).1, (cs.span p).2 ++ rest) := by
  simp only [List.span_eq_takeWhile_dropWhile]
  induction cs with
  | nil =>
    cases rest with
    | nil => rfl
    | cons c rest => simp [cons.mp h]
  | cons c cs ih =>
    by_cases hc : p c
    · simpa [hc] using ih
    · simp [hc]

theorem span_eq (h : Avoids p rest) {cs : List Char} (hcs : ∀ c ∈ cs, p c) :
    (cs ++ rest).span p = (cs, rest) := by
  rw [h.span_append, List.span_eq_takeWhile_dropWhile, List.takeWhile_eq_self_iff.mpr hcs,
    List.dropWhile_eq_nil_iff.mpr hcs]
  rfl

end Avoids

namespace Token

inductive Scans : Place → List Char → List Token → Place → List Char → Prop where
  | done (place : Place) (cs : List Char) : Scans place cs [] place cs
  | blank {place place' place'' : Place} {c : Char} {cs rest rest' : List Char} {ts : List Token}
    (h : step? place c cs = some (place', none, rest)) (shorter : rest.length ≤ cs.length)
    (scans : Scans place' rest ts place'' rest') : Scans place (c :: cs) ts place'' rest'
  | token {place place' place'' : Place} {c : Char} {cs rest rest' : List Char} {t : Token}
    {ts : List Token} (h : step? place c cs = some (place', some t, rest))
    (shorter : rest.length ≤ cs.length) (scans : Scans place' rest ts place'' rest') :
    Scans place (c :: cs) (t :: ts) place'' rest'

namespace Scans

variable {place place' place'' : Place} {cs rest rest' : List Char} {ts ts' : List Token} {t : Token}

theorem trans (h : Scans place cs ts place' rest) (h' : Scans place' rest ts' place'' rest') :
    Scans place cs (ts ++ ts') place'' rest' := by
  induction h with
  | done => exact h'
  | blank h shorter _ ih => exact .blank h shorter (ih h')
  | token h shorter _ ih => exact .token h shorter (ih h')

theorem listFrom? (h : Scans place cs ts place' []) {fuel : Nat} (hf : cs.length ≤ fuel) :
    Token.listFrom? fuel place cs = some ts := by
  generalize hrest : [] = rest at h
  induction h generalizing fuel with
  | done =>
    subst hrest
    cases fuel <;> rfl
  | blank h shorter _ ih | token h shorter _ ih =>
    cases fuel with
    | zero => contradiction
    | succ fuel =>
      rw [List.length_cons, Nat.succ_le_succ_iff] at hf
      have hrec := ih (shorter.trans hf) hrest
      simp [Token.listFrom?, h, hrec]

theorem list? {text : String} (h : Scans .outside text.toList ts place' []) :
    Token.list? text = some ts :=
  h.listFrom? le_rfl

end Scans

theorem isSpace_of_isWordStart {c : Char} (h : isWordStart c) : isSpace c = false ∧ c ≠ '#' := by
  constructor
  · rw [Bool.eq_false_iff]
    intro hc
    simp only [isSpace, Bool.or_eq_true, beq_iff_eq] at hc
    rcases hc with (((rfl | rfl) | rfl) | rfl) | rfl <;> contradiction
  · rintro rfl
    contradiction

theorem isSpace_of_isNameStart {c : Char} (h : isWordStart c || c == ':') :
    isSpace c = false ∧ c ≠ '#' := by
  rcases Bool.or_eq_true _ _ |>.mp h with h | h
  · exact isSpace_of_isWordStart h
  · rw [beq_iff_eq.mp h]
    decide

def isNameChar (c : Char) : Bool := Literal.isWordChar c || c == ':'

theorem outside?_word {c : Char} {cs rest : List Char} (hc : isWordStart c || c == ':')
    (hcs : ∀ d ∈ c :: cs, isNameChar d) (hrest : Avoids isNameChar rest) :
    outside? c (cs ++ rest) = some (.outside, some (ofWord (c :: cs)), rest) := by
  have hblank := isSpace_of_isNameStart hc
  have hspan : (c :: (cs ++ rest)).span (fun d => Literal.isWordChar d || d == ':') =
      (c :: cs, rest) := hrest.span_eq hcs
  simp only [outside?, hblank.1, hblank.2, hc, Bool.false_eq_true, ↓reduceIte, hspan]

theorem inBraces?_word {c : Char} {cs rest : List Char} (hc : isWordStart c)
    (hcs : ∀ d ∈ c :: cs, Literal.isWordChar d) (hrest : Avoids Literal.isWordChar rest)
    (hspace : rest.head? ≠ some ' ') :
    inBraces? c (cs ++ rest) = some (.braces, some (.word (String.ofList (c :: cs))), rest) := by
  have hblank := isSpace_of_isWordStart hc
  have hspan := hrest.span_eq hcs
  rw [List.cons_append] at hspan
  simp only [inBraces?, hblank.1, hblank.2, hc, Bool.false_eq_true, ↓reduceIte]
  rw [hspan]
  simp [hspace]

theorem stringRest?_escape (s rest : List Char) {fuel : Nat}
    (hf : (s.flatMap escapeChar).length < fuel) :
    Literal.stringRest? '"' fuel (s.flatMap escapeChar ++ '"' :: rest) = some (s, rest) := by
  induction s generalizing fuel with
  | nil =>
    cases fuel with
    | zero => contradiction
    | succ fuel => rfl
  | cons c s ih =>
    cases fuel with
    | zero => contradiction
    | succ fuel =>
      rw [List.flatMap_cons, List.length_append] at hf
      rw [List.flatMap_cons, List.append_assoc]
      have hlength : 0 < (escapeChar c).length := by
        rw [escapeChar]
        split_ifs <;> simp
      have hrest := ih (show (s.flatMap escapeChar).length < fuel by omega)
      by_cases hbackslash : c = '\\'
      · subst hbackslash
        simp [Literal.stringRest?, escapeChar, Literal.escaped?, hrest]
      by_cases hquote : c = '"'
      · subst hquote
        simp [Literal.stringRest?, escapeChar, Literal.escaped?, hrest]
      by_cases hline : c = '\n'
      · subst hline
        simp [Literal.stringRest?, escapeChar, Literal.escaped?, hrest]
      · simp [Literal.stringRest?, escapeChar, hbackslash, hquote, hline, hrest]

def isNumberChar (c : Char) : Bool := Literal.isWordChar c || c == '.' || c == '+' || c == '-'

def goesOn (c : Char) : Bool := isNumberChar c || c == ':'

theorem goesOn_of_isNumberChar {c : Char} (h : isNumberChar c) : goesOn c := by simp [goesOn, h]

theorem goesOn_of_isNameChar {c : Char} (h : isNameChar c) : goesOn c := by
  rcases Bool.or_eq_true _ _ |>.mp h with h | h <;> simp [goesOn, isNumberChar, h]

theorem avoids_digits {rest : List Char} (h : Avoids isNumberChar rest) :
    Avoids Char.isDigit rest :=
  h.mono fun c hc => by simp [isNumberChar, Literal.isWordChar, Char.isAlphanum, hc]

variable {cs rest : List Char}

theorem head?_append_ne {p : Char → Bool} (h : Avoids p rest) {c : Char} (hc : p c)
    (hcs : cs.head? ≠ some c) : (cs ++ rest).head? ≠ some c := by
  cases cs with
  | nil =>
    intro he
    rw [h c he] at hc
    contradiction
  | cons d cs => exact hcs

theorem spanFraction_eq (h : cs.head? ≠ some '.') : Literal.spanFraction cs = ([], cs) := by
  fun_cases Literal.spanFraction cs with
  | case1 cs => exact absurd rfl h
  | case2 => rfl

theorem spanFraction_append (h : Avoids isNumberChar rest) (cs : List Char) :
    Literal.spanFraction (cs ++ rest) =
      ((Literal.spanFraction cs).1, (Literal.spanFraction cs).2 ++ rest) := by
  by_cases hcs : cs.head? = some '.'
  · obtain ⟨cs, rfl⟩ : ∃ cs', cs = '.' :: cs' := List.head?_eq_some_iff.mp hcs
    rw [List.cons_append, Literal.spanFraction, (avoids_digits h).span_append]
    rfl
  · rw [spanFraction_eq hcs, spanFraction_eq (head?_append_ne h (by decide) hcs)]

theorem spanSign_eq (h : cs.head? ≠ some '+') (h' : cs.head? ≠ some '-') :
    Literal.spanSign cs = ([], cs) := by
  fun_cases Literal.spanSign cs with
  | case1 cs => exact absurd rfl h
  | case2 cs => exact absurd rfl h'
  | case3 => rfl

theorem spanSign_append (h : Avoids isNumberChar rest) (cs : List Char) :
    Literal.spanSign (cs ++ rest) =
      ((Literal.spanSign cs).1, (Literal.spanSign cs).2 ++ rest) := by
  by_cases hplus : cs.head? = some '+'
  · obtain ⟨cs, rfl⟩ : ∃ cs', cs = '+' :: cs' := List.head?_eq_some_iff.mp hplus
    rfl
  by_cases hminus : cs.head? = some '-'
  · obtain ⟨cs, rfl⟩ : ∃ cs', cs = '-' :: cs' := List.head?_eq_some_iff.mp hminus
    rfl
  · rw [spanSign_eq hplus hminus, spanSign_eq (head?_append_ne h (by decide) hplus)
      (head?_append_ne h (by decide) hminus)]

theorem spanExponent_append (h : Avoids isNumberChar rest) (cs : List Char) :
    Literal.spanExponent (cs ++ rest) =
      ((Literal.spanExponent cs).1, (Literal.spanExponent cs).2 ++ rest) := by
  cases cs with
  | nil =>
    cases rest with
    | nil => rfl
    | cons c rest =>
      have hc : ¬(c = 'e' ∨ c = 'E') := by
        rintro (rfl | rfl) <;> exact absurd (Avoids.cons.mp h) (by decide)
      rw [List.nil_append, Literal.spanExponent, if_neg hc]
      rfl
  | cons c cs =>
    rw [List.cons_append, Literal.spanExponent, Literal.spanExponent]
    split
    · simp only [spanSign_append h, (avoids_digits h).span_append]
    · rfl

theorem spanDecimal_append (h : Avoids isNumberChar rest) (cs : List Char) :
    Literal.spanDecimal (cs ++ rest) =
      ((Literal.spanDecimal cs).1, (Literal.spanDecimal cs).2 ++ rest) := by
  simp only [Literal.spanDecimal, (avoids_digits h).span_append, spanFraction_append h,
    spanExponent_append h]

theorem isWordChar_of_value {c : Char} (h : Digits.value c < 16) : Literal.isWordChar c := by
  have hletter (low high : Char) (hl : low ≤ c ∧ c ≤ high) (hlow : 'a' ≤ low ∧ high ≤ 'z' ∨
      'A' ≤ low ∧ high ≤ 'Z') : c.isAlpha := by
    rw [isAlpha_iff]
    simp only [Char.le_def, UInt32.le_iff_toNat_le, Char.toNat_val, Char.reduceToNat] at hl hlow
    omega
  rw [Literal.isWordChar, Char.isAlphanum, Bool.or_eq_true, Bool.or_eq_true]
  rw [Digits.value] at h
  split_ifs at h with hdigit hlower hupper
  · exact .inl (.inr hdigit)
  · exact .inl (.inl (hletter 'a' 'f' hlower (.inl (by decide))))
  · exact .inl (.inl (hletter 'A' 'F' hupper (.inr (by decide))))
  · contradiction

theorem spanNumber_eq (hx : ∀ cs', cs ≠ '0' :: 'x' :: cs') (hX : ∀ cs', cs ≠ '0' :: 'X' :: cs') :
    Literal.spanNumber cs = Literal.spanDecimal cs := by
  fun_cases Literal.spanNumber cs with
  | case1 cs => exact absurd rfl (hx cs)
  | case2 cs => exact absurd rfl (hX cs)
  | case3 => rfl

theorem append_ne_of_avoids (h : Avoids isNumberChar rest) {c d : Char} (hc : isNumberChar c)
    (hd : isNumberChar d) (hcs : ∀ cs', cs ≠ c :: d :: cs') (cs' : List Char) :
    cs ++ rest ≠ c :: d :: cs' := by
  have hhead (b : Char) (hb : isNumberChar b) (tail : List Char) : rest ≠ b :: tail := by
    rintro rfl
    rw [Avoids.cons.mp h] at hb
    contradiction
  rcases cs with _ | ⟨a, _ | ⟨b, cs⟩⟩
  · exact hhead c hc _
  · intro he
    exact hhead d hd _ (List.cons.inj he).2
  · intro he
    simp only [List.cons_append, List.cons.injEq] at he
    exact hcs cs (by rw [he.1, he.2.1])

theorem spanNumber_append (h : Avoids isNumberChar rest) (cs : List Char) :
    Literal.spanNumber (cs ++ rest) =
      ((Literal.spanNumber cs).1, (Literal.spanNumber cs).2 ++ rest) := by
  have hdigits : Avoids (fun c => decide (Digits.value c < 16)) rest := by
    refine h.mono fun c hc => ?_
    simp [isNumberChar, isWordChar_of_value (of_decide_eq_true hc)]
  by_cases hx : ∃ cs', cs = '0' :: 'x' :: cs'
  · obtain ⟨cs, rfl⟩ := hx
    simp only [List.cons_append, Literal.spanNumber, hdigits.span_append]
  by_cases hX : ∃ cs', cs = '0' :: 'X' :: cs'
  · obtain ⟨cs, rfl⟩ := hX
    simp only [List.cons_append, Literal.spanNumber, hdigits.span_append]
  · rw [not_exists] at hx hX
    rw [spanNumber_eq hx hX, spanNumber_eq (append_ne_of_avoids h (by decide) (by decide) hx)
      (append_ne_of_avoids h (by decide) (by decide) hX), spanDecimal_append h]

theorem number?_append (h : Avoids isNumberChar rest) {t : Token}
    (ht : number? cs = some (t, [])) : number? (cs ++ rest) = some (t, rest) := by
  have hword : Avoids Literal.isWordChar rest := h.mono fun c hc => by simp [isNumberChar, hc]
  have hhead : rest.head?.any Literal.isWordChar = false := by
    rw [Option.any_eq_false]
    exact fun c hc => by simpa using hword c hc
  simp only [number?] at ht ⊢
  rw [hword.span_append, spanNumber_append h]
  cases hs : Span.read? (cs.span Literal.isWordChar).1 with
  | some s =>
    simp only [hs, Option.some.injEq, Prod.mk.injEq] at ht ⊢
    rw [ht.2]
    exact ⟨ht.1, rfl⟩
  | none =>
    simp only [hs] at ht ⊢
    split at ht
    · contradiction
    · obtain ⟨x, hx, hxt⟩ := Option.map_eq_some_iff.mp ht
      rw [Prod.mk.injEq] at hxt
      rw [hxt.2, List.nil_append, hhead, hx, ← hxt.1]
      rfl

theorem mem_of_isDigit {c : Char} (h : c.isDigit) :
    c ∈ ['0', '1', '2', '3', '4', '5', '6', '7', '8', '9'] := by
  have hbounds : 48 ≤ c.toNat ∧ c.toNat ≤ 57 := by
    simpa [Char.isDigit, UInt32.le_iff_toNat_le] using h
  rw [← Char.ofNat_toNat c]
  generalize c.toNat = n at hbounds
  obtain ⟨hlow, hhigh⟩ := hbounds
  interval_cases n <;> decide

theorem of_isDigit {p : Char → Bool}
    (h : ['0', '1', '2', '3', '4', '5', '6', '7', '8', '9'].all p) {c : Char} (hc : c.isDigit) :
    p c :=
  List.all_eq_true.mp h c (mem_of_isDigit hc)

theorem outside?_number {c : Char} {t : Token}
    (hc : c.isDigit || (c == '.' && cs.head?.any Char.isDigit))
    (ht : number? (c :: cs) = some (t, [])) (h : Avoids isNumberChar rest) :
    outside? c (cs ++ rest) = some (.outside, some t, rest) := by
  have hother : isSpace c = false ∧ c ≠ '#' ∧ (isWordStart c || c == ':') = false := by
    rcases Bool.or_eq_true _ _ |>.mp hc with hdigit | hpoint
    · have hdigits := of_isDigit (p := fun c =>
        !isSpace c && c != '#' && !(isWordStart c || c == ':')) (by decide) hdigit
      simpa [and_assoc] using hdigits
    · rw [beq_iff_eq.mp (Bool.and_eq_true _ _ |>.mp hpoint).1]
      decide
  have hhead : c.isDigit || (c == '.' && (cs ++ rest).head?.any Char.isDigit) := by
    cases cs with
    | nil => simp_all
    | cons d cs => exact hc
  have hnumber := number?_append h ht
  rw [List.cons_append] at hnumber
  simp only [outside?, hother, hhead, hnumber, Bool.false_eq_true, ↓reduceIte]
  rfl

theorem inBrackets?_number {colonSeen : Bool} {c : Char} {t : Token} (hc : c.isDigit)
    (ht : number? (c :: cs) = some (t, [])) (h : Avoids isNumberChar rest) :
    inBrackets? colonSeen c (cs ++ rest) = some (.brackets colonSeen, some t, rest) := by
  have hspace : isSpace c = false := by
    simpa using of_isDigit (p := fun c => !isSpace c) (by decide) hc
  have hnumber := number?_append h ht
  rw [List.cons_append] at hnumber
  simp only [inBrackets?, hspace, hc, hnumber, Bool.false_eq_true, ↓reduceIte]
  rfl

theorem eq_ofWord_of_outside? {c : Char} {t : Token} (hc : isWordStart c || c == ':')
    (ht : outside? c cs = some (.outside, some t, [])) :
    t = ofWord (c :: cs) ∧ ∀ d ∈ c :: cs, isNameChar d := by
  have hblank := isSpace_of_isNameStart hc
  simp only [outside?, hblank.1, hblank.2, hc, Bool.false_eq_true, ↓reduceIte] at ht
  simp only [List.span_eq_takeWhile_dropWhile, Option.some.injEq, Prod.mk.injEq, true_and] at ht
  have hall := List.dropWhile_eq_nil_iff.mp ht.2
  rw [List.takeWhile_eq_self_iff.mpr hall] at ht
  exact ⟨ht.1.symm, hall⟩

theorem number?_of_outside? {c : Char} {t : Token} (hword : (isWordStart c || c == ':') = false)
    (hc : c.isDigit || (c == '.' && cs.head?.any Char.isDigit))
    (ht : outside? c cs = some (.outside, some t, [])) : number? (c :: cs) = some (t, []) := by
  by_cases hspace : isSpace c
  · simp [outside?, hspace] at ht
  by_cases hcomment : c = '#'
  · simp [outside?, hspace, if_pos hcomment] at ht
  simp only [outside?, hspace, hcomment, hword, hc, Bool.false_eq_true, ↓reduceIte] at ht
  obtain ⟨⟨t', rest'⟩, hnumber, ht⟩ := Option.bind_eq_some_iff.mp ht
  simp only [Option.some.injEq, Prod.mk.injEq, true_and] at ht
  rw [hnumber, ht.1, ht.2]

def ofChars? : List Char → Option Token
  | c :: cs =>
    match outside? c cs with
    | some (.outside, some t, []) => some t
    | _ => none
  | [] => none

theorem not_numeric_of_symbol {c : Char} {t : Token} (hword : (isWordStart c || c == ':') = false)
    (hnumber : (c.isDigit || (c == '.' && cs.head?.any Char.isDigit)) = false)
    (ht : outside? c cs = some (.outside, some t, rest)) : t.numeric? = none := by
  by_cases hspace : isSpace c
  · simp [outside?, hspace] at ht
  by_cases hcomment : c = '#'
  · simp [outside?, hspace, if_pos hcomment] at ht
  simp only [outside?, hspace, hcomment, hword, hnumber, Bool.false_eq_true, ↓reduceIte] at ht
  split at ht
  case h_1 | h_2 | h_3 =>
    obtain ⟨⟨s, rest'⟩, -, ht⟩ := Option.bind_eq_some_iff.mp ht
    simp only [Option.some.injEq, Prod.mk.injEq] at ht
    rw [← ht.2.1]
    rfl
  all_goals simp only [Option.some.injEq, Prod.mk.injEq, reduceCtorEq, false_and, true_and] at ht
  all_goals exact ht.1 ▸ rfl

theorem outside?_of_numeric {c : Char} {t : Token} (ht : ofChars? (c :: cs) = some t)
    (hn : t.numeric?.isSome) (h : Avoids goesOn rest) :
    outside? c (cs ++ rest) = some (.outside, some t, rest) := by
  rw [ofChars?] at ht
  split at ht
  · rename_i t' hout
    obtain rfl := Option.some.inj ht
    cases hword : isWordStart c || c == ':' with
    | true =>
      obtain ⟨rfl, hcs⟩ := eq_ofWord_of_outside? hword hout
      exact outside?_word hword hcs (h.mono fun _ => goesOn_of_isNameChar)
    | false =>
      cases hnumber : c.isDigit || (c == '.' && cs.head?.any Char.isDigit) with
      | true =>
        exact outside?_number hnumber (number?_of_outside? hword hnumber hout)
          (h.mono fun _ => goesOn_of_isNumberChar)
      | false =>
        rw [not_numeric_of_symbol hword hnumber hout] at hn
        contradiction
  · contradiction

end Token

end PromTree
