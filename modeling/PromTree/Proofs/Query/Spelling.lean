import PromTree.Proofs.Query.Scanning

namespace PromTree

theorem toLower_eq_self {text : String} (h : ∀ c ∈ text.toList, c.toLower = c) :
    text.toLower = text := by
  change text.map Char.toLower = text
  rw [← String.toList_inj, String.toList_map]
  exact (List.map_congr_left h).trans (List.map_id' _)

namespace Token

def isName (text : String) : Bool :=
  text.toList.head?.any (fun c => isWordStart c || c == ':') && text.toList.all isNameChar

def isIdentifier (text : String) : Bool :=
  text.toList.head?.any isWordStart && text.toList.all Literal.isWordChar

def isWord (text : String) : Bool := isName text && ofWord text.toList == .word text

def isFunctionName (text : String) : Bool := isWord text && (Keyword.ofWord? text).isNone

def isLabel (text : String) : Bool :=
  isWord text && (Keyword.ofWord? text).all Keyword.isLabelName

def isMetricName (text : String) : Bool :=
  isName text &&
    match ofWord text.toList with
    | .metric _ => true
    | .word text => (Keyword.ofWord? text).all Keyword.isMetricName
    | _ => false

theorem isFunctionName_of_lower {text : String} (hstart : text.toList.head?.any isWordStart)
    (hchars : text.toList.all fun c => Literal.isWordChar c && c.toLower == c)
    (hnumber : text ≠ "inf" ∧ text ≠ "nan") (hkeyword : (Keyword.table.lookup text).isNone) :
    isFunctionName text := by
  have hchar (c : Char) (hc : c ∈ text.toList) : Literal.isWordChar c ∧ c.toLower = c := by
    simpa using List.all_eq_true.mp hchars c hc
  have hself := toLower_eq_self fun c hc => (hchar c hc).2
  have hcolon : ':' ∉ text.toList := fun hmem => absurd (hchar _ hmem).1 (by decide)
  have hname : isName text := by
    obtain ⟨c, hc, hword⟩ := Option.any_eq_true _ _ |>.mp hstart
    simp only [isName, hc, Option.any_some, hword, Bool.true_or, Bool.true_and, List.all_eq_true]
    exact fun c hc => by rw [isNameChar, (hchar c hc).1, Bool.true_or]
  simp [isFunctionName, isWord, hname, ofWord, hself, Keyword.ofWord?, hnumber, hcolon,
    Option.isNone_iff_eq_none.mp hkeyword]

def separated (items : List (List Token)) : List Token := [Token.comma].intercalate items

def labelList (labels : List String) : List Token :=
  .leftParen :: separated (labels.map fun l => [.word l]) ++ [.rightParen]

end Token

def LabelMatcher.tokens (m : LabelMatcher) : List Token :=
  [.word m.name, .matchOperator m.matchType, .string m.value]

namespace Token

/-- Before what cannot go on with it, the text is split into these tokens. -/
def Spells (cs : List Char) (ts : List Token) : Prop :=
  ∀ rest, Avoids goesOn rest → Scans .outside (cs ++ rest) ts .outside rest

variable {cs cs' rest : List Char} {ts ts' : List Token} {place : Place}

theorem Spells.nil : Spells [] [] := fun rest _ => .done _ rest

theorem Spells.append (h : Spells cs ts) (h' : Spells cs' ts') (hc : Avoids goesOn cs') :
    Spells (cs ++ cs') (ts ++ ts') := by
  intro rest hrest
  rw [List.append_assoc]
  exact (h _ (hc.append hrest)).trans (h' rest hrest)

theorem Spells.blank (h : Spells cs ts) : Spells (' ' :: cs) ts :=
  fun rest hrest => .blank rfl le_rfl (h rest hrest)

theorem scans_blank (rest : List Char) : Scans .outside (' ' :: rest) [] .outside rest :=
  .blank rfl le_rfl (.done _ rest)

theorem spells_rightParen : Spells [')'] [.rightParen] := fun rest _ =>
  .token rfl le_rfl (.done _ rest)

theorem scans_name {text : String} (h : isName text) (hrest : Avoids goesOn rest) :
    Scans .outside (text.toList ++ rest) [ofWord text.toList] .outside rest := by
  simp only [isName, Bool.and_eq_true, List.all_eq_true] at h
  cases hcs : text.toList with
  | nil => simp [hcs] at h
  | cons c cs =>
    rw [hcs] at h
    exact .token (outside?_word h.1 h.2 (hrest.mono fun _ => goesOn_of_isNameChar))
      (by simp) (.done _ rest)

theorem spells_name {text : String} (h : isName text) : Spells text.toList [ofWord text.toList] :=
  fun _ => scans_name h

theorem spells_word {text : String} (h : isWord text) : Spells text.toList [.word text] := by
  simp only [isWord, Bool.and_eq_true, beq_iff_eq] at h
  exact h.2 ▸ spells_name h.1

theorem isWord_of_mem_table : ∀ k ∈ Keyword.table, isWord k.1 := by decide +kernel

theorem spells_keyword (text : String) (k : Keyword) (h : (text, k) ∈ Keyword.table) :
    Spells text.toList [.word text] := spells_word (isWord_of_mem_table (text, k) h)

theorem ofWord_of_isMetricName {text : String} (h : isMetricName text) :
    ofWord text.toList = .metric text ∨
      ofWord text.toList = .word text ∧ (Keyword.ofWord? text).all Keyword.isMetricName := by
  have hword := (Bool.and_eq_true _ _ |>.mp h).2
  rw [ofWord, String.ofList_toList] at hword ⊢
  split_ifs at hword ⊢
  · exact .inl rfl
  · exact .inr ⟨rfl, hword⟩

theorem scans_separated {α : Type} {sep : List Char} {p : Char → Bool} {chars : α → List Char}
    {tokens : α → List Token}
    (hsep : ∀ rest, Scans place (sep ++ rest) [.comma] place rest)
    (hp : ∀ rest, Avoids p (sep ++ rest)) {items : List α}
    (hitems : ∀ a ∈ items, ∀ rest, Avoids p rest →
      Scans place (chars a ++ rest) (tokens a) place rest) (hrest : Avoids p rest) :
    Scans place (sep.intercalate (items.map chars) ++ rest) (separated (items.map tokens)) place
      rest := by
  induction items with
  | nil => exact .done _ rest
  | cons a items ih =>
    have ha := hitems a List.mem_cons_self
    cases items with
    | nil => simpa [separated] using ha rest hrest
    | cons b items =>
      have htail := ih fun c hc => hitems c (List.mem_cons_of_mem a hc)
      simp only [separated, List.map_cons, List.intercalate_cons_cons, List.append_assoc] at htail ⊢
      exact (ha _ (hp _)).trans ((hsep _).trans htail)

theorem scans_comma (rest : List Char) :
    Scans .outside (", ".toList ++ rest) [.comma] .outside rest :=
  .token rfl (by simp) (scans_blank rest)

theorem spells_list {α : Type} {chars : α → List Char} {tokens : α → List Token} {items : List α}
    (h : ∀ a ∈ items, Spells (chars a) (tokens a)) :
    Spells ('(' :: ", ".toList.intercalate (items.map chars) ++ [')'])
      (.leftParen :: separated (items.map tokens) ++ [.rightParen]) := by
  intro rest hrest
  have hend : Avoids goesOn (')' :: rest) := Avoids.cons.mpr (by decide)
  have hitems := scans_separated scans_comma (fun _ => Avoids.cons.mpr rfl) h hend
  simp only [List.cons_append, List.append_assoc, List.nil_append]
  exact .token rfl le_rfl (hitems.trans (spells_rightParen rest hrest))

theorem spells_labelList {labels : List String} (h : ∀ l ∈ labels, isLabel l) :
    Spells ("(" ++ String.intercalate ", " labels ++ ")").toList (labelList labels) := by
  have hword (l : String) (hl : l ∈ labels) : Spells l.toList ((fun l => [Token.word l]) l) :=
    spells_word (Bool.and_eq_true _ _ |>.mp (h l hl)).1
  have hlist := spells_list hword
  simpa [String.toList_append, String.toList_intercalate, labelList] using hlist

theorem toList_quoteString (s : String) :
    (quoteString s).toList = '"' :: (s.toList.flatMap escapeChar ++ ['"']) := by
  simp [quoteString, escapeString, String.toList_append]

theorem string?_escape (s : String) (rest : List Char) :
    Literal.string? '"' (s.toList.flatMap escapeChar ++ '"' :: rest) = some (s.toList, rest) := by
  rw [Literal.string?, if_neg (by decide)]
  exact stringRest?_escape s.toList rest (by simp)

theorem spells_quoteString (s : String) : Spells (quoteString s).toList [.string s] := by
  intro rest hrest
  have hstring := string?_escape s rest
  have hstep : step? .outside '"' (s.toList.flatMap escapeChar ++ '"' :: rest) =
      some (.outside, some (.string s), rest) := by
    change ((Literal.string? '"' _).bind fun x => _) = _
    rw [hstring]
    simp
  rw [toList_quoteString, List.cons_append, List.append_assoc]
  exact .token hstep (by simp; omega) (.done _ rest)

theorem scans_quoteString_braces (s : String) (rest : List Char) :
    Scans .braces ((quoteString s).toList ++ rest) [.string s] .braces rest := by
  have hstring := string?_escape s rest
  have hstep : step? .braces '"' (s.toList.flatMap escapeChar ++ '"' :: rest) =
      some (.braces, some (.string s), rest) := by
    change ((Literal.string? '"' _).bind fun x => _) = _
    rw [hstring]
    simp
  rw [toList_quoteString, List.cons_append, List.append_assoc]
  exact .token hstep (by simp; omega) (.done _ rest)

end Token

end PromTree
