import PromTree.Query.Literal
import PromTree.Query.Token

namespace PromTree.Token

inductive Place where
  | outside
  | braces
  | brackets (colonSeen : Bool)
  deriving DecidableEq

def isSpace (c : Char) : Bool :=
  c == ' ' || c == '\t' || c == '\n' || c == '\x0c' || c == '\x0d'

def isWordStart (c : Char) : Bool := c.isAlpha || c == '_'

def skipComment (cs : List Char) : List Char := cs.dropWhile fun c => c ≠ '\n' ∧ c ≠ '\x0d'

def number? (cs : List Char) : Option (Token × List Char) :=
  let (run, afterRun) := cs.span Literal.isWordChar
  match Span.read? run with
  | some s => some (.span s, afterRun)
  | none =>
    let (text, rest) := Literal.spanNumber cs
    if rest.head?.any Literal.isWordChar then none
    else (Literal.number? text).map fun x => (.number x, rest)

def ofWord (cs : List Char) : Token :=
  let text := String.ofList cs
  if cs.contains ':' then .metric text
  else if text.toLower = "inf" then .number (.infinite false)
  else if text.toLower = "nan" then .number .nan
  else .word text

def outside? (c : Char) (cs : List Char) : Option (Place × Option Token × List Char) :=
  let found (t : Token) (rest : List Char) : Option (Place × Option Token × List Char) :=
    some (.outside, some t, rest)
  if isSpace c then some (.outside, none, cs)
  else if c = '#' then some (.outside, none, skipComment cs)
  else if isWordStart c || c == ':' then
    let (run, rest) := (c :: cs).span fun d => Literal.isWordChar d || d == ':'
    found (ofWord run) rest
  else if c.isDigit || (c == '.' && cs.head?.any Char.isDigit) then do
    let (t, rest) ← number? (c :: cs)
    found t rest
  else match c, cs with
    | '"', _ | '\x27', _ | '\x60', _ => do
      let (s, rest) ← Literal.string? c cs
      found (.string (String.ofList s)) rest
    | '=', '=' :: rest => found (.operator .eql) rest
    | '!', '=' :: rest => found (.operator .neq) rest
    | '<', '=' :: rest => found (.operator .lte) rest
    | '>', '=' :: rest => found (.operator .gte) rest
    | '<', rest => found (.operator .lss) rest
    | '>', rest => found (.operator .gtr) rest
    | '+', rest => found (.operator .add) rest
    | '-', rest => found (.operator .sub) rest
    | '*', rest => found (.operator .mul) rest
    | '/', rest => found (.operator .div) rest
    | '%', rest => found (.operator .mod) rest
    | '^', rest => found (.operator .pow) rest
    | '@', rest => found .at rest
    | ',', rest => found .comma rest
    | '(', rest => found .leftParen rest
    | ')', rest => found .rightParen rest
    | '\x7b', rest => some (.braces, some .leftBrace, rest)
    | '[', rest => some (.brackets false, some .leftBracket, rest)
    | _, _ => none

def inBraces? (c : Char) (cs : List Char) : Option (Place × Option Token × List Char) :=
  let found (t : Token) (rest : List Char) : Option (Place × Option Token × List Char) :=
    some (.braces, some t, rest)
  if isSpace c then some (.braces, none, cs)
  else if c = '#' then some (.braces, none, skipComment cs)
  else if isWordStart c then
    let (run, rest) := (c :: cs).span Literal.isWordChar
    let text := String.ofList run
    if text.toLower = "or" && rest.head? == some ' ' then found .alternative rest
    else found (.word text) rest
  else match c, cs with
    | '"', _ | '\x27', _ | '\x60', _ => do
      let (s, rest) ← Literal.string? c cs
      found (.string (String.ofList s)) rest
    | '=', '~' :: rest => found (.matchOperator .regexp) rest
    | '=', rest => found (.matchOperator .equal) rest
    | '!', '=' :: rest => found (.matchOperator .notEqual) rest
    | '!', '~' :: rest => found (.matchOperator .notRegexp) rest
    | ',', rest => found .comma rest
    | '\x7d', rest => some (.outside, some .rightBrace, rest)
    | _, _ => none

def inBrackets? (colonSeen : Bool) (c : Char) (cs : List Char) :
    Option (Place × Option Token × List Char) :=
  if isSpace c then some (.brackets colonSeen, none, cs)
  else if c.isDigit then do
    let (t, rest) ← number? (c :: cs)
    some (.brackets colonSeen, some t, rest)
  else if c = ':' && !colonSeen then some (.brackets true, some .colon, cs)
  else if c = ']' then some (.outside, some .rightBracket, cs)
  else none

def step? : Place → Char → List Char → Option (Place × Option Token × List Char)
  | .outside => outside?
  | .braces => inBraces?
  | .brackets colonSeen => inBrackets? colonSeen

def listFrom? : Nat → Place → List Char → Option (List Token)
  | _, _, [] => some []
  | 0, _, _ :: _ => none
  | fuel + 1, place, c :: cs => do
    let (place, token, rest) ← step? place c cs
    let tokens ← listFrom? fuel place rest
    some (token.toList ++ tokens)

def list? (text : String) : Option (List Token) :=
  let cs := text.toList
  listFrom? cs.length .outside cs

end PromTree.Token
