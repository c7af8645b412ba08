import PromTree.Text.Digits

namespace PromTree.Toml

def isSpace (c : Char) : Bool := c == ' ' || c == '\t'

def skipSpaces (cs : List Char) : List Char := cs.dropWhile isSpace

def isLineChar (c : Char) : Bool := c == '\t' || 0x20 ≤ c.toNat && c.toNat != 0x7f

def skipComment (cs : List Char) : List Char :=
  match cs with
  | '#' :: rest => rest.dropWhile isLineChar
  | cs => cs

def afterNewline? : List Char → Option (List Char)
  | '\n' :: cs => some cs
  | '\r' :: '\n' :: cs => some cs
  | _ => none

def endLine? (cs : List Char) : Option (List Char) :=
  match skipComment (skipSpaces cs) with
  | [] => some []
  | cs => afterNewline? cs

def skipLinesWithin (skip : List Char → List Char) : Nat → List Char → List Char
  | 0, cs => cs
  | fuel + 1, cs =>
    match afterNewline? (skip cs) with
    | some rest => skipLinesWithin skip fuel rest
    | none => skip cs

def skipEmptyLines (cs : List Char) : List Char := skipLinesWithin skipSpaces cs.length cs

def skipLines (cs : List Char) : List Char :=
  skipLinesWithin (fun cs => skipComment (skipSpaces cs)) cs.length cs

def escaped? : List Char → Option (Char × List Char)
  | 'b' :: cs => some ('\x08', cs)
  | 't' :: cs => some ('\t', cs)
  | 'n' :: cs => some ('\n', cs)
  | 'f' :: cs => some ('\x0c', cs)
  | 'r' :: cs => some ('\r', cs)
  | '"' :: cs => some ('"', cs)
  | '\\' :: cs => some ('\\', cs)
  | 'u' :: cs => Digits.coded? 16 4 cs
  | 'U' :: cs => Digits.coded? 16 8 cs
  | _ => none

structure Style where
  quote : Char
  manyLines : Bool
  escapes : Bool

namespace Style

def basic : Style := ⟨'"', false, true⟩

def literal : Style := ⟨'\x27', false, false⟩

def multiline (s : Style) : Style := { s with manyLines := true }

def closing? (s : Style) (cs : List Char) : Option (List Char × List Char) :=
  let (quotes, rest) := cs.span (· == s.quote)
  if s.manyLines then
    if quotes.length < 3 then none
    else
      let kept := min (quotes.length - 3) 2
      some (quotes.take kept, quotes.drop (kept + 3) ++ rest)
  else match quotes with
    | [] => none
    | _ :: more => some ([], more ++ rest)

def afterLineEnd? (cs : List Char) : Option (List Char) := do
  some (skipEmptyLines (← afterNewline? (skipSpaces cs)))

def rest? (s : Style) : Nat → List Char → Option (List Char × List Char)
  | 0, _ => none
  | fuel + 1, cs =>
    match s.closing? cs, cs with
    | some closed, _ => some closed
    | none, [] => none
    | none, c :: after => do
      if c = '\\' ∧ s.escapes then
        match if s.manyLines then afterLineEnd? after else none with
        | some cs => s.rest? fuel cs
        | none =>
          let (d, cs) ← escaped? after
          let (ds, rest) ← s.rest? fuel cs
          some (d :: ds, rest)
      else if isLineChar c then
        let (ds, rest) ← s.rest? fuel after
        some (c :: ds, rest)
      else if s.manyLines then
        let (ds, rest) ← s.rest? fuel (← afterNewline? cs)
        some ('\n' :: ds, rest)
      else none

def string? (s : Style) (cs : List Char) : Option (String × List Char) := do
  let (ds, rest) ← s.rest? (cs.length + 1) cs
  some (.ofList ds, rest)

def lines? (s : Style) (cs : List Char) : Option (String × List Char) :=
  s.multiline.string? ((afterNewline? cs).getD cs)

end Style

def string? : List Char → Option (String × List Char)
  | '"' :: '"' :: '"' :: cs => Style.basic.lines? cs
  | '\x27' :: '\x27' :: '\x27' :: cs => Style.literal.lines? cs
  | '"' :: cs => Style.basic.string? cs
  | '\x27' :: cs => Style.literal.string? cs
  | _ => none

def isKeyChar (c : Char) : Bool := c.isAlphanum || c == '-' || c == '_'

def keyPart? : List Char → Option (String × List Char)
  | '"' :: cs => Style.basic.string? cs
  | '\x27' :: cs => Style.literal.string? cs
  | cs =>
    let (word, rest) := cs.span isKeyChar
    if word = [] then none else some (.ofList word, rest)

def keyParts? : Nat → List Char → Option (List String × List Char)
  | 0, _ => none
  | fuel + 1, cs => do
    let (part, rest) ← keyPart? (skipSpaces cs)
    match skipSpaces rest with
    | '.' :: rest => do
      let (parts, rest) ← keyParts? fuel rest
      some (part :: parts, rest)
    | rest => some ([part], rest)

def nestingLimit : Nat := 79

def key? (cs : List Char) : Option (List String × String × List Char) := do
  let (parts, rest) ← keyParts? nestingLimit cs
  some (parts.dropLast, ← parts.getLast?, rest)

end PromTree.Toml
