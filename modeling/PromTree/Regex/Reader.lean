import PromTree.Regex.Basic
import PromTree.Regex.Property
import PromTree.Text.Blank
import PromTree.Text.Digits

namespace PromTree.Regex.Reader

structure Flags where
  verbose : Bool
  unicode : Bool

def Flags.initial : Flags := ⟨false, true⟩

def skipVerbose : Nat → List Char → List Char
  | 0, cs => cs
  | fuel + 1, cs =>
    match cs with
    | '#' :: rest => skipVerbose fuel (rest.dropWhile (· ≠ '\n'))
    | c :: rest => if isBlank c then skipVerbose fuel rest else c :: rest
    | [] => []

def skip (f : Flags) (cs : List Char) : List Char :=
  if f.verbose then skipVerbose cs.length cs else cs

def isMeta (c : Char) : Bool :=
  ['\\', '.', '+', '*', '?', '(', ')', '|', '[', ']', '\x7b', '\x7d', '^', '$', '#', '&', '-',
    '~'].contains c

def isEscapable (c : Char) : Bool :=
  isMeta c || (c.toNat < 128 && !c.isAlphanum && c != '<' && c != '>')

def literalCost (c : Char) : Nat := 32 * c.utf8Size

inductive Item where
  | char (c : Char)
  | set (cost : Nat)
  | dot
  | assertion (holdsOnEmpty : Bool)

def ofCode? (f : Flags) (code : Nat) : Option Item :=
  if code.isValidChar && (f.unicode || code < 128) then some (.char (Char.ofNat code)) else none

def hex? (f : Flags) (count : Nat) (cs : List Char) : Option (Item × List Char) :=
  match skip f cs with
  | '\x7b' :: rest =>
    match rest.span (· ≠ '\x7d') with
    | (digits, _ :: rest) => do
      let digits := if f.verbose then digits.filter (!isBlank ·) else digits
      if digits.length < 9 then
        let item ← ofCode? f (← Digits.number? 16 digits)
        some (item, rest)
      else none
    | (_, []) => none
  | rest => do
    let (code, rest) ← Digits.leading? 16 count rest
    some (← ofCode? f code, rest)

def property? (f : Flags) (cs : List Char) : Option (Item × List Char) :=
  if !f.unicode then none
  else match skip f cs with
    | '\x7b' :: rest =>
      match rest.span (· ≠ '\x7d') with
      | (name, _ :: rest) =>
        let (before, after) := name.span fun c => c ≠ ':' ∧ c ≠ '='
        let valid := match after with
          | [] => isProperty name
          | ':' :: value => isPropertyValue before value
          | _ :: value =>
            if before.getLast? = some '!' then isPropertyValue before.dropLast value
            else isPropertyValue before value
        if valid then some (.set 4000, rest) else none
      | (_, []) => none
    | c :: rest => if isProperty [c] then some (.set 4000, rest) else none
    | [] => none

def boundary? (f : Flags) (cs : List Char) : Option (Item × List Char) :=
  match cs with
  | '\x7b' :: rest =>
    let inner := skip f rest
    let isNameChar (c : Char) : Bool := c == '-' || c.isAlpha
    if inner.head?.any isNameChar then
      match inner.span isNameChar with
      | (name, after) =>
        match skip f after with
        | '\x7d' :: rest =>
          match String.ofList name with
          | "start" | "end" => some (.assertion false, rest)
          | "start-half" | "end-half" => some (.assertion true, rest)
          | _ => none
        | _ => none
    else if inner = [] then none
    else some (.assertion false, cs)
  | _ => some (.assertion false, cs)

def escape? (f : Flags) : List Char → Option (Item × List Char)
  | [] => none
  | c :: rest =>
    match c with
    | 'x' => hex? f 2 rest
    | 'u' => hex? f 4 rest
    | 'U' => hex? f 8 rest
    | 'p' | 'P' => property? f rest
    | 'd' => some (.set (if f.unicode then 1500 else 32), rest)
    | 's' => some (.set (if f.unicode then 600 else 100), rest)
    | 'w' => some (.set (if f.unicode then 14000 else 100), rest)
    | 'D' => if f.unicode then some (.set 2000, rest) else none
    | 'S' => if f.unicode then some (.set 1000, rest) else none
    | 'W' => if f.unicode then some (.set 14000, rest) else none
    | 'a' => some (.char '\x07', rest)
    | 'f' => some (.char '\x0c', rest)
    | 't' => some (.char '\t', rest)
    | 'n' => some (.char '\n', rest)
    | 'r' => some (.char '\r', rest)
    | 'v' => some (.char '\x0b', rest)
    | 'A' | 'z' => some (.assertion true, rest)
    | 'b' => boundary? f rest
    | 'B' => some (.assertion true, rest)
    | '<' | '>' => some (.assertion false, rest)
    | c => if isEscapable c then some (.char c, rest) else none

def classItem? (f : Flags) : List Char → Option (Item × List Char)
  | '\\' :: rest => escape? f rest
  | c :: rest => some (.char c, rest)
  | [] => none

def namedClasses : List String :=
  ["alnum", "alpha", "ascii", "blank", "cntrl", "digit", "graph", "lower", "print", "punct",
    "space", "upper", "word", "xdigit"]

def namedClass? (cs : List Char) : Option (List Char) :=
  match cs with
  | ':' :: rest =>
    let rest := match rest with
      | '^' :: rest => rest
      | rest => rest
    match rest.span (· ≠ ':') with
    | (name, ':' :: ']' :: rest) =>
      if namedClasses.contains (String.ofList name) then some rest else none
    | _ => none
  | _ => none

def classRange? (f : Flags) (cs : List Char) : Option (Nat × List Char) := do
  let (first, rest) ← classItem? f cs
  let single : Option Nat := match first with
    | .char c => some (literalCost c)
    | .set cost => some cost
    | .dot | .assertion _ => none
  match skip f rest with
  | [] => none
  | '-' :: after =>
    let ahead := (skip f after).head?
    if ahead = some ']' ∨ ahead = some '-' then
      let cost ← single
      some (cost, skip f rest)
    else
      let (last, rest) ← classItem? f (skip f after)
      match first, last with
      | .char a, .char b => if a ≤ b then some (200, rest) else none
      | _, _ => none
  | rest => do
    let cost ← single
    some (cost, rest)

def classOpening? (f : Flags) (cs : List Char) : Option (List Char) :=
  let rest := match skip f cs with
    | '^' :: rest => skip f rest
    | rest => rest
  let rec hyphens : Nat → List Char → List Char
    | 0, cs => cs
    | fuel + 1, '-' :: cs => hyphens fuel (skip f cs)
    | _ + 1, cs => cs
  let afterHyphens := hyphens rest.length rest
  let rest' := match afterHyphens with
    | ']' :: cs => if afterHyphens.length = rest.length then skip f cs else ']' :: cs
    | cs => cs
  if rest' = [] then none else some rest'

def classItems? (f : Flags) : Nat → Nat → Nat → Nat → List Char → Option (Nat × Nat × List Char)
  | 0, _, _, _, _ => none
  | fuel + 1, nesting, deepest, cost, cs =>
    match skip f cs with
    | [] => none
    | '[' :: rest =>
      match namedClass? rest with
      | some rest => classItems? f fuel nesting deepest (cost + 100) rest
      | none => do
        let rest ← classOpening? f rest
        classItems? f fuel (nesting + 1) (max deepest (nesting + 1)) (cost + 32) rest
    | ']' :: rest =>
      if nesting ≤ 1 then some (deepest, cost, rest)
      else classItems? f fuel (nesting - 1) deepest cost rest
    | '&' :: '&' :: rest | '-' :: '-' :: rest | '~' :: '~' :: rest =>
      classItems? f fuel nesting deepest cost rest
    | cs => do
      let (c, rest) ← classRange? f cs
      classItems? f fuel nesting deepest (cost + c) rest

def class? (f : Flags) (cs : List Char) : Option (Regex × List Char) := do
  let negated := (skip f cs).head? = some '^'
  if negated && !f.unicode then none
  else
    let rest ← classOpening? f cs
    let (nesting, cost, rest) ← classItems? f (2 * cs.length) 1 1 64 rest
    some (Nat.repeat Regex.group nesting (.one cost), rest)

def count? (cs : List Char) : Option (Nat × List Char) :=
  let cs := cs.dropWhile isBlank
  let (digits, rest) := cs.span Char.isDigit
  let n := Nat.ofDigitChars 10 digits 0
  if digits = [] ∨ UInt32.size ≤ n then none else some (n, rest.dropWhile isBlank)

def counts? (f : Flags) (cs : List Char) : Option (Nat × Nat × List Char) := do
  let (least, rest) ← count? (skip f cs)
  match rest with
  | '\x7d' :: rest => some (least, least, rest)
  | ',' :: rest =>
    match skip f rest with
    | '\x7d' :: rest => some (least, least + 1, rest)
    | rest =>
      let (most, rest) ← count? rest
      match rest with
      | '\x7d' :: rest => if least ≤ most then some (least, most, rest) else none
      | _ => none
  | _ => none

def skipReluctant (cs : List Char) : List Char :=
  match cs with
  | '?' :: rest => rest
  | cs => cs

def flags? : Nat → Flags → List Char → Bool → List Char → Option (Flags × Char × List Char)
  | 0, _, _, _, _ => none
  | fuel + 1, f, seen, negated, cs =>
    match cs with
    | [] => none
    | c :: rest =>
      if c = ':' ∨ c = ')' then
        if seen.head? = some '-' then none
        else if c = ')' ∧ seen = [] then none
        else some (f, c, rest)
      else if seen.contains c then none
      else match c with
        | '-' => flags? fuel f ('-' :: seen) true rest
        | 'i' | 'm' | 's' | 'U' | 'R' => flags? fuel f (c :: seen) negated rest
        | 'u' => flags? fuel ⟨f.verbose, !negated⟩ (c :: seen) negated rest
        | 'x' => flags? fuel ⟨!negated, f.unicode⟩ (c :: seen) negated rest
        | _ => none

def groupName? (cs : List Char) : Option (List Char × List Char) :=
  match cs.span (· ≠ '>') with
  | (name, _ :: rest) =>
    let isStart (c : Char) : Bool := c == '_' || c.isAlpha || 128 ≤ c.toNat
    let isRest (c : Char) : Bool := isStart c || c.isDigit || c == '.' || c == '[' || c == ']'
    if name.head?.any isStart && name.all isRest then some (name, rest) else none
  | (_, []) => none

inductive Opening where
  | setFlags (flags : Flags)
  | group (flags : Flags) (names : List (List Char))

def opening? (f : Flags) (names : List (List Char)) (cs : List Char) :
    Option (Opening × List Char) :=
  match skip f cs with
  | '?' :: '=' :: _ | '?' :: '!' :: _ | '?' :: '<' :: '=' :: _ | '?' :: '<' :: '!' :: _ => none
  | '?' :: 'P' :: '<' :: rest | '?' :: '<' :: rest => do
    let (name, rest) ← groupName? rest
    if names.contains name then none else some (.group f (name :: names), rest)
  | '?' :: rest => do
    let (flags, close, rest) ← flags? (rest.length + 1) f [] false rest
    if close = ')' then some (.setFlags flags, rest) else some (.group flags names, rest)
  | rest => some (.group f names, rest)

def finish (branches items : List Regex) : Regex :=
  alternate (concatenate items.reverse :: branches).reverse

def repeatLast? (least copies : Nat) : List Regex → Option (List Regex)
  | .flagSetting :: _ | [] => none
  | r :: items => some (.repetition least copies r :: items)

/-- An expression up to the parenthesis that closes it, or the end. The branches and the items of
the last branch that were read already are given in reverse. -/
def expression? : Nat → Flags → List (List Char) → List Regex → List Regex → List Char →
    Option (Regex × List (List Char) × List Char)
  | 0, _, _, _, _, _ => none
  | fuel + 1, f, names, branches, items, cs =>
    let continue? (items : List Regex) (rest : List Char) :=
      expression? fuel f names branches items rest
    match skip f cs with
    | [] => some (finish branches items, names, [])
    | ')' :: rest => some (finish branches items, names, ')' :: rest)
    | '|' :: rest => expression? fuel f names (concatenate items.reverse :: branches) [] rest
    | '(' :: rest => do
      match ← opening? f names rest with
      | (.setFlags flags, rest) => expression? fuel flags names branches (.flagSetting :: items) rest
      | (.group flags names, rest) =>
        let (body, names, rest) ← expression? fuel flags names [] [] rest
        match rest with
        | ')' :: rest => expression? fuel f names branches (.group body :: items) rest
        | _ => none
    | '[' :: rest => do
      let (r, rest) ← class? f rest
      continue? (r :: items) rest
    | '?' :: rest => do
      let items ← repeatLast? 0 1 items
      continue? items (skipReluctant rest)
    | '*' :: rest => do
      let items ← repeatLast? 0 1 items
      continue? items (skipReluctant rest)
    | '+' :: rest => do
      let items ← repeatLast? 1 1 items
      continue? items (skipReluctant rest)
    | '\x7b' :: rest => do
      let (least, copies, rest) ← counts? f rest
      let items ← repeatLast? least copies items
      continue? items (skipReluctant (skip f rest))
    | '.' :: rest => if f.unicode then continue? (.one 500 :: items) rest else none
    | '^' :: rest | '$' :: rest => continue? (.assertion true :: items) rest
    | '\\' :: rest => do
      match ← escape? f rest with
      | (.char c, rest) => continue? (.one (literalCost c) :: items) rest
      | (.set cost, rest) => continue? (.one cost :: items) rest
      | (.dot, rest) => continue? (.one 500 :: items) rest
      | (.assertion holds, rest) => continue? (.assertion holds :: items) rest
    | c :: rest => continue? (.one (literalCost c) :: items) rest

end Reader

def parse? (cs : List Char) : Option Regex := do
  let (r, _, rest) ← Reader.expression? (2 * cs.length + 1) .initial [] [] [] cs
  if rest = [] ∧ r.isAdmissible then some r else none

end PromTree.Regex
