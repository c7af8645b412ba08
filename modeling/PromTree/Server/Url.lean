import PromTree.Text.Digits

namespace PromTree.Url

def isUnreserved (c : Char) : Bool :=
  c.isAlphanum || c == '-' || c == '_' || c == '.' || c == '~'

def encodeByte (b : UInt8) : List Char := '%' :: (Digits.hexByte b).map Char.toUpper

def encode (keeps : Char → Bool) (s : String) : String :=
  .ofList (s.toList.flatMap fun c =>
    if keeps c then [c] else (String.utf8EncodeChar c).flatMap encodeByte)

def encodeComponent (s : String) : String := encode isUnreserved s

def isVisible (c : Char) : Bool := 0x20 < c.toNat && c.toNat < 0x7f

def isPathChar (c : Char) : Bool := isVisible c && !"\"#<>?^\x60\x7b\x7d".toList.contains c

def isQueryChar (c : Char) : Bool := isVisible c && !"\"#<>\x27".toList.contains c

def dots : List String := [".", "%2e"]

def doubleDots : List String := ["..", ".%2e", "%2e.", "%2e%2e"]

def followSegments (followed : List String) : List String → List String
  | [] => followed
  | s :: rest =>
    let back := doubleDots.contains s.toLower
    let parent := if back then followed.dropLast else followed
    let next :=
      if back || dots.contains s.toLower then if rest.isEmpty then parent ++ [""] else parent
      else parent ++ [encode isPathChar s]
    followSegments next rest

def normalizePath (path : List Char) : String :=
  let segments := (path.splitOnP fun c => c == '/' || c == '\\').map String.ofList
  let relative := match segments with
    | "" :: rest => rest
    | segments => segments
  "/" ++ String.intercalate "/" (followSegments [] relative)

def endsAuthority (c : Char) : Bool := c == '/' || c == '\\' || c == '?' || c == '#'

def target (rest : List Char) : String :=
  let shown := (rest.filter fun c => c != '\t' && c != '\n' && c != '\r').takeWhile (· != '#')
  let path := normalizePath (shown.takeWhile (· != '?'))
  match shown.dropWhile (· != '?') with
  | [] => path
  | _ :: query => path ++ "?" ++ encode isQueryChar (.ofList query)

def targetAt? (base url : String) : Option String :=
  let isEdge (c : Char) : Bool := c.toNat ≤ 0x20
  let trimmed := ((url.toList.dropWhile isEdge).reverse.dropWhile isEdge).reverse
  if base.toList.isPrefixOf trimmed then
    let rest := trimmed.drop base.length
    if rest.head?.all endsAuthority then some (target rest) else none
  else none

end PromTree.Url
