/-!
Socket addresses: which texts have the form of a URL with a host, and the first thing wrong with
those that have not. Ports and schemes are not looked at here.
-/
namespace LivePanel

structure Address where
  /-- The text before `://`, if there is any such mark. -/
  scheme : Option String
  authority : String
  deriving DecidableEq

namespace Address

inductive Fault where
  | empty : Fault
  | tooLong : Fault
  | schemeTooLong : Fault
  | badCharacter : Fault
  | badAuthority : Fault
  | badFormat : Fault
  /-- The text has the form of a path alone. -/
  | noHost : Fault
  deriving DecidableEq

def Fault.message : Fault → String
  | .empty => "HTTP format error: empty string"
  | .tooLong => "HTTP format error: uri too long"
  | .schemeTooLong => "HTTP format error: scheme too long"
  | .badCharacter => "HTTP format error: invalid uri character"
  | .badAuthority => "HTTP format error: invalid authority"
  | .badFormat => "HTTP format error: invalid format"
  | .noHost => "URL error: No host name in the URL"

def isAlphanumeric (c : Char) : Bool :=
  ('a' ≤ c && c ≤ 'z') || ('A' ≤ c && c ≤ 'Z') || ('0' ≤ c && c ≤ '9')

def isSchemeChar (c : Char) : Bool := isAlphanumeric c || ['+', '-', '.', '~'].contains c

def schemeMark : List Char := [':', '/', '/']

def maxSchemeLength : Nat := 64

def maxLength : Nat := 65534

/-- Whether a text begins with an ASCII word, in capitals or not. -/
def beginsWith (word cs : List Char) : Bool := (cs.take word.length).map Char.toLower == word

/-- Splits a scheme and its mark off. A text without a scheme is all remainder, and so is one too
short to hold anything beside the mark. -/
def splitScheme (cs : List Char) : Except Fault (Option (List Char) × List Char) :=
  if beginsWith "http://".toList cs then .ok (some "http".toList, cs.drop 7)
  else if beginsWith "https://".toList cs then .ok (some "https".toList, cs.drop 8)
  else
    let scheme := cs.takeWhile isSchemeChar
    let rest := cs.drop scheme.length
    if 3 < cs.length && schemeMark.isPrefixOf rest then
      if maxSchemeLength < scheme.length then .error .schemeTooLong
      else .ok (some scheme, rest.drop 3)
    else .ok (none, cs)

def endsAuthority (c : Char) : Bool := c == '/' || c == '?' || c == '#'

/-- The characters of an authority that need no count. -/
def isAuthorityChar (c : Char) : Bool :=
  isAlphanumeric c ||
    ['!', '$', '&', '\'', '(', ')', '*', '+', ',', '-', '.', ';', '=', '_', '~'].contains c

/-- What the checks of an authority remember. -/
structure Scan where
  /-- Colons since the last `@` or `]`. -/
  colons : Nat := 0
  bracketOpened : Bool := false
  bracketClosed : Bool := false
  /-- A percent sign since the last `@` or `]`. -/
  percent : Bool := false
  endsInAt : Bool := false

def Scan.step (s : Scan) (c : Char) : Except Fault Scan :=
  if c = ':' then
    if 8 ≤ s.colons then .error .badAuthority
    else .ok { s with colons := s.colons + 1, endsInAt := false }
  else if c = '[' then
    if s.percent || s.bracketOpened then .error .badAuthority
    else .ok { s with bracketOpened := true, endsInAt := false }
  else if c = ']' then
    if !s.bracketOpened || s.bracketClosed then .error .badAuthority
    else .ok { s with bracketClosed := true, colons := 0, percent := false, endsInAt := false }
  else if c = '@' then .ok { s with colons := 0, percent := false, endsInAt := true }
  else if c = '%' then .ok { s with percent := true, endsInAt := false }
  else if isAuthorityChar c then .ok { s with endsInAt := false }
  else .error .badCharacter

def Scan.acceptable (s : Scan) : Bool :=
  s.bracketOpened == s.bracketClosed && s.colons ≤ 1 && !s.endsInAt && !s.percent

/-- Splits the authority off: all before the first slash, question mark or number sign. -/
def splitAuthority (cs : List Char) : Except Fault (List Char × List Char) := do
  if cs.isEmpty then throw .empty
  let authority := cs.takeWhile fun c => !endsAuthority c
  let scan ← authority.foldlM Scan.step {}
  if scan.acceptable then return (authority, cs.drop authority.length) else throw .badAuthority

def isPathChar (c : Char) : Bool :=
  c == '!' || c == '"' || ('$' ≤ c && c ≤ ';') || c == '=' || ('@' ≤ c && c ≤ '_') ||
    ('a' ≤ c && c ≤ 'z') || c == '\x7b' || c == '|' || c == '\x7d' || c == '~' || '\x7f' < c

def isQueryChar (c : Char) : Bool :=
  c == '!' || ('$' ≤ c && c ≤ ';') || c == '=' || ('?' ≤ c && c ≤ '~') || '\x7f' < c

/-- A path, perhaps a query, and perhaps a fragment, which may hold anything. -/
def isPath (cs : List Char) : Bool :=
  match cs.dropWhile isPathChar with
  | [] => true
  | '#' :: _ => true
  | '?' :: query =>
    match query.dropWhile isQueryChar with
    | [] => true
    | c :: _ => c == '#'
  | _ :: _ => false

/-- The first fault, if any, in the order in which a text is read. -/
def ofText (text : String) : Except Fault Address :=
  let cs := text.toList
  if maxLength < text.utf8ByteSize then .error .tooLong
  else match cs with
  | [] => .error .empty
  | ['/'] | ['*'] => .error .noHost
  | [_] => do
    let (authority, rest) ← splitAuthority cs
    if rest.isEmpty then return ⟨none, .ofList authority⟩ else throw .badCharacter
  | '/' :: _ => .error (if isPath cs then .noHost else .badCharacter)
  | _ => do
    let (scheme, rest) ← splitScheme cs
    let (authority, rest) ← splitAuthority rest
    match scheme with
    | none => if rest.isEmpty then return ⟨none, .ofList authority⟩ else throw .badFormat
    | some scheme =>
      if authority.isEmpty then throw .badFormat
      if isPath rest then return ⟨some (.ofList scheme), .ofList authority⟩ else throw .badCharacter

end Address
end LivePanel
