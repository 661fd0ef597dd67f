import LivePanel.Json.Numeral

/-!
JSON text read in one pass: `run` folds `step`, one character at a time, over a state that holds
what has been read and the arrays and objects still open. The first character that cannot belong to
a JSON text decides; a text that ends while more was due is told apart from it.
-/
namespace LivePanel.Json

inductive Fault where
  /-- The text ended inside a value, or held none. -/
  | unfinished : Fault
  /-- A character cannot stand where it does, or a number is too large. -/
  | unexpected : Fault
  deriving DecidableEq

/-- How deep arrays and objects may be nested. -/
def maxDepth : Nat := 127

/-- An open array or object around the value being read. -/
inductive Frame where
  /-- The values before it, last first. -/
  | items : List Json → Frame
  /-- The members before it, and its own name. -/
  | member : Members → String → Frame

/-- How far the reading of a backslash form has come. -/
inductive Escape where
  | none : Escape
  | slash : Escape
  /-- Inside the four bytes that name a UTF-16 unit: the high half before it, the bytes read, and
  their value while all were hexadecimal digits. -/
  | unit : (high : Option Nat) → (bytes : Nat) → (value : Option Nat) → Escape
  /-- A high half was read; the backslash of its low half is due. -/
  | lowSlash : (high : Nat) → Escape
  /-- The letter `u` of a low half is due. -/
  | lowMark : (high : Nat) → Escape

/-- What the next character belongs to. -/
inductive Place where
  | value : Place
  /-- A value, or the end of an array just begun. -/
  | firstItem : Place
  /-- A name, or the end of an object just begun. -/
  | firstName : Place
  | name : Members → Place
  | colon : Members → String → Place
  /-- A comma, or the end of the array. -/
  | afterItem : List Json → Place
  /-- A comma, or the end of the object. -/
  | afterMember : Members → Place
  /-- The rest of a word. -/
  | word : List Char → Json → Place
  | number : Numeral → Place
  /-- A string, its characters last first; with members before it, it is a name. -/
  | string : Option Members → List Char → Escape → Place
  /-- Nothing but blanks. -/
  | done : Json → Place

inductive State where
  | reading : List Frame → Place → State
  | failed : Fault → State

def start : State := .reading [] .value

def isSpace (c : Char) : Bool := c == ' ' || c == '\t' || c == '\n' || c == '\r'

def unexpected : State := .failed .unexpected

/-- Hands a finished value to what is around it. -/
def deliver : List Frame → Json → State
  | [], v => .reading [] (.done v)
  | .items vs :: fs, v => .reading fs (.afterItem (v :: vs))
  | .member ms name :: fs, v => .reading fs (.afterMember (ms.insert name v))

/-- The first character of a value. -/
def begin (fs : List Frame) (c : Char) : State :=
  if c = '"' then .reading fs (.string none [] .none)
  else if c = '[' then if fs.length < maxDepth then .reading fs .firstItem else unexpected
  else if c = '\x7b' then if fs.length < maxDepth then .reading fs .firstName else unexpected
  else if c = 'n' then .reading fs (.word ['u', 'l', 'l'] .null)
  else if c = 't' then .reading fs (.word ['r', 'u', 'e'] (.bool true))
  else if c = 'f' then .reading fs (.word ['a', 'l', 's', 'e'] (.bool false))
  else match Numeral.ofChar? c with
    | some n => .reading fs (.number n)
    | none => unexpected

/-- A character after a value. -/
def between : State → Char → State
  | .reading fs (.done v), c => if isSpace c then .reading fs (.done v) else unexpected
  | .reading fs (.afterItem vs), c =>
    if isSpace c then .reading fs (.afterItem vs)
    else if c = ',' then .reading (.items vs :: fs) .value
    else if c = ']' then deliver fs (.array vs.reverse)
    else unexpected
  | .reading fs (.afterMember ms), c =>
    if isSpace c then .reading fs (.afterMember ms)
    else if c = ',' then .reading fs (.name ms)
    else if c = '\x7d' then deliver fs (.object ms)
    else unexpected
  | s, _ => s

def hexValue? (c : Char) : Option Nat :=
  if isDigit c then some (digitValue c)
  else if 'a' ≤ c ∧ c ≤ 'f' then some (c.toNat - 'a'.toNat + 10)
  else if 'A' ≤ c ∧ c ≤ 'F' then some (c.toNat - 'A'.toNat + 10)
  else none

/-- The character that a one-letter backslash form stands for. -/
def shortEscape? (c : Char) : Option Char :=
  if c = '"' ∨ c = '\\' ∨ c = '/' then some c
  else if c = 'b' then some '\x08'
  else if c = 'f' then some '\x0c'
  else if c = 'n' then some '\n'
  else if c = 'r' then some '\r'
  else if c = 't' then some '\t'
  else none

def isHighHalf (n : Nat) : Bool := 0xd800 ≤ n && n ≤ 0xdbff

def isLowHalf (n : Nat) : Bool := 0xdc00 ≤ n && n ≤ 0xdfff

/-- The code point of two UTF-16 halves. -/
def joinHalves (high low : Nat) : Char :=
  Char.ofNat (0x10000 + (high - 0xd800) * 0x400 + (low - 0xdc00))

/-- A string in which one more character or part of a backslash form has been read. -/
inductive Text where
  | more : List Char → Escape → Text
  | ended : List Char → Text
  | bad : Text

/-- The end of the four bytes after `\u`. Halves must come in pairs, the high one first. -/
def endUnit (cs : List Char) (high : Option Nat) (unit : Nat) : Text :=
  match high with
  | none =>
    if isLowHalf unit then .bad
    else if isHighHalf unit then .more cs (.lowSlash unit)
    else .more (Char.ofNat unit :: cs) .none
  | some h => if isLowHalf unit then .more (joinHalves h unit :: cs) .none else .bad

/-- One character of a string. Controls must be escaped; the four places after `\u` are counted in
bytes of UTF-8, so a text that ends among them is unfinished. -/
def stepText (cs : List Char) (e : Escape) (c : Char) : Text :=
  match e with
  | .none =>
    if c = '"' then .ended cs
    else if c = '\\' then .more cs .slash
    else if c.toNat < 0x20 then .bad
    else .more (c :: cs) .none
  | .slash =>
    if c = 'u' then .more cs (.unit none 0 (some 0))
    else match shortEscape? c with
      | some d => .more (d :: cs) .none
      | none => .bad
  | .unit high bytes value =>
    let value := value.bind fun n => (hexValue? c).map (n * 16 + ·)
    let bytes := bytes + c.utf8Size
    if bytes < 4 then .more cs (.unit high bytes value)
    else match value with
      | some n => endUnit cs high n
      | none => .bad
  | .lowSlash high => if c = '\\' then .more cs (.lowMark high) else .bad
  | .lowMark high => if c = 'u' then .more cs (.unit (some high) 0 (some 0)) else .bad

/-- A string at its end becomes a name or a value. -/
def endString (fs : List Frame) (owner : Option Members) (cs : List Char) : State :=
  match owner with
  | some ms => .reading fs (.colon ms (.ofList cs.reverse))
  | none => deliver fs (.string (.ofList cs.reverse))

def step : State → Char → State
  | .failed f, _ => .failed f
  | .reading fs place, c =>
    match place with
    | .value => if isSpace c then .reading fs .value else begin fs c
    | .firstItem =>
      if isSpace c then .reading fs .firstItem
      else if c = ']' then deliver fs (.array [])
      else begin (.items [] :: fs) c
    | .firstName =>
      if isSpace c then .reading fs .firstName
      else if c = '\x7d' then deliver fs (.object [])
      else if c = '"' then .reading fs (.string (some []) [] .none)
      else unexpected
    | .name ms =>
      if isSpace c then .reading fs (.name ms)
      else if c = '"' then .reading fs (.string (some ms) [] .none)
      else unexpected
    | .colon ms name =>
      if isSpace c then .reading fs (.colon ms name)
      else if c = ':' then .reading (.member ms name :: fs) .value
      else unexpected
    | .word [] v => between (deliver fs v) c
    | .word [d] v => if c = d then deliver fs v else unexpected
    | .word (d :: ds) v => if c = d then .reading fs (.word ds v) else unexpected
    | .number n =>
      match n.next? c with
      | some n => .reading fs (.number n)
      | none =>
        match n.value with
        | .ok v => between (deliver fs (.number v)) c
        | .error _ => unexpected
    | .string owner cs e =>
      match stepText cs e c with
      | .more cs e => .reading fs (.string owner cs e)
      | .ended cs => endString fs owner cs
      | .bad => unexpected
    | .done v => between (.reading fs (.done v)) c
    | .afterItem vs => between (.reading fs (.afterItem vs)) c
    | .afterMember ms => between (.reading fs (.afterMember ms)) c

def run (s : State) (cs : List Char) : State := cs.foldl step s

/-- The value of a text that ends in state `s`. A number may end with the text. -/
def finish : State → Except Fault Json
  | .failed f => .error f
  | .reading _ (.done v) => .ok v
  | .reading fs (.number n) =>
    match n.value with
    | .error .tooLarge => .error .unexpected
    | .error .incomplete => .error .unfinished
    | .ok v => if fs.isEmpty then .ok (.number v) else .error .unfinished
  | .reading _ _ => .error .unfinished

/-- Reads a text that holds one JSON value. Of two members with one name the later counts. -/
def read (cs : List Char) : Except Fault Json := finish (run start cs)

def ofText (s : String) : Except Fault Json := read s.toList

@[simp] theorem run_nil (s : State) : run s [] = s := rfl

@[simp] theorem run_cons (s : State) (c : Char) (cs : List Char) :
    run s (c :: cs) = run (step s c) cs := rfl

theorem run_append (s : State) (cs ds : List Char) : run s (cs ++ ds) = run (run s cs) ds := by
  simp [run, List.foldl_append]

@[simp] theorem run_failed (f : Fault) (cs : List Char) : run (.failed f) cs = .failed f := by
  induction cs with
  | nil => rfl
  | cons c cs ih => simpa [step] using ih

end LivePanel.Json
