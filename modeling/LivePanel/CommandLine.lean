import LivePanel.Panel.Settings

/-!
The command line: flags that override the environment, and what a run of the program comes to.
-/
namespace LivePanel

/-- The flags that take a value. -/
inductive Flag where
  | host : Flag
  | url : Flag
  | outboxCapacity : Flag
  | connectTimeout : Flag
  deriving DecidableEq

def Flag.name : Flag → String
  | .host => "--host"
  | .url => "--url"
  | .outboxCapacity => "--outbound-queue-cap"
  | .connectTimeout => "--connect-timeout-ms"

def Flag.all : List Flag := [.host, .url, .outboxCapacity, .connectTimeout]

/-- The flags as given. -/
structure Arguments where
  host : Option String := none
  url : Option String := none
  outboxCapacity : Option UInt64 := none
  connectTimeout : Option UInt64 := none
  deriving DecidableEq

/-- Why there is nothing to run: a request for information, or a fault in the arguments. -/
inductive Usage where
  | help : Usage
  | version : Usage
  | unknownArgument : Usage
  /-- A number was due. -/
  | badValue : Usage
  | missingValue : Usage
  /-- A value follows a flag that takes none. -/
  | superfluousValue : Usage
  /-- A flag was given twice. -/
  | repeated : Usage
  deriving DecidableEq

/-- What one argument is, before it is known what precedes it. -/
inductive Argument where
  /-- A flag, perhaps with its value behind an equals sign. -/
  | flag : Flag → (value : Option String) → Argument
  /-- A flag that ends the reading. -/
  | stop : Usage → Argument
  /-- It looks like a flag but is none, or has a value that it should not have. -/
  | fault : Usage → Argument
  /-- All that follows is no flag. -/
  | separator : Argument
  | plain : Argument

namespace Argument

/-- A word, and what follows its first equals sign. -/
def splitValue (cs : List Char) : List Char × Option (List Char) :=
  match cs.dropWhile (· != '=') with
  | [] => (cs, none)
  | _ :: value => (cs.takeWhile (· != '='), some value)

def ofLong (cs : List Char) : Argument :=
  let (word, value) := splitValue cs
  let name := String.ofList word
  match Flag.all.find? (·.name == name) with
  | some f => .flag f (value.map .ofList)
  | none =>
    let usage : Option Usage :=
      if name = "--help" then some .help else if name = "--version" then some .version else none
    match usage, value with
    | some u, none => .stop u
    | some _, some _ => .fault .superfluousValue
    | none, _ => .fault .unknownArgument

def ofText (s : String) : Argument :=
  match s.toList with
  | ['-', '-'] => .separator
  | '-' :: '-' :: cs => ofLong ('-' :: '-' :: cs)
  | '-' :: 'h' :: _ => .stop .help
  | '-' :: 'V' :: _ => .stop .version
  | '-' :: _ :: _ => .fault .unknownArgument
  | _ => .plain

end Argument

namespace Arguments

def given (a : Arguments) : Flag → Bool
  | .host => a.host.isSome
  | .url => a.url.isSome
  | .outboxCapacity => a.outboxCapacity.isSome
  | .connectTimeout => a.connectTimeout.isSome

def readNumber (value : String) : Except Usage UInt64 :=
  match readWord? value.toList with
  | some n => .ok n
  | none => .error .badValue

def set (a : Arguments) (flag : Flag) (value : String) : Except Usage Arguments :=
  if a.given flag then .error .repeated
  else match flag with
    | .host => .ok { a with host := some value }
    | .url => .ok { a with url := some value }
    | .outboxCapacity => (readNumber value).map fun n => { a with outboxCapacity := some n }
    | .connectTimeout => (readNumber value).map fun n => { a with connectTimeout := some n }

/-- A flag that stands alone, and the argument after it once that is there. -/
abbrev Pending := Option (Flag × Option String)

/-- Sets the flag that is pending, if one is. -/
def settle (a : Arguments) : Pending → Except Usage Arguments
  | none => .ok a
  | some (_, none) => .error .missingValue
  | some (flag, some value) => a.set flag value

/-- Reads the arguments from left to right. A value in an argument of its own is only looked at when
the next flag begins or the list ends, so an unknown argument is told before it. -/
def read (a : Arguments) (pending : Pending) : List String → Except Usage Arguments
  | [] => a.settle pending
  | arg :: rest =>
    match Argument.ofText arg, pending with
    | .flag flag none, _ => (a.settle pending).bind fun a => a.read (some (flag, none)) rest
    | .flag flag (some value), _ =>
      ((a.settle pending).bind fun a => a.set flag value).bind fun a => a.read none rest
    | .stop usage, _ => (a.settle pending).bind fun _ => .error usage
    | .fault usage, _ => .error usage
    | .separator, _ => if rest.isEmpty then a.settle pending else .error .unknownArgument
    | .plain, some (flag, none) => a.read (some (flag, some arg)) rest
    | .plain, _ => .error .unknownArgument

def ofList (args : List String) : Except Usage Arguments := read {} none args

/-- Overrides settings. A number that is zero counts as not given. -/
def override (a : Arguments) (s : Settings) : Settings :=
  { s with
    url := a.url.getD ((a.host.map hostAddress).getD s.url)
    outboxCapacity := (a.outboxCapacity.bind Settings.positive?).getD s.outboxCapacity
    connectTimeout := (a.connectTimeout.bind Settings.positive?).getD s.connectTimeout }

end Arguments

/-- The settings of a run: defaults, then the environment, then the command line. -/
def Settings.ofLaunch (lookup : String → Option String) (args : List String) :
    Except Usage Settings :=
  (Arguments.ofList args).map (·.override (.ofEnvironment lookup))

def helpText : String :=
  "Live control panel for an application's tunable variables\n\n" ++
  "Usage: tweak_panel [OPTIONS]\n\n" ++
  "Options:\n" ++
  "      --host <HOST>\n" ++
  "          Application host and port; `/socket` is appended\n" ++
  "      --url <URL>\n" ++
  "          Full websocket URL. Takes precedence over `--host`\n" ++
  "      --outbound-queue-cap <OUTBOUND_QUEUE_CAP>\n" ++
  "          Updates buffered for the socket before new ones are dropped\n" ++
  "      --connect-timeout-ms <CONNECT_TIMEOUT_MS>\n" ++
  "          How long startup waits for the application's first hello\n" ++
  "  -h, --help\n" ++
  "          Print help\n" ++
  "  -V, --version\n" ++
  "          Print version\n"

def versionText : String := "tweak_panel 0.1.0\n"

/-- What a run of the program without a screen comes to. -/
structure Outcome where
  exitCode : UInt32
  /-- The address settled on. -/
  url : Option String
  output : String
  /-- Whether no window could be made. -/
  fatal : Bool
  deriving DecidableEq

def Usage.outcome : Usage → Outcome
  | .help => ⟨0, none, helpText, false⟩
  | .version => ⟨0, none, versionText, false⟩
  | .unknownArgument | .badValue | .missingValue | .superfluousValue | .repeated =>
    ⟨2, none, "", false⟩

def Outcome.ofLaunch (lookup : String → Option String) (args : List String) : Outcome :=
  match Settings.ofLaunch lookup args with
  | .ok settings => ⟨1, some settings.url, "", true⟩
  | .error usage => usage.outcome

end LivePanel
