import LivePanel.Wire.Message

/-!
What a session asks of the world around it.
-/
namespace LivePanel

/-- All a window needs to show a variable for the first time. -/
structure View where
  handle : Handle
  name : String
  description : Option String
  datatype : Datatype
  attributes : Options
  text : String

/-- A connection to open. Each attempt has a generation of its own, which its events carry. -/
structure Opening where
  generation : UInt64
  url : String
  subProtocol : String
  deriving DecidableEq

inductive Command where
  | dial : Opening → Command
  | send : Update → Command
  | render : View → Command
  | show : Handle → (text : String) → Command
  | status : Status → Command

end LivePanel
