import LivePanel.Command
import LivePanel.Json.Printer
import LivePanel.Panel.Pipeline
import LivePanel.Session.Basic

/-!
The window: a row for each variable, the state of the connection, and the course of the startup.
Rows are addressed by the keys of their variables.
-/
namespace LivePanel

structure Row where
  key : String
  name : String
  description : String
  datatype : String
  /-- What the editor shows while it is empty. -/
  hint : String
  text : String
  /-- Changes whenever the panel changes the text, so that an editor notices. -/
  revision : Int32
  deriving DecidableEq

structure Window where
  rows : List Row := []
  /-- Whether the rows are the window's own; others are not touched. -/
  ownRows : Bool := true
  status : String := Status.disconnected.label
  offersReconnect : Bool := true
  percent : UInt8 := 0
  progressLabel : String := ""
  failure : String := ""
  visible : Bool := false
  deriving DecidableEq

/-- The attributes that a hint names, in this order. -/
def hintKeys : List String := ["min", "max", "step"]

/-- The attributes that are there, such as `min 0, max 10`. -/
def hintText (attributes : Options) : String :=
  ", ".intercalate <| hintKeys.filterMap fun key =>
    (attributes.get? key).map fun v => key ++ " " ++ v.text

def Row.ofView (v : View) : Row where
  key := v.handle.key
  name := v.name
  description := v.description.getD ""
  datatype := v.datatype.name
  hint := hintText v.attributes
  text := v.text
  revision := 0

/-- A row whose text the panel has changed. -/
def Row.showing (r : Row) (text : String) : Row := { r with text, revision := r.revision + 1 }

/-- What a panel does to its window. -/
inductive WindowCall where
  | attach : View → WindowCall
  | show : (key text : String) → WindowCall
  | status : Status → WindowCall
  | progress : (percent : UInt8) → (label : String) → WindowCall
  | banner : (message : String) → WindowCall
  | reveal : WindowCall

namespace Window

/-- Puts a row in the place of the one with its key, or below all others. -/
def putRow (row : Row) : List Row → List Row
  | [] => [row]
  | r :: rs => if r.key = row.key then row :: rs else r :: putRow row rs

/-- Changes the row with a key, if there is one. -/
def showIn (key text : String) : List Row → List Row
  | [] => []
  | r :: rs => if r.key = key then r.showing text :: rs else r :: showIn key text rs

def apply (w : Window) : WindowCall → Window
  | .attach view => if w.ownRows then { w with rows := putRow (.ofView view) w.rows } else w
  | .show key text => if w.ownRows then { w with rows := showIn key text w.rows } else w
  | .status s => { w with status := s.label, offersReconnect := s.offersReconnect }
  | .progress percent label => { w with percent, progressLabel := label ++ "..." }
  | .banner message => { w with failure := message, offersReconnect := false }
  | .reveal => { w with visible := true }

def applyAll (w : Window) (cs : List WindowCall) : Window := cs.foldl apply w

/-- The rows are replaced by some that are not the window's own. -/
def disown (w : Window) : Window := { w with rows := [], ownRows := false }

/-- The progress as a fraction with two decimals. -/
def progressText (w : Window) : String :=
  let n := w.percent.toNat
  .ofList (digits (n / 100) ++ ['.', digitChar (n / 10 % 10), digitChar (n % 10)])

/-- The event of a text that a user commits; rows without a key have none. -/
def committed? (key text : String) : Option Event :=
  if key = "" then none else some (.edit key text)

end Window
end LivePanel
