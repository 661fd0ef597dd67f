import LivePanel.Field.Basic
import LivePanel.Session.Status
import LivePanel.Wire.Defect
import LivePanel.Wire.Handle

/-!
Everything that can go wrong without ending a session, and the failure of a startup step.
-/
namespace LivePanel

/-- A message or an entry lacks something it cannot do without. -/
inductive Omission where
  | messageType : Omission
  | handle : Omission
  | datatype : Handle → Omission
  deriving DecidableEq

def Omission.message : Omission → String
  | .messageType => "message missing `type`"
  | .handle => "hello entry missing handle"
  | .datatype h => "hello entry " ++ h.display ++ " missing datatype"

inductive Issue where
  | noField : Datatype → Issue
  | noVariable : Handle → Issue
  | malformed : Defect → Issue
  | incomplete : Omission → Issue
  | offline : Status → Issue
  | transport : (reason : String) → Issue
  | stageFailed : (label reason : String) → Issue
  | retyped : Handle → (old new : Datatype) → Issue
  | field : Handle → FieldFault → Issue
  deriving DecidableEq

def Issue.message : Issue → String
  | .noField d => "no field registered for datatype " ++ d.name
  | .noVariable h => "refresh for unknown handle " ++ h.display
  | .malformed d => "malformed message: " ++ d.message
  | .incomplete o => "invalid entry: " ++ o.message
  | .offline s => "cannot send while " ++ s.label
  | .transport reason => "transport error: " ++ reason
  | .stageFailed label reason => "task failed: " ++ label ++ ": " ++ reason
  | .retyped h old new =>
    "datatype of " ++ h.display ++ " changed from " ++ old.name ++ " to " ++ new.name
  | .field h e => "field " ++ h.display ++ ": " ++ e.message

end LivePanel
