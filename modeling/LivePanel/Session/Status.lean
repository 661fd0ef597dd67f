/-!
Where a connection stands.
-/
namespace LivePanel

inductive Status where
  | disconnected : Status
  | connecting : Status
  | connected : Status
  deriving DecidableEq

namespace Status

def label : Status → String
  | .disconnected => "Disconnected"
  | .connecting => "Connecting"
  | .connected => "Connected"

/-- Whether a window offers to connect again. -/
def offersReconnect (s : Status) : Bool := s == .disconnected

end Status
end LivePanel
