import LivePanel.Number.Entered

/-!
Settings of a panel: defaults, which the environment overrides. Empty texts and numbers that are no
positive 64-bit words count as not given.
-/
namespace LivePanel

/-- The address of the socket on a host. -/
def hostAddress (host : String) : String := "ws://" ++ host ++ "/socket"

structure Settings where
  url : String
  /-- Updates kept for the transport before further ones are lost. -/
  outboxCapacity : UInt64 := 256
  /-- The largest message taken, in bytes. -/
  messageLimit : UInt64 := 1048576
  /-- How long startup waits for the first `hello`, in milliseconds. -/
  connectTimeout : UInt64 := 10000
  /-- How long startup waits before it shows the panel, in milliseconds. -/
  revealDelay : UInt64 := 500
  /-- How long the transport reads before it looks at its queue, in milliseconds. -/
  pollInterval : UInt64 := 20
  deriving DecidableEq

namespace Settings

def default : Settings := { url := hostAddress "127.0.0.1:8080" }

def nonempty? (s : String) : Option String := if s = "" then none else some s

def positive? (n : UInt64) : Option UInt64 := if n = 0 then none else some n

def readPositive? (s : String) : Option UInt64 := (readWord? s.toList).bind positive?

/-- Settings as the environment gives them. An address takes precedence over a host. -/
def ofEnvironment (lookup : String → Option String) : Settings :=
  let host := (lookup "TWEAK_PANEL_HOST").bind nonempty?
  let url := (lookup "TWEAK_PANEL_URL").bind nonempty?
  let capacity := (lookup "TWEAK_PANEL_OUTBOUND_QUEUE_CAP").bind readPositive?
  let timeout := (lookup "TWEAK_PANEL_CONNECT_TIMEOUT_MS").bind readPositive?
  { default with
    url := url.getD ((host.map hostAddress).getD default.url)
    outboxCapacity := capacity.getD default.outboxCapacity
    connectTimeout := timeout.getD default.connectTimeout }

end Settings
end LivePanel
