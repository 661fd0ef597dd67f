import LivePanel.CommandLine

/-!
The program: reads its environment and arguments and says what comes of them.
-/
open LivePanel

def main (args : List String) : IO UInt32 := do
  let names := ["TWEAK_PANEL_HOST", "TWEAK_PANEL_URL", "TWEAK_PANEL_OUTBOUND_QUEUE_CAP",
    "TWEAK_PANEL_CONNECT_TIMEOUT_MS"]
  let environment ← names.filterMapM fun name => do
    return (← IO.getEnv name).map fun value => (name, value)
  let outcome := Outcome.ofLaunch (fun name => environment.lookup name) args
  IO.print outcome.output
  if let some url := outcome.url then IO.eprintln ("starting tweak panel url=" ++ url)
  if outcome.fatal then IO.eprintln "tweak_panel fatal error: no screen to show a window on"
  return outcome.exitCode
