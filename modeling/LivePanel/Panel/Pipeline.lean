import LivePanel.Issue

/-!
Startup as a pipeline: labelled steps over a common state, each reported as it begins. A step starts
only after the one before it has ended, and the first failure ends the run.
-/
namespace LivePanel

structure Progress where
  index : Nat
  total : Nat
  percent : UInt8
  label : String
  deriving DecidableEq

def ceilDiv (a b : UInt64) : UInt64 := if a % b = 0 then a / b else a / b + 1

/-- The share of steps before step `index`, rounded up, such that the last step begins at 100. The
product is taken in a 64-bit word. -/
def percent (index total : UInt64) : UInt8 :=
  if total ≤ 1 then 100
  else
    let last := total - 1
    let share := ceilDiv (min index last * 100) last
    if share ≤ 255 then share.toUInt8 else 100

/-- A step changes the state and may fail for a reason. -/
structure Stage (σ : Type) where
  label : String
  run : σ → σ × Except String Unit

namespace Pipeline

variable {σ : Type}

def progress (index total : Nat) (label : String) : Progress :=
  ⟨index, total, percent (.ofNat index) (.ofNat total), label⟩

/-- Runs stages `index` and later of `total`. -/
def runFrom (report : σ → Progress → σ) (index total : Nat) (s : σ) :
    List (Stage σ) → σ × Except Issue Unit
  | [] => (s, .ok ())
  | t :: ts =>
    match t.run (report s (progress index total t.label)) with
    | (s, .ok ()) => runFrom report (index + 1) total s ts
    | (s, .error reason) => (s, .error (.stageFailed t.label reason))

def run (report : σ → Progress → σ) (stages : List (Stage σ)) (s : σ) : σ × Except Issue Unit :=
  runFrom report 0 stages.length s stages

end Pipeline
end LivePanel
