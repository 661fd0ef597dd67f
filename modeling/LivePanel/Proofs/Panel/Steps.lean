import LivePanel.Panel.Basic
import LivePanel.Proofs.Field.Catalog
import LivePanel.Proofs.Session.Answers

/-!
# Steps and stages of a panel

A panel that takes some events answers each with one call, and its session runs over them. Its
startup passes four stages, each announced as it begins. Main statements: `steps_eq`,
`startUp_invalid` and `startUp_valid`.
-/
namespace LivePanel

/-- The commands that a call hands over. -/
def Call.commands : Call → List Command
  | .carryOut cs => cs
  | _ => []

/-- All commands that some calls hand over, in order. -/
def executed (calls : List Call) : List Command := calls.flatMap Call.commands

@[simp] theorem executed_append (cs ds : List Call) :
    executed (cs ++ ds) = executed cs ++ executed ds := List.flatMap_append

@[simp] theorem executed_cons (c : Call) (cs : List Call) :
    executed (c :: cs) = c.commands ++ executed cs := List.flatMap_cons

@[simp] theorem executed_carryOut (replies : List (List Command)) :
    executed (replies.map .carryOut) = replies.flatten := by
  induction replies with
  | nil => rfl
  | cons cs replies ih => rw [List.map_cons, executed_cons, ih, List.flatten_cons, Call.commands]

namespace Pipeline

variable {σ : Type} {report : σ → Progress → σ} {index total : Nat} {s s' : σ} {t : Stage σ}
  {ts : List (Stage σ)}

theorem runFrom_ok (ht : t.run (report s (progress index total t.label)) = (s', .ok ())) :
    runFrom report index total s (t :: ts) = runFrom report (index + 1) total s' ts := by
  rw [runFrom, ht]

theorem runFrom_error {reason : String}
    (ht : t.run (report s (progress index total t.label)) = (s', .error reason)) :
    runFrom report index total s (t :: ts) = (s', .error (.stageFailed t.label reason)) := by
  rw [runFrom, ht]

end Pipeline

namespace Panel

variable {φ : Type} [FieldKind φ]

/-- Handles some events, shutdown or not. -/
def steps (p : Panel φ) (es : List Event) : Panel φ := es.foldl step p

theorem step_eq (p : Panel φ) (e : Event) :
    p.step e = { p with
      session := (p.session.step e).1, calls := p.calls ++ [.carryOut (p.session.step e).2] } := rfl

/-- Events reach the session and the calls, and nothing else. -/
theorem steps_eq (p : Panel φ) (es : List Event) :
    p.steps es = { p with
      session := (p.session.run es).1
      calls := p.calls ++ (p.session.answers es).map .carryOut } := by
  induction es generalizing p with
  | nil => simp [steps, Session.answers]
  | cons e es ih =>
    have hrest : p.steps (e :: es) = (p.step e).steps es := rfl
    rw [hrest, ih, step_eq]
    simp [Session.run_cons, Session.answers]

@[simp] theorem session_steps (p : Panel φ) (es : List Event) :
    (p.steps es).session = (p.session.run es).1 := by rw [steps_eq]

@[simp] theorem calls_steps (p : Panel φ) (es : List Event) :
    (p.steps es).calls = p.calls ++ (p.session.answers es).map .carryOut := by rw [steps_eq]

@[simp] theorem settings_steps (p : Panel φ) (es : List Event) :
    (p.steps es).settings = p.settings := by rw [steps_eq]

/-- The first three stages as they are announced. -/
def overture : List Call :=
  [.advance (Pipeline.progress 0 4 "Validating socket endpoint"),
    .advance (Pipeline.progress 1 4 "Registering field types"),
    .advance (Pipeline.progress 2 4 "Connecting to application")]

/-- The last stage as it is announced. -/
def finale : Call := .advance (Pipeline.progress 3 4 "Rendering variables")

omit [FieldKind φ] in
theorem validate_ok {p : Panel φ} (hv : validateAddress p.settings.url = .ok ()) :
    p.validate = (p, .ok ()) := by
  rw [validate, hv]
  rfl

omit [FieldKind φ] in
theorem validate_error {p : Panel φ} {issue : Issue}
    (hv : validateAddress p.settings.url = .error issue) :
    p.validate = (p, .error issue.message) := by
  rw [validate, hv]
  rfl

omit [FieldKind φ] in
/-- Whatever the host registered, there are field types in the end. -/
theorem claimNumeric_eq (p : Panel φ) :
    p.claimNumeric =
      ({ p with session := { p.session with catalog := p.session.catalog.installNumeric } },
        .ok ()) := by
  simp only [claimNumeric, if_neg (Catalog.size_installNumeric_ne_zero _)]

omit [FieldKind φ] in
/-- The session of a new panel once it has dialed, and the commands for that. -/
def opening (c : Catalog φ) (st : Settings) : Session φ × List Command :=
  (Session.new c.installNumeric st.url).dial

/-- A panel that has just dialed for the first time. -/
def dialed (c : Catalog φ) (st : Settings) (inbox : List Receipt) : Panel φ :=
  { new c.installNumeric st inbox with
    session := (opening c st).1, calls := overture ++ [.carryOut (opening c st).2] }

variable {c : Catalog φ} {st : Settings} {inbox : List Receipt}

theorem startUp_invalid {issue : Issue} (hv : validateAddress st.url = .error issue) :
    (new c st inbox).startUp =
      (giveUp { new c st inbox with calls := overture.take 1 }
        (.stageFailed "Validating socket endpoint" issue.message), false) := by
  rw [startUp, Pipeline.run, stages, Pipeline.runFrom_error (validate_error hv)]
  rfl

/-- Ends a startup whose stage failed; after a shutdown nothing is called. -/
def fail (p : Panel φ) (label reason : String) : Panel φ :=
  if p.shutdown then p else p.giveUp (.stageFailed label reason)

/-- A usable address leads past the first two stages. -/
theorem startUp_valid (hv : validateAddress st.url = .ok ()) :
    (new c st inbox).startUp =
      match (dialed c st inbox).awaitHello inbox with
      | (p, .error reason) => (p.fail "Connecting to application" reason, false)
      | (p, .ok ()) =>
        match (p.call finale).reveal with
        | (p, .error reason) => (p.fail "Rendering variables" reason, false)
        | (p, .ok ()) => (p, true) := by
  have hclaimed : Pipeline.run (fun p progress => p.call (.advance progress)) stages
      (new c st inbox) =
        Pipeline.runFrom (fun p progress => p.call (.advance progress)) 2 4
          { new c.installNumeric st inbox with calls := overture.take 2 } (stages.drop 2) := by
    rw [Pipeline.run, stages, Pipeline.runFrom_ok (validate_ok hv),
      Pipeline.runFrom_ok (claimNumeric_eq _)]
    rfl
  rw [startUp, hclaimed, stages]
  rcases hd : (dialed c st inbox).awaitHello inbox with ⟨p, reason | u⟩
  · rw [List.drop, List.drop, List.drop, Pipeline.runFrom_error hd]
    rfl
  · rw [List.drop, List.drop, List.drop, Pipeline.runFrom_ok hd]
    rcases hr : (p.call finale).reveal with ⟨q, reason | u⟩
    · rw [Pipeline.runFrom_error hr]
      simp only [hr]
      rfl
    · rw [Pipeline.runFrom_ok hr]
      simp only [hr]
      rfl

end Panel
end LivePanel
