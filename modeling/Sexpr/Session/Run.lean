import Sexpr.Session.Perform

/-!
# Running steps

`Step.perform` does what a command says and puts the value that it made into a register; a command
that stops puts nothing there. `Session.advance` runs one step and releases its temporaries, and
`Session.run` runs steps one after the other and reports each with the events that it caused.
-/

namespace Sexpr

/-! ## Steps -/

/-- Does what a step says. -/
def Step.perform (step : Step) : Act Answer := do
  let (answer, value) ← step.command.perform
  match step.into, value with
  | some name, some value => Act.assign name value
  | _, _ => pure ()
  return answer

/-- The lines that report events, and apart from them those that report evictions, which come in
no particular order and are sorted. -/
structure Log where
  events : List String
  evicted : List String

/-- The log of a list of events. -/
def Log.ofEvents (events : List Event) : Log :=
  let (evictions, others) := events.partition Event.isEviction
  { events := others.filterMap Event.line?
    evicted := (evictions.filterMap Event.line?).mergeSort fun a b => !decide (b < a) }

/-- What is reported of a step. -/
structure Outcome where
  result : Except Stop Answer
  log : Log
  /-- The structural texts of the watched registers. -/
  watched : List (String × Option String)

namespace Session

/-- Runs one step and releases its temporaries. -/
def advance (step : Step) (session : Session) : Except Stop Answer × Session :=
  let (result, session) := step.perform.run session
  (result, session.settle)

/-- The structural text of what a register holds. -/
def watch (session : Session) (name : String) : Option String :=
  (session.registers.find? name).bind (Render.structural? session.store.heap)

/-- Runs one step and reports it, with the events since before the step. -/
def report (watched : List String) (step : Step) (session : Session) : Outcome × Session :=
  let before := session.store.trace.size
  let (result, session) := session.advance step
  let trace := session.store.trace
  let outcome : Outcome :=
    { result
      log := Log.ofEvents (trace.extract before trace.size).toList
      watched := watched.map fun name => (name, session.watch name) }
  (outcome, session)

/-- Runs steps one after the other. -/
def run (watched : List String) (steps : List Step) (session : Session) : List Outcome × Session :=
  match steps with
  | [] => ([], session)
  | step :: steps =>
    let (outcome, session) := session.report watched step
    let (outcomes, session) := session.run watched steps
    (outcome :: outcomes, session)

end Session

end Sexpr
