import TableSteps.Step.Basic
import TableSteps.Step.Logged
import TableSteps.Aggregation.Check
import TableSteps.Aggregation.Run
import TableSteps.Filter.Check
import TableSteps.Transform.Check
import TableSteps.Transform.Run
import TableSteps.Summary.Check

/-! # Checking and running steps

`validate` and `execute` decode and check a config in the same way, but for one thing: a filter
category whose column the table lacks is an error when the config is only validated, and is passed
over with a warning when the step runs. -/

namespace TableSteps

variable {α : Type} [WireQuantity α]

namespace Step

/-- Checks a step, against a table if there is one. -/
def check (step : Step α) (t? : Option (Table α)) (stale : StaleCategories) : Checked Unit :=
  match step with
  | .aggregate config => config.check t?
  | .filter config => config.check t? stale
  | .transform config => config.check t?
  | .summary config => config.check t?

/-- What running a step mentions without failing. -/
def warnings (step : Step α) (t : Table α) : List Warning :=
  match step with
  | .filter config => config.warnings t
  | _ => []

/-- Runs a step without checking it first. -/
def run (step : Step α) (t : Table α) (references : References α) : Checked (StepOutput α) :=
  match step with
  | .aggregate config => (config.run t).map .ofTable
  | .filter config => (config.run t references).map .ofTable
  | .transform config => (config.run t).map .ofTable
  | .summary config => config.run t

/-- Runs a step without checking it first, with its warnings. -/
def runLogged (step : Step α) (t : Table α) (references : References α) : Logged (StepOutput α) :=
  ⟨step.warnings t, step.run t references⟩

/-- The step that a config describes, checked. -/
def ofConfig (kind : StepKind) (config : Json) (t? : Option (Table α)) (stale : StaleCategories) :
    Checked (Step α) := do
  let step ← Step.decode kind config
  step.check t? stale
  pure step

end Step

/-- Decodes and checks a config, against a table if there is one. -/
def validate (kind : StepKind) (config : Json) (t? : Option (Table α)) : Checked Unit :=
  (Step.ofConfig kind config t? .refused).map fun _ => ()

/-- Decodes and checks a config and runs the step. -/
def execute (kind : StepKind) (t : Table α) (config : Json) (references : References α) :
    Logged (StepOutput α) :=
  (Logged.silent (Step.ofConfig kind config (some t) .allowed)).andThen fun step =>
    step.runLogged t references

end TableSteps
