import TableSteps.Step.Run

/-! # Pipelines

The steps of a pipeline run in order. The table of a step's result, if it has one, is what the next
step works on. The first step that fails ends the run, and the error tells its number. -/

namespace TableSteps

/-- A step that is yet to be decoded: its config is looked at when its turn comes. -/
structure PlannedStep where
  kind : StepKind
  config : Json

structure Pipeline where
  steps : List PlannedStep

/-- The table that the last step has left, and the results of all steps. -/
structure PipelineOutcome (α : Type) where
  table : Table α
  results : List (StepOutput α)

namespace PlannedStep

def decode : Wire.Decoder PlannedStep :=
  Wire.Record.decode
    (PlannedStep.mk <$> .required "step_type" StepKind.decode
      <*> .required "config" Wire.anything)

def encode (s : PlannedStep) : Json :=
  .record [("step_type", .str s.kind.tag), ("config", s.config)]

end PlannedStep

namespace Pipeline

def decode : Wire.Decoder Pipeline :=
  Wire.Record.decode (Pipeline.mk <$> .required "steps" (Wire.list PlannedStep.decode))

def encode (p : Pipeline) : Json := .record [("steps", .arr (p.steps.map PlannedStep.encode))]

variable {α : Type} [WireQuantity α]

/-- The table that the step after a result works on. -/
def nextTable (t : Table α) (result : StepOutput α) : Table α := result.table.getD t

/-- Runs steps from number `i` on. -/
def runFrom (references : References α) :
    Nat → Table α → List PlannedStep → Logged (PipelineOutcome α)
  | _, t, [] => .silent (.ok ⟨t, []⟩)
  | i, t, step :: rest =>
    ((execute step.kind t step.config references).mapError (.inStep i)).andThen fun result =>
      (runFrom references (i + 1) (nextTable t result) rest).andThen fun output =>
        .silent (.ok { output with results := result :: output.results })

def run (p : Pipeline) (t : Table α) (references : References α) : Logged (PipelineOutcome α) :=
  runFrom references 0 t p.steps

end Pipeline
end TableSteps
