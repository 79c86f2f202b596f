import TableSteps.Aggregation.Config
import TableSteps.Filter.Config
import TableSteps.Transform.Config
import TableSteps.Summary.Config
import TableSteps.Step.Error

/-! # Steps

A step is one of four operations together with its config. Its JSON form is the config alone: the
kind is told beside it. -/

namespace TableSteps

/-- One operation on a table, with its config. -/
inductive Step (α : Type) where
  | aggregate (config : Aggregation)
  | filter (config : Filter α)
  | transform (config : Transform α)
  | summary (config : Summary α)

namespace Step

variable {α : Type}

def kind : Step α → StepKind
  | .aggregate _ => .aggregate
  | .filter _ => .filter
  | .transform _ => .transform
  | .summary _ => .summary

variable [WireQuantity α]

/-- A step of some kind, from its config alone. -/
def decodeShape : StepKind → Wire.Decoder (Step α)
  | .aggregate, j => (Aggregation.decode j).map .aggregate
  | .filter, j => (Filter.decode j).map .filter
  | .transform, j => (Transform.decode j).map .transform
  | .summary, j => (Summary.decode j).map .summary

/-- A value of the wrong shape is refused before any table is looked at. -/
def decode (kind : StepKind) (j : Json) : Checked (Step α) :=
  (decodeShape kind j).mapError fun fault => .unplaced (.malformed kind fault)

/-- The config with all defaults filled in. -/
def encode : Step α → Json
  | .aggregate config => config.encode
  | .filter config => config.encode
  | .transform config => config.encode
  | .summary config => config.encode

end Step
end TableSteps
