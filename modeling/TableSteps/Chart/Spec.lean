import TableSteps.Wire.Record
import TableSteps.Chart.Kind

/-! # Configs of charts

A chart config is an object with the tag of a kind; all its other members are options. -/

namespace TableSteps

structure ChartSpec where
  graphType : String
  options : Dictionary Json

namespace ChartSpec

/-- Any object with a tag. -/
def decode : Wire.Decoder ChartSpec
  | .obj fields =>
    let members := Dictionary.ofList fields
    match members.get? "graph_type" with
    | some (.str tag) => .ok ⟨tag, members.erase "graph_type"⟩
    | some _ => .error .wrongShape
    | none => .error (.missingField "graph_type")
  | _ => .error .wrongShape

def encode (c : ChartSpec) : Json :=
  .object (c.options.insert "graph_type" (.str c.graphType))

end ChartSpec

end TableSteps
