import TableSteps.Chart.Options
import TableSteps.Chart.Figure
import TableSteps.Chart.Column

/-! # Box plots

Every `y` column gives one trace of its numbers. An `x` column, if one is named, splits them into
boxes by its cells. -/

namespace TableSteps

variable {α : Type} [WireQuantity α]

namespace BoxPlot

def trace (t : Table α) (x : Option String) (y : String) : Json :=
  .record
    ([("type", .str "box"), ("name", .str y), ("y", numbersToJson (t.numbers y))] ++
      (x.map fun x => ("x", Json.arr ((t.cells x).map Cell.toJson))).toList)

def build (t : Table α) (options : Options) : Charted Drawing := do
  let ys ← Options.columns options t "y"
  let x ← Options.optionalColumn options t "x"
  let across :=
    match x with
    | some x => [("xaxis", axisTitle x), ("boxmode", .str "group")]
    | none => []
  pure ⟨ys.map (trace t x),
    Dictionary.ofList (("yaxis", axisTitle (", ".intercalate ys)) :: across)⟩

end BoxPlot

end TableSteps
