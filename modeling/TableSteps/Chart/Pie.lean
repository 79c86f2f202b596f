import TableSteps.Chart.Options
import TableSteps.Chart.Figure
import TableSteps.Chart.Column

/-! # Pies

One trace takes its labels from one column and its sizes from another. A hole in the middle makes a
ring of it. -/

namespace TableSteps

variable {α : Type} [WireQuantity α]

namespace Pie

/-- The share of the radius that is left free, if it is set. -/
def hole (options : Options) : Charted (Option Float) :=
  match Options.number options "hole" with
  | .error e => .error e
  | .ok none => .ok none
  | .ok (some x) =>
    if !Binary64.lt x 0 && Binary64.lt x 1 then .ok (some x)
    else .error (.invalid "hole" "expected a number in [0, 1)")

def build (t : Table α) (options : Options) : Charted Drawing := do
  let names ← Options.column options t "names"
  let values ← Options.column options t "values"
  let hole ← hole options
  let trace := Json.record
    ([ ("type", .str "pie"), ("name", .str values),
       ("labels", .arr ((t.cells names).map Cell.toJson)),
       ("values", numbersToJson (t.numbers values)) ] ++
      (hole.map fun x => ("hole", Json.ofFloat x)).toList)
  pure ⟨[trace], .empty⟩

end Pie

end TableSteps
