import TableSteps.Chart.Options
import TableSteps.Chart.Figure
import TableSteps.Chart.Column

/-! # Histograms

Every `x` column gives one trace of its numbers. Counting them into bins is left to whatever draws
the document; the number of bins may be set. -/

namespace TableSteps

variable {α : Type} [WireQuantity α]

namespace Histogram

/-- The number of bins, if it is set. -/
def bins (options : Options) : Charted (Option Nat) :=
  match Options.number options "nbins" with
  | .error e => .error e
  | .ok none => .ok none
  | .ok (some n) =>
    if Binary64.isWhole n && !Binary64.lt n 1 then .ok (some (Binary64.floorNat n))
    else .error (.invalid "nbins" "expected a positive whole number")

def trace (t : Table α) (bins : Option Nat) (x : String) : Json :=
  .record
    ([("type", .str "histogram"), ("name", .str x), ("x", numbersToJson (t.numbers x))] ++
      (bins.map fun n => ("nbinsx", Json.ofNat n)).toList)

def build (t : Table α) (options : Options) : Charted Drawing := do
  let xs ← Options.columns options t "x"
  let bins ← bins options
  let overlay := if 1 < xs.length then [("barmode", Json.str "overlay")] else []
  pure ⟨xs.map (trace t bins),
    Dictionary.ofList
      ([("xaxis", axisTitle (", ".intercalate xs)), ("yaxis", axisTitle "count")] ++ overlay)⟩

end Histogram

end TableSteps
