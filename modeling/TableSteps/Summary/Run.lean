import TableSteps.Summary.Config
import TableSteps.Step.Output
import TableSteps.Step.Scope
import TableSteps.Formula.RowValue
import TableSteps.Chart.Build

/-! # Running a summary

The formulas are computed in order. Each value is scaled by its portion before it gets its name, so
a combined formula works on scaled values; a value that is not finite stops the summary. The table
is never changed. -/

namespace TableSteps.Summary

variable {α : Type} [WireQuantity α]

/-- The tree of a formula that is written as text. -/
def parseText (place : Place) (text? : Option String) : Checked (Formula.Expression α) :=
  match text? with
  | none => refuse place .noFormulaText
  | some text =>
    match Formula.parse text with
    | .ok e => .ok e
    | .error error => refuse place (.syntaxError error text)

/-- The sum of a written formula over a table. -/
def textValue (t : Table α) (place : Place) (text? : Option String) : Checked α := do
  let e ← parseText place text?
  Formula.bind place t.columns e
  (Formula.sum t e).mapError (.moveTo place)

/-- The value of formula `i` before it is scaled. -/
def rawValue (t : Table α) (scope : Scope (Option α)) (i : Nat) (f : SummaryFormula α) :
    Checked (Option α) :=
  match f.method with
  | .reduce reduction =>
    match f.column? with
    | none => refuse (partPlace i "target_subject") (.unusableSubject .oneColumn)
    | some column =>
      match t.columnValues? column with
      | none => refuse (partPlace i "target_subject") (.unknownColumn column t.columns)
      | some cells => .ok ((Tally.ofCells cells).result reduction)
  | .arithmetic => (textValue t (partPlace i "formula_text") f.text).map some
  | .combine op =>
    match f.operands? with
    | none => refuse (partPlace i "target_subject") (.unusableSubject .twoFormulas)
    | some (left, right) => do
      let (x, y) ← scope.pair (partPlace i "target_subject") left right
      pure (op.evalOption x y)

/-- The value scaled by the portion; null stays null. -/
def scaled (f : SummaryFormula α) (value : Option α) : Option α := value.map (· * f.portion)

/-- Only finite values get a name. -/
def checkFinite (i : Nat) (f : SummaryFormula α) : Option α → Checked Unit
  | none => .ok ()
  | some x =>
    if Quantity.isFinite x then .ok ()
    else refuse (formulaPlace i) (.infiniteResult f.boundName (Quantity.toText x))

/-- All formulas in order, each with the results before it in scope. -/
def evaluate (t : Table α) :
    Nat → Scope (Option α) → List (SummaryFormula α) → Checked (Scope (Option α))
  | _, scope, [] => .ok scope
  | i, scope, f :: rest => do
    let value := scaled f (← rawValue t scope i f)
    checkFinite i f value
    let scope ← (scope.define f.boundName value).mapError (.moveTo (partPlace i "name"))
    evaluate t (i + 1) scope rest

def results (scope : Scope (Option α)) (fs : List (SummaryFormula α)) : List (FormulaValue α) :=
  scope.entries.zipWith (fun entry f => ⟨entry.1, f.method.tag, entry.2, f.unit⟩) fs

def runFormulas (t : Table α) (fs : List (SummaryFormula α)) : Checked (List (FormulaValue α)) := do
  let scope ← evaluate t 0 .empty fs
  pure (results scope fs)

def run (config : Summary α) (t : Table α) : Checked (StepOutput α) := do
  let formulas ←
    match config.formulas with
    | some fs => (runFormulas t fs).map some
    | none => pure none
  let chart ←
    match config.chart with
    | some chart => (chart.build t).map some
    | none => pure none
  pure ⟨if config.includeTable then some t else none, chart, formulas⟩

end TableSteps.Summary
