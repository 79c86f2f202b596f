import TableSteps.Summary.Run
import TableSteps.Step.Columns

/-! # Checking a summary

The formulas are checked in order, each with the names of those before it in scope, then the chart.
With a table at hand the chart is built on trial and the columns that the formulas read are looked
up. -/

namespace TableSteps.Summary

variable {α : Type} [WireQuantity α]

/-- The subject as an error shows it. -/
def shownSubject (f : SummaryFormula α) : Json := .ofOption (f.subject.map Subject.encode)

def checkPortion (i : Nat) (f : SummaryFormula α) : Checked Unit :=
  if Quantity.isFinite f.portion then .ok ()
  else refuse (partPlace i "portion") (.infinitePortion (Quantity.toText f.portion))

/-- The subject or text of a formula suits its method. -/
def checkSubject (scope : Scope Unit) (i : Nat) (f : SummaryFormula α) : Checked Unit :=
  match f.method with
  | .reduce _ =>
    match f.column? with
    | some _ => .ok ()
    | none => refuse (partPlace i "target_subject") (.wrongSubject .oneColumn (shownSubject f))
  | .arithmetic =>
    (parseText (α := α) (partPlace i "formula_text") f.text).map fun _ => ()
  | .combine _ =>
    match f.operands? with
    | some (left, right) =>
      (scope.pair (partPlace i "target_subject") left right).map fun _ => ()
    | none => refuse (partPlace i "target_subject") (.wrongSubject .twoFormulas (shownSubject f))

/-- One formula, with the formulas before it in scope. -/
def checkFormula (scope : Scope Unit) (i : Nat) (f : SummaryFormula α) : Checked (Scope Unit) := do
  checkPortion i f
  checkSubject scope i f
  (scope.define f.boundName ()).mapError (.moveTo (partPlace i "name"))

def checkFormulas (i : Nat) (scope : Scope Unit) :
    List (SummaryFormula α) → Checked (Scope Unit)
  | [] => .ok scope
  | f :: rest => do
    let scope ← checkFormula scope i f
    checkFormulas (i + 1) scope rest

/-- The formulas, of which there may be none. -/
def formulaList (config : Summary α) : List (SummaryFormula α) := config.formulas.getD []

/-- What the formulas say by themselves: no table is needed. -/
def checkFormulaShapes (config : Summary α) : Checked Unit := do
  let _ ← checkFormulas 0 .empty config.formulaList
  pure ()

/-- The chart, built on trial if there is a table. -/
def checkChart (config : Summary α) (t? : Option (Table α)) : Checked Unit :=
  match config.chart with
  | some chart => chart.check t?
  | none => .ok ()

/-- The columns of a written formula. -/
def checkTextColumns (t : Table α) (place : Place) : List String → Checked Unit
  | [] => .ok ()
  | name :: rest => do
    if t.hasColumn name then t.checkNumeric place name
    else refuse place (.undefinedName name t.columns)
    checkTextColumns t place rest

/-- The columns that one formula reads. -/
def checkFormulaColumns (t : Table α) (i : Nat) (f : SummaryFormula α) : Checked Unit :=
  match f.method with
  | .reduce reduction =>
    match f.column? with
    | some column => t.checkFor reduction.needsNumbers (partPlace i "target_subject") column
    | none => .ok ()
  | .arithmetic =>
    match f.text.map (Formula.parse (α := α)) with
    | some (.ok e) => checkTextColumns t (partPlace i "formula_text") e.columns
    | _ => .ok ()
  | .combine _ => .ok ()

def checkAllColumns (t : Table α) (i : Nat) : List (SummaryFormula α) → Checked Unit
  | [] => .ok ()
  | f :: rest => do
    checkFormulaColumns t i f
    checkAllColumns t (i + 1) rest

/-- The formulas by themselves, then the chart, then the columns that the formulas read. -/
def check (config : Summary α) (t? : Option (Table α)) : Checked Unit := do
  config.checkFormulaShapes
  config.checkChart t?
  match t? with
  | some t => checkAllColumns t 0 config.formulaList
  | none => pure ()

end TableSteps.Summary
