import TableSteps.Step.Kind
import TableSteps.Table.Basic
import TableSteps.Chart.Kind
import TableSteps.Formula.Parser
import TableSteps.Wire.Record

/-! # Errors of steps

An error is a cause at a place of the config. It is shown as a report: a message and details under
fixed names. `field` is the path of the place, `value` the offending value and `available` the
names that could have stood there. -/

namespace TableSteps

/-- What the subject of an entry has to be. -/
inductive SubjectShape where
  | oneColumn
  | twoNames
  | twoFormulas
deriving DecidableEq

namespace SubjectShape

/-- Said of a subject when the config is checked. -/
def expected : SubjectShape → String
  | .oneColumn => "a single column name"
  | .twoNames => "a list of two defined names"
  | .twoFormulas => "a list of two earlier formula names"

/-- Said when an entry is computed without a check before it. -/
def demand : SubjectShape → String
  | .oneColumn => "must be a single column name"
  | .twoNames => "must list two names"
  | .twoFormulas => "must list two formula names"

end SubjectShape

inductive Cause where
  | unsupportedStep (tag : String)
  | malformed (kind : StepKind) (fault : Wire.Fault)
  | unknownColumn (name : String) (available : List String)
  | undefinedName (name : String) (available : List String)
  | unresolvedOperand (name : String) (available : List String)
  | redefinedName (name : String)
  | blankName
  | wrongSubject (shape : SubjectShape) (given : Json)
  | unusableSubject (shape : SubjectShape)
  | repeatedAxis (name : String)
  | axisCollision (name : String)
  | notNumeric (column : String)
  | nestedCategory (value : Json)
  | invertedRange (low high : Json)
  | nonPositiveCount (count : Int)
  | percentileOutside (value : Json)
  | invertedPercentiles (low high : Json)
  | noKeyColumns
  | noReference
  | infinitePortion (shown : String)
  | noFormulaText
  | syntaxError (error : Formula.SyntaxError) (text : String)
  | nonNumericCell (column : String) (value : Json)
  | infiniteResult (name shown : String)
  | tableFault (fault : TableFault)
  | unsupportedChart (tag : String)
  | chartFault (kind : ChartKind) (fault : ChartFault) (options : Dictionary Json)

namespace Cause

/-- The text of an error whose place has this path. -/
def message (path : String) : Cause → String
  | .unsupportedStep tag => s!"Unsupported step type: {tag}"
  | .malformed kind fault => s!"Invalid {kind.tag} config: {fault.message}"
  | .unknownColumn name _ => s!"Column '{name}' not found in table"
  | .undefinedName name _ => s!"'{name}' is not defined at this point"
  | .unresolvedOperand name _ => s!"'{name}' is not defined at this point"
  | .redefinedName name => s!"'{name}' is defined more than once"
  | .blankName => s!"{path} must not be empty"
  | .wrongSubject shape _ => s!"{path} must be {shape.expected}"
  | .unusableSubject shape => s!"{path} {shape.demand}"
  | .repeatedAxis name => s!"Axis column '{name}' is listed twice"
  | .axisCollision name => s!"Column name '{name}' collides with an axis column"
  | .notNumeric column => s!"Column '{column}' is not numeric"
  | .nestedCategory _ => s!"{path} may only list scalar values"
  | .invertedRange _ _ => "Range minimum is greater than maximum"
  | .nonPositiveCount _ => "k must be greater than 0"
  | .percentileOutside _ => "Percentile must be between 0 and 100"
  | .invertedPercentiles _ _ => "min_percentile is greater than max_percentile"
  | .noKeyColumns => "table_filter requires at least one key column"
  | .noReference => "table_filter requires a reference table"
  | .infinitePortion _ => "portion must be a finite number"
  | .noFormulaText => "arithmetic formula requires formula_text"
  | .syntaxError error _ => error.report
  | .nonNumericCell column _ => s!"Column '{column}' holds a non-numeric value"
  | .infiniteResult name _ => s!"Formula '{name}' did not produce a finite number"
  | .tableFault fault => fault.message
  | .unsupportedChart tag => s!"Unsupported chart type: {tag}"
  | .chartFault kind fault _ => s!"Cannot build {kind.tag} chart: {fault.message}"

/-- What an error tells beside its message and place. -/
def details : Cause → List (String × Json)
  | .unsupportedStep tag => [("value", .str tag), ("supported", .strings StepKind.tags)]
  | .malformed kind _ => [("step_type", .str kind.tag), ("reason", .str "malformed_config")]
  | .unknownColumn name available => [("value", .str name), ("available", .strings available)]
  | .undefinedName name available => [("value", .str name), ("available", .strings available)]
  | .unresolvedOperand name available =>
    [ ("value", .str name), ("available", .strings available),
      ("reason", .str "not a column or numeric literal") ]
  | .redefinedName name => [("value", .str name)]
  | .blankName => []
  | .wrongSubject shape given => [("expected", .str shape.expected), ("value", given)]
  | .unusableSubject _ => []
  | .repeatedAxis name => [("value", .str name)]
  | .axisCollision name => [("value", .str name)]
  | .notNumeric column => [("value", .str column), ("reason", .str "not_numeric")]
  | .nestedCategory value => [("value", value)]
  | .invertedRange low high => [("min", low), ("max", high)]
  | .nonPositiveCount count => [("value", .int count)]
  | .percentileOutside value => [("value", value)]
  | .invertedPercentiles low high => [("min", low), ("max", high)]
  | .noKeyColumns => []
  | .noReference => []
  | .infinitePortion shown => [("value", .str shown)]
  | .noFormulaText => []
  | .syntaxError _ text => [("value", .str text), ("reason", .str "parse")]
  | .nonNumericCell column value =>
    [("value", value), ("column", .str column), ("reason", .str "non_numeric_cell")]
  | .infiniteResult _ shown => [("value", .str shown), ("reason", .str "non_numeric_result")]
  | .tableFault _ => [("reason", .str "table")]
  | .unsupportedChart tag => [("value", .str tag), ("supported", .strings ChartKind.tags)]
  | .chartFault kind _ options =>
    [("chart_type", .str kind.tag), ("options", .object options)]

end Cause

structure StepError where
  cause : Cause
  place : Option Place
  /-- The table row at which a formula failed. -/
  row : Option Nat
  /-- The step of a pipeline that failed. -/
  stepIndex : Option Nat

namespace StepError

/-- A cause at a place. -/
def placed (place : Place) (cause : Cause) : StepError := ⟨cause, some place, none, none⟩

/-- A cause that no entry of a config is to blame for. -/
def unplaced (cause : Cause) : StepError := ⟨cause, none, none, none⟩

/-- The same error, said of another place. -/
def moveTo (place : Place) (e : StepError) : StepError := { e with place := some place }

def inRow (row : Nat) (e : StepError) : StepError := { e with row := some row }

def inStep (index : Nat) (e : StepError) : StepError := { e with stepIndex := some index }

def message (e : StepError) : String := e.cause.message ((e.place.map Place.path).getD "")

def details (e : StepError) : Dictionary Json :=
  Dictionary.ofList
    (e.cause.details ++ (e.place.map fun p => ("field", Json.str p.path)).toList ++
      (e.row.map fun n => ("row", Json.ofNat n)).toList ++
      (e.stepIndex.map fun n => ("step_index", Json.ofNat n)).toList)

end StepError

/-- An error as it is shown and stored. -/
structure Report where
  message : String
  details : Dictionary Json

def StepError.report (e : StepError) : Report := ⟨e.message, e.details⟩

namespace Report

def decode : Wire.Decoder Report :=
  Wire.Record.decode
    (Report.mk <$> .required "message" Wire.text
      <*> .defaulted "details" (Wire.dictionary Wire.anything) .empty)

def encode (r : Report) : Json :=
  .record [("message", .str r.message), ("details", .object r.details)]

end Report

/-- What a step or a check gives. -/
abbrev Checked (τ : Type) := Except StepError τ

/-- Fails with a cause at a place. -/
def refuse {τ : Type} (place : Place) (cause : Cause) : Checked τ := .error (.placed place cause)

/-- The kind of step that a tag names. -/
def StepKind.parse (tag : String) : Checked StepKind :=
  match StepKind.ofTag? tag with
  | some kind => .ok kind
  | none => refuse (.root "step_type") (.unsupportedStep tag)

end TableSteps
