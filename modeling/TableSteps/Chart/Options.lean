import TableSteps.Wire.Decoder
import TableSteps.Table.Basic
import TableSteps.Chart.Kind

/-! # Options of charts

Options are free in their names and shapes; a chart asks for those that it knows. An option that is
null counts as absent. -/

namespace TableSteps

/-- What reading an option gives. -/
abbrev Charted (τ : Type) := Except ChartFault τ

abbrev Options := Dictionary Json

namespace Options

/-- The value of an option that is set. -/
def value? (options : Options) (key : String) : Option Json :=
  (options.get? key).filter fun j => !Wire.isNull j

variable {α : Type}

/-- A column that an option names. -/
def existing (t : Table α) (key name : String) : Charted String :=
  if t.hasColumn name then .ok name else .error (.unknownColumn key name)

def optionalColumn (options : Options) (t : Table α) (key : String) : Charted (Option String) :=
  match value? options key with
  | none => .ok none
  | some (.str name) => (existing t key name).map some
  | some _ => .error (.invalid key "expected a column name")

def column (options : Options) (t : Table α) (key : String) : Charted String :=
  match optionalColumn options t key with
  | .error e => .error e
  | .ok none => .error (.missing key)
  | .ok (some name) => .ok name

/-- One item of a list of columns. -/
def listedColumn (t : Table α) (key : String) : Json → Charted String
  | .str name => existing t key name
  | _ => .error (.invalid key "expected a list of column names")

/-- One column, or a list of columns that is not empty. -/
def columns (options : Options) (t : Table α) (key : String) : Charted (List String) :=
  match value? options key with
  | none => .error (.missing key)
  | some (.str name) => (existing t key name).map fun name => [name]
  | some (.arr (first :: rest)) => (first :: rest).mapM (listedColumn t key)
  | some _ =>
    .error (.invalid key "expected a column name or a non-empty list of column names")

def number (options : Options) (key : String) : Charted (Option Float) :=
  match value? options key with
  | none => .ok none
  | some j =>
    match j.float? with
    | some x => .ok (some x)
    | none => .error (.invalid key "expected a number")

/-- The title, if it is a text. -/
def title? (options : Options) : Option String := (value? options "title").bind Json.str?

end Options
end TableSteps
