import TableSteps.Transform.Config
import TableSteps.Step.Columns

/-! # Checking a transform

With a table at hand the check walks the operations with the column names that each will find:
those of the table and the targets of the operations before it. -/

namespace TableSteps.Transform

variable {α : Type} [Quantity α]

def checkTargets (i : Nat) : List (Operation α) → Checked Unit
  | [] => .ok ()
  | o :: rest => do
    checkName (targetPlace i) o.target
    checkTargets (i + 1) rest

/-- What can be checked without a table. -/
def checkShape (config : Transform α) : Checked Unit := checkTargets 0 config.operations

def checkSource (columns : List String) (place : Place) (name : String) : Checked Unit :=
  if columns.contains name then .ok () else refuse place (.undefinedName name columns)

def checkOperand (columns : List String) (place : Place) : Operand α → Checked Unit
  | .literal _ => .ok ()
  | .named name =>
    if columns.contains name || (Cell.numberInText? (α := α) name).isSome then .ok ()
    else refuse place (.unresolvedOperand name columns)

def checkCalculation (columns : List String) (i : Nat) : Calculation α → Checked Unit
  | .constant _ => .ok ()
  | .copy name => checkSource columns (partPlace i "source") name
  | .mapping name _ => checkSource columns (partPlace i "source") name
  | .formula left _ right => do
    checkOperand columns (partPlace i "left") left
    checkOperand columns (partPlace i "right") right

/-- The columns once an operation has written its target. -/
def columnsAfter (columns : List String) (target : String) : List String :=
  if columns.contains target then columns else columns ++ [target]

def checkOperations (i : Nat) (columns : List String) : List (Operation α) → Checked Unit
  | [] => .ok ()
  | o :: rest => do
    checkCalculation columns i o.calculation
    checkOperations (i + 1) (columnsAfter columns o.target) rest

/-- The columns that the config names. -/
def checkColumns (config : Transform α) (t : Table α) : Checked Unit :=
  checkOperations 0 t.columns config.operations

def check (config : Transform α) (t? : Option (Table α)) : Checked Unit := do
  config.checkShape
  match t? with
  | some t => config.checkColumns t
  | none => pure ()

end TableSteps.Transform
