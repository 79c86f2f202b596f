import TableSteps.Formula.Parser
import TableSteps.Step.Error

/-! # The value of a formula in a row

A formula has a value, or null, or it fails, in each row. A missing cell and a division by zero
make it null; a cell that is neither missing nor a number makes it fail, whatever the rest of the
formula is. -/

namespace TableSteps.Formula

section Value

variable {α : Type} [Quantity α]

/-- A column whose cell is neither missing nor a number. -/
structure BadCell (α : Type) where
  column : String
  cell : Cell α

/-- The value of a column leaf. -/
def leafValue (name : String) (c : Cell α) : Except (BadCell α) (Option α) :=
  if c.isMissing then .ok none
  else
    match c.asNumber with
    | some x => .ok (some x)
    | none => .error ⟨name, c⟩

/-- The value of a tree, given the cell of every column. -/
def Expression.value (cellOf : String → Cell α) : Expression α → Except (BadCell α) (Option α)
  | .number x => .ok (some x)
  | .column name => leafValue name (cellOf name)
  | .negate operand =>
    match operand.value cellOf with
    | .error e => .error e
    | .ok v => .ok (v.map fun x => -x)
  | .binary op left right =>
    match left.value cellOf with
    | .error e => .error e
    | .ok x =>
      match right.value cellOf with
      | .error e => .error e
      | .ok y => .ok (op.evalOption x y)

/-- The cell of a row in a named column. -/
def cellOf (columns : List String) (row : Row α) (name : String) : Cell α :=
  cellAt row (columns.idxOf name)

/-- The value in one row of a table with these columns. -/
def rowValue (columns : List String) (e : Expression α) (row : Row α) :
    Except (BadCell α) (Option α) :=
  e.value (cellOf columns row)

/-- The first column of a formula that is not among some columns. -/
def unboundColumn? (columns : List String) (e : Expression α) : Option String :=
  e.columns.find? fun name => !columns.contains name

/-- Every column of the formula is there. -/
def bind (place : Place) (columns : List String) (e : Expression α) : Checked Unit :=
  match unboundColumn? columns e with
  | some name => refuse place (.undefinedName name columns)
  | none => .ok ()

end Value

variable {α : Type} [WireQuantity α]

def BadCell.error (b : BadCell α) : StepError :=
  .unplaced (.nonNumericCell b.column b.cell.toJson)

/-- The values of all rows added up, nulls passed over. The total so far comes first. -/
def sumFrom (columns : List String) (e : Expression α) : Nat → α → List (Row α) → Checked α
  | _, total, [] => .ok total
  | i, total, row :: rest =>
    match rowValue columns e row with
    | .error b => .error (b.error.inRow i)
    | .ok none => sumFrom columns e (i + 1) total rest
    | .ok (some x) => sumFrom columns e (i + 1) (total + x) rest

/-- The sum of a formula over a table. -/
def sum (t : Table α) (e : Expression α) : Checked α :=
  sumFrom t.columns e 0 Quantity.zero t.rows

end TableSteps.Formula
