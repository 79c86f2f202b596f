import TableSteps.Transform.Config
import TableSteps.Step.Error

/-! # Running a transform

The operations run in order. Each sees the columns as the operations before it have left them,
computes its column whole, and writes it. -/

namespace TableSteps.Transform

variable {α : Type} [Quantity α]

/-- An operand bound to the columns of a table. -/
inductive Bound (α : Type) where
  | column (position : Nat)
  | literal (x : α)

/-- A column of that name comes before the number that the name writes. -/
def bind? (columns : List String) : Operand α → Option (Bound α)
  | .literal x => some (.literal x)
  | .named name =>
    match columns.idxOf? name with
    | some p => some (.column p)
    | none => (Cell.numberInText? name).map .literal

/-- The number of an operand in one row. -/
def Bound.value? (row : Row α) : Bound α → Option α
  | .column p => (cellAt row p).asNumber
  | .literal x => some x

/-- The cells of a column that an operation reads. -/
def source (t : Table α) (place : Place) (name : String) : Checked (List (Cell α)) :=
  match t.columnValues? name with
  | some cells => .ok cells
  | none => refuse place (.undefinedName name t.columns)

/-- An operand that is neither a column nor a number is refused. -/
def operand (t : Table α) (place : Place) (o : Operand α) : Checked (Bound α) :=
  match bind? t.columns o with
  | some b => .ok b
  | none => refuse place (.undefinedName o.shown t.columns)

/-- The cell under a label; a label without one leaves the cell empty. -/
def lookUp (targets : Dictionary (Cell α)) (c : Cell α) : Cell α :=
  (targets.get? c.label).getD .empty

/-- The column that operation `i` computes. -/
def column (t : Table α) (i : Nat) : Calculation α → Checked (List (Cell α))
  | .constant value => .ok (List.replicate t.rowCount value)
  | .copy name => source t (partPlace i "source") name
  | .formula left op right => do
    let x ← operand t (partPlace i "left") left
    let y ← operand t (partPlace i "right") right
    pure (t.rows.map fun row => Cell.ofOption (op.evalOption (x.value? row) (y.value? row)))
  | .mapping name targets => do
    let cells ← source t (partPlace i "source") name
    pure (cells.map (lookUp targets))

/-- Runs one operation. -/
def step (t : Table α) (i : Nat) (o : Operation α) : Checked (Table α) := do
  let values ← column t i o.calculation
  match t.setColumn o.target values with
  | .ok t => pure t
  | .error fault => .error (.unplaced (.tableFault fault))

def steps : Nat → List (Operation α) → Table α → Checked (Table α)
  | _, [], t => .ok t
  | i, o :: rest, t => do
    let t ← step t i o
    steps (i + 1) rest t

def run (config : Transform α) (t : Table α) : Checked (Table α) := steps 0 config.operations t

end TableSteps.Transform
