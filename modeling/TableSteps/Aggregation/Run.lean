import TableSteps.Aggregation.Config
import TableSteps.Group
import TableSteps.Step.Scope

/-! # Running an aggregation

The output has one row a group: the cells of its key, then the value of every entry in the order of
the entries. -/

namespace TableSteps

open Keyed (Key)

variable {α : Type} [Quantity α]

/-- The position of a column that an entry of a config names. -/
def Table.position (t : Table α) (place : Place) (name : String) : Checked Nat :=
  match t.columnIndex? name with
  | some p => .ok p
  | none => refuse place (.unknownColumn name t.columns)

/-- Stops a table that is none. -/
def orTableFault {τ : Type} : Except TableFault τ → Checked τ
  | .ok x => .ok x
  | .error fault => .error (.unplaced (.tableFault fault))

namespace Aggregation

/-- Rows with one key over the axis columns. -/
abbrev AxisGroup (α : Type) [Quantity α] := Group (RowKey (Key α)) (Row α)

/-- The groups of a table by the columns at these positions. Without a position all rows are one
group; without rows there is none. -/
def groups (t : Table α) (positions : List Nat) : List (AxisGroup α) :=
  Group.byKey (fun row => RowKey.ofRow row positions) t.rows

/-- The cells that a group has in the column at a position. -/
def subjectCells (group : AxisGroup α) (position : Nat) : List (Cell α) :=
  group.members.map (cellAt · position)

/-- The positions of the axis columns. -/
def axisPositions (t : Table α) : Nat → List String → Checked (List Nat)
  | _, [] => .ok []
  | i, name :: rest => do
    let p ← t.position (axisPlace i) name
    let ps ← axisPositions t (i + 1) rest
    pure (p :: ps)

/-- The value of an entry for every group. -/
def entryValues (t : Table α) (groups : List (AxisGroup α)) (scope : Scope (List (Option α)))
    (i : Nat) (entry : Entry) : Checked (List (Option α)) :=
  match entry.method with
  | .reduce reduction =>
    match entry.subject.single? with
    | none => refuse (subjectPlace i) (.unusableSubject .oneColumn)
    | some column => do
      let p ← t.position (subjectPlace i) column
      pure (groups.map fun g => (Tally.ofCells (subjectCells g p)).result reduction)
  | .combine op =>
    match entry.subject.pair? with
    | none => refuse (subjectPlace i) (.unusableSubject .twoNames)
    | some (left, right) => do
      let (xs, ys) ← scope.pair (subjectPlace i) left right
      pure (xs.zipWith op.evalOption ys)

/-- All entries in order, each with the results before it in scope. -/
def evaluate (t : Table α) (groups : List (AxisGroup α)) :
    Nat → Scope (List (Option α)) → List Entry → Checked (Scope (List (Option α)))
  | _, scope, [] => .ok scope
  | i, scope, entry :: rest => do
    let values ← entryValues t groups scope i entry
    let scope ← (scope.define entry.name values).mapError (.moveTo (namePlace i))
    evaluate t groups (i + 1) scope rest

/-- The row of the group at a position among the groups. -/
def outputRow (scope : Scope (List (Option α))) (group : AxisGroup α) (position : Nat) : Row α :=
  group.key.toCells ++
    scope.entries.map fun (_, values) => Cell.ofOption (values.getD position none)

def run (config : Aggregation) (t : Table α) : Checked (Table α) := do
  let positions ← axisPositions t 0 config.axis
  let groups := groups t positions
  let scope ← evaluate t groups 0 .empty config.entries
  let rows := groups.zipIdx.map fun (group, position) => outputRow scope group position
  orTableFault (Table.ofRows (config.axis ++ scope.names) rows)

end Aggregation
end TableSteps
