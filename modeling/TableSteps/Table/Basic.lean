import TableSteps.Key

/-! # Tables

A table is a list of named columns and a list of rows. `WellFormed` says that the names are
distinct and that every row is as wide as the columns; the operations that could break it check
first and answer with a `TableFault`. -/

namespace TableSteps

/-- Why rows and columns make no table. -/
inductive TableFault where
  | rowWidth (row expected found : Nat)
  | notRecord (index : Nat)
  | nested (column : String)
  | duplicateColumn (name : String)
deriving DecidableEq

def TableFault.message : TableFault → String
  | .rowWidth row expected found =>
    s!"Row {row} has {found} values but the table has {expected} columns"
  | .notRecord index => s!"Record {index} is not an object"
  | .nested column => s!"Column '{column}' holds a nested value; only scalars are supported"
  | .duplicateColumn name => s!"Duplicate column name: {name}"

abbrev Row (α : Type) := List (Cell α)

structure Table (α : Type) where
  columns : List String
  rows : List (Row α)
deriving DecidableEq

/-- The first name that stands a second time. -/
def firstRepeat? : List String → Option String :=
  go []
where
  go (seen : List String) : List String → Option String
    | [] => none
    | name :: rest => if name ∈ seen then some name else go (name :: seen) rest

namespace Table

variable {α : Type}

instance : Inhabited (Table α) := ⟨⟨[], []⟩⟩

/-- Distinct column names, and every row as wide as the columns. -/
structure WellFormed (t : Table α) : Prop where
  nodup : t.columns.Nodup
  width : ∀ row ∈ t.rows, row.length = t.columns.length

/-! ## Columns and cells -/

def columnIndex? (t : Table α) (name : String) : Option Nat := t.columns.idxOf? name

def hasColumn (t : Table α) (name : String) : Bool := t.columns.contains name

def rowCount (t : Table α) : Nat := t.rows.length

def columnCount (t : Table α) : Nat := t.columns.length

def cell? (t : Table α) (row : Nat) (name : String) : Option (Cell α) :=
  match t.columnIndex? name, t.rows[row]? with
  | some p, some r => some (cellAt r p)
  | _, _ => none

/-- The cells of the column at a position, row by row. -/
def cellsAt (t : Table α) (position : Nat) : List (Cell α) := t.rows.map (cellAt · position)

def columnValues? (t : Table α) (name : String) : Option (List (Cell α)) :=
  (t.columnIndex? name).map t.cellsAt

/-- Every cell of the column is missing or a number. A column that is not there is not numeric. -/
def isNumericColumn [Quantity α] (t : Table α) (name : String) : Bool :=
  (t.columnValues? name).any fun cells => cells.all fun c => c.isMissing || c.asNumber.isSome

/-! ## Building -/

/-- A table without rows. -/
def new (columns : List String) : Except TableFault (Table α) :=
  match firstRepeat? columns with
  | some name => .error (.duplicateColumn name)
  | none => .ok ⟨columns, []⟩

/-- Adds a row at the end. -/
def pushRow (t : Table α) (row : Row α) : Except TableFault (Table α) :=
  if row.length = t.columnCount then .ok { t with rows := t.rows ++ [row] }
  else .error (.rowWidth t.rowCount t.columnCount row.length)

/-- The number of the first row of another width than the columns, and its width. -/
def firstMisfit? (width : Nat) : Nat → List (Row α) → Option (Nat × Nat)
  | _, [] => none
  | i, row :: rest =>
    if row.length = width then firstMisfit? width (i + 1) rest else some (i, row.length)

def ofRows (columns : List String) (rows : List (Row α)) : Except TableFault (Table α) :=
  match firstRepeat? columns with
  | some name => .error (.duplicateColumn name)
  | none =>
    match firstMisfit? columns.length 0 rows with
    | some (row, found) => .error (.rowWidth row columns.length found)
    | none => .ok ⟨columns, rows⟩

/-! ## Changing -/

/-- The rows at these positions, in this order; a position past the end gives none. -/
def selectRows (t : Table α) (positions : List Nat) : Table α :=
  { t with rows := positions.filterMap (t.rows[·]?) }

/-- The same columns over other rows. -/
def withRows (t : Table α) (rows : List (Row α)) : Table α := { t with rows }

/-- Writes one value a row into a column: in its place if the column is there, else at the end. -/
def setColumn (t : Table α) (name : String) (values : List (Cell α)) :
    Except TableFault (Table α) :=
  if values.length = t.rowCount then
    match t.columnIndex? name with
    | some p => .ok { t with rows := t.rows.zipWith (fun row value => row.set p value) values }
    | none =>
      .ok ⟨t.columns ++ [name], t.rows.zipWith (fun row value => row ++ [value]) values⟩
  else .error (.rowWidth (min values.length t.rowCount) t.rowCount values.length)

end Table
end TableSteps
