import TableSteps.Filter.Config
import TableSteps.Filter.Ranking
import TableSteps.Step.Error

/-! # Running a filter

Each filter narrows the rows that the one before it has left. The output has the columns of the
input; only a ranking changes the order of the rows. -/

namespace TableSteps

variable {α : Type}

/-- Tables that a step may refer to by name. -/
abbrev References (α : Type) := Dictionary (Table α)

/-- Something a run mentions without failing. -/
inductive Warning where
  | staleCategory (column : String)
deriving DecidableEq

def Warning.message : Warning → String
  | .staleCategory column => s!"category filter: column '{column}' not in table, skipping"

namespace Filter

/-! ## Categories -/

/-- The categories whose column the table lacks. They are passed over, each with a warning. -/
def staleCategories (config : Filter α) (t : Table α) : List String :=
  match config.categories with
  | none => []
  | some categories => categories.keys.filter fun name => !t.hasColumn name

def warnings (config : Filter α) (t : Table α) : List Warning :=
  (config.staleCategories t).map .staleCategory

section Category

variable [WireQuantity α]

/-- The rows whose cell in one column is one of some values. -/
def byCategory (t : Table α) (category : String × List Json) (rows : List (Row α)) :
    List (Row α) :=
  match t.columnIndex? category.1 with
  | none => rows
  | some p => rows.filter fun row => category.2.any (cellAt row p).holds

def byCategories (t : Table α) (categories : Dictionary (List Json)) (rows : List (Row α)) :
    List (Row α) :=
  categories.entries.foldl (fun rows category => byCategory t category rows) rows

end Category

/-! ## Numbers -/

section Numeric

variable [Quantity α]

/-- The number lies on the right side of a lower bound. -/
def Bound.isAbove (b : Bound α) (x : α) : Bool :=
  if b.inclusive then Quantity.le b.value x else Quantity.lt b.value x

/-- The number lies on the right side of an upper bound. -/
def Bound.isBelow (b : Bound α) (x : α) : Bool :=
  if b.inclusive then Quantity.le x b.value else Quantity.lt x b.value

/-- The number lies inside all bounds that are set. -/
def inside (min max : Option (Bound α)) (x : α) : Bool :=
  min.all (Bound.isAbove · x) && max.all (Bound.isBelow · x)

/-- The number in a row's cell, if there is one. -/
def numberAt (position : Nat) (row : Row α) : Option α := (cellAt row position).asNumber

/-- The rows with a number inside the bounds; all rows when no bound is set. -/
def byRange (position : Nat) (min max : Option (Bound α)) (rows : List (Row α)) : List (Row α) :=
  if min.isNone && max.isNone then rows
  else rows.filter fun row => (numberAt position row).any (inside min max)

/-- The rows with a number between two percentiles of all their numbers. -/
def byBand (position : Nat) (low high : α) (rows : List (Row α)) : List (Row α) :=
  let sorted := (rows.filterMap (numberAt position)).mergeSort Quantity.totalLe
  match quantile? sorted low, quantile? sorted high with
  | some low, some high =>
    rows.filter fun row =>
      (numberAt position row).any fun x => Quantity.le low x && Quantity.le x high
  | _, _ => []

def byNumber (t : Table α) (filter : NumberFilter α) (rows : List (Row α)) :
    Checked (List (Row α)) :=
  match t.columnIndex? filter.column with
  | none => refuse (numericPlace "column") (.unknownColumn filter.column t.columns)
  | some p =>
    match filter with
    | .range _ min max => .ok (byRange p (Bound.active? min) (Bound.active? max) rows)
    | .top _ count ascending =>
      if count ≤ 0 then refuse (numericPlace "k") (.nonPositiveCount count)
      else .ok (topRows ascending (numberAt p) count.toNat rows)
    | .band _ low high => .ok (byBand p low high rows)

end Numeric

/-! ## Joins -/

section Join

/-- The positions of the key columns. -/
def keyPositions (t : Table α) : Nat → List String → Checked (List Nat)
  | _, [] => .ok []
  | i, name :: rest =>
    match t.columnIndex? name with
    | none => refuse (keyPlace i) (.unknownColumn name t.columns)
    | some p =>
      match keyPositions t (i + 1) rest with
      | .error e => .error e
      | .ok ps => .ok (p :: ps)

/-- The reference table of a join. -/
def referenceTable (filter : JoinFilter) (references : References α) : Checked (Table α) :=
  match filter.reference with
  | none => refuse (joinPlace "reference") .noReference
  | some name =>
    match references.get? name with
    | some reference => .ok reference
    | none => refuse (joinPlace "reference") (.undefinedName name references.keys)

variable [Quantity α]

/-- The rows whose key is among the keys of the reference, or the others. -/
def byJoin (t : Table α) (filter : JoinFilter) (references : References α) (rows : List (Row α)) :
    Checked (List (Row α)) := do
  let reference ← referenceTable filter references
  let own ← keyPositions t 0 filter.keyColumns
  let others ← keyPositions reference 0 filter.keyColumns
  let keys := reference.rows.map fun row => RowKey.ofRow row others
  pure (rows.filter fun row => keys.contains (RowKey.ofRow row own) != filter.exclude)

end Join

/-! ## All filters in order -/

variable [WireQuantity α]

def afterCategories (config : Filter α) (t : Table α) : List (Row α) :=
  match config.categories with
  | some categories => byCategories t categories t.rows
  | none => t.rows

def afterNumeric (config : Filter α) (t : Table α) (rows : List (Row α)) :
    Checked (List (Row α)) :=
  match config.numeric with
  | some filter => byNumber t filter rows
  | none => .ok rows

def afterJoin (config : Filter α) (t : Table α) (references : References α) (rows : List (Row α)) :
    Checked (List (Row α)) :=
  match config.activeJoin? with
  | some filter => byJoin t filter references rows
  | none => .ok rows

def run (config : Filter α) (t : Table α) (references : References α) : Checked (Table α) := do
  let rows ← config.afterNumeric t (config.afterCategories t)
  let rows ← config.afterJoin t references rows
  pure (t.withRows rows)

end Filter
end TableSteps
