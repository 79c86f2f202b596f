import TableSteps.Chart.Options
import TableSteps.Chart.Figure
import TableSteps.Chart.Column

/-! # Heatmaps

The rows are pivoted into a matrix with a line for every label of the `y` column and a place for
every label of the `x` column. Rows that meet in one place are summed; a place that no number
reaches stays null. -/

namespace TableSteps

namespace Heatmap

variable {α : Type} [Quantity α]

/-- One row of the table as the matrix sees it. -/
structure Reading (α : Type) where
  x : String
  y : String
  value : Option α

abbrev Matrix (α : Type) := List (List (Option α))

/-- A matrix without numbers. -/
def blank (lines places : Nat) : Matrix α := List.replicate lines (List.replicate places none)

/-- Adds a number to what a place holds. -/
def addAt (m : Matrix α) (line place : Nat) (n : α) : Matrix α :=
  m.modify line fun cells => cells.modify place fun c => some (c.getD Quantity.zero + n)

@[simp] theorem length_addAt (m : Matrix α) (line place : Nat) (n : α) :
    (addAt m line place n).length = m.length := by
  simp [addAt]

/-- Adds a reading where its labels meet. -/
def addReading (xs ys : List String) (m : Matrix α) (r : Reading α) : Matrix α :=
  match r.value with
  | none => m
  | some n => addAt m (ys.idxOf r.y) (xs.idxOf r.x) n

/-- The matrix of some readings over the labels of both axes. -/
def pivot (xs ys : List String) (readings : List (Reading α)) : Matrix α :=
  readings.foldl (addReading xs ys) (blank ys.length xs.length)

/-- The readings of a table, row by row. -/
def readings (t : Table α) (x y z : Nat) : List (Reading α) :=
  t.rows.map fun row =>
    ⟨(cellAt row x).label, (cellAt row y).label, (cellAt row z).asNumber⟩

/-- The matrix of three columns of a table. -/
def matrix (t : Table α) (x y z : String) : Matrix α :=
  pivot (t.categories x) (t.categories y)
    (readings t (t.positionOf x) (t.positionOf y) (t.positionOf z))

end Heatmap

variable {α : Type} [WireQuantity α]

def Heatmap.build (t : Table α) (options : Options) : Charted Drawing := do
  let x ← Options.column options t "x"
  let y ← Options.column options t "y"
  let z ← Options.column options t "z"
  let trace := Json.record
    [ ("type", .str "heatmap"), ("name", .str z), ("x", .strings (t.categories x)),
      ("y", .strings (t.categories y)), ("z", .arr ((matrix t x y z).map numbersToJson)) ]
  pure ⟨[trace], Dictionary.ofList [("xaxis", axisTitle x), ("yaxis", axisTitle y)]⟩

end TableSteps
