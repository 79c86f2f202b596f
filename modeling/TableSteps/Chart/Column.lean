import TableSteps.Table.Basic

/-! # Columns as charts read them

A chart reads a column as cells, as numbers with gaps, as labels, or as its distinct labels in the
order in which they are first met. The options have been checked by then: a column is there. -/

namespace TableSteps.Table

variable {α : Type}

/-- The cells of a column, row by row; none if there is no such column. -/
def cells (t : Table α) (name : String) : List (Cell α) := (t.columnValues? name).getD []

/-- The position of a column that is known to be there. -/
def positionOf (t : Table α) (name : String) : Nat := (t.columnIndex? name).getD 0

variable [Quantity α]

/-- The numbers of a column, row by row, with nothing where a cell is no number. -/
def numbers (t : Table α) (name : String) : List (Option α) := (t.cells name).map Cell.asNumber

/-- The label of every row in a column. -/
def labels (t : Table α) (name : String) : List String := (t.cells name).map Cell.label

/-- The labels of a column, each where it is first met. -/
def categories (t : Table α) (name : String) : List String := (t.labels name).eraseDups

end TableSteps.Table

namespace TableSteps

/-- Numbers with nulls between them. -/
def numbersToJson {α : Type} [WireQuantity α] (xs : List (Option α)) : Json :=
  .arr (xs.map WireQuantity.optionToJson)

end TableSteps
