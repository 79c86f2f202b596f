import TableSteps.Cell

/-! # Keys

A key stands for the cells of a row in some columns. Two rows belong to one group, or join, when
their keys are equal: cells of one type with equal values, where numbers are equal by value. -/

namespace TableSteps

/-- One cell of a key, with its number as a canonical code. -/
inductive CellKey (κ : Type) where
  | empty
  | boolean (b : Bool)
  | number (code : κ)
  | text (s : String)
deriving DecidableEq

structure RowKey (κ : Type) where
  values : List (CellKey κ)
deriving DecidableEq

variable {α : Type} [Keyed α]

open Keyed (Key)

def Cell.key : Cell α → CellKey (Key α)
  | .empty => .empty
  | .boolean b => .boolean b
  | .number x => .number (Keyed.key x)
  | .text s => .text s

def CellKey.cell : CellKey (Key α) → Cell α
  | .empty => .empty
  | .boolean b => .boolean b
  | .number code => .number (Keyed.ofKey code)
  | .text s => .text s

/-- The cell of a row in the column at a position. -/
def cellAt (row : List (Cell α)) (position : Nat) : Cell α := row.getD position .empty

namespace RowKey

/-- The key of a row in the columns at these positions, in this order. -/
def ofRow (row : List (Cell α)) (positions : List Nat) : RowKey (Key α) :=
  ⟨positions.map fun p => (cellAt row p).key⟩

def toCells (k : RowKey (Key α)) : List (Cell α) := k.values.map CellKey.cell

end RowKey
end TableSteps
