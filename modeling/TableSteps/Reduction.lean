import TableSteps.Cell
import TableSteps.Wire.Decoder

/-! # Reductions of a column

One pass over the cells of a column, or of the part of it that one group has, gathers what all five
reductions need. Missing cells are passed over; a cell that is neither missing nor a number is
counted and nothing more. -/

namespace TableSteps

inductive Reduction where
  | sum
  | mean
  | count
  | max
  | min
deriving DecidableEq

namespace Reduction

def all : List Reduction := [.sum, .mean, .count, .max, .min]

def tag : Reduction → String
  | .sum => "sum"
  | .mean => "mean"
  | .count => "count"
  | .max => "max"
  | .min => "min"

/-- Counting works on any column. -/
def needsNumbers : Reduction → Bool
  | .count => false
  | _ => true

end Reduction

/-- What a pass over some cells has gathered. -/
structure Tally (α : Type) where
  sum : α
  /-- Cells that are not missing. -/
  cells : Nat
  /-- Cells that are numbers. -/
  numbers : Nat
  min : Option α
  max : Option α

namespace Tally

variable {α : Type} [Quantity α]

def empty : Tally α := ⟨Quantity.zero, 0, 0, none, none⟩

/-- The better of the value so far, if there is one, and a new one. -/
def improve (better : α → α → α) (sofar : Option α) (x : α) : α :=
  match sofar with
  | some y => better y x
  | none => x

def addNumber (a : Tally α) (x : α) : Tally α :=
  { sum := a.sum + x
    cells := a.cells + 1
    numbers := a.numbers + 1
    min := some (improve Quantity.least a.min x)
    max := some (improve Quantity.greatest a.max x) }

def addOther (a : Tally α) : Tally α := { a with cells := a.cells + 1 }

def addCell (a : Tally α) (c : Cell α) : Tally α :=
  if c.isMissing then a
  else
    match c.asNumber with
    | some x => a.addNumber x
    | none => a.addOther

def ofCells (cells : List (Cell α)) : Tally α := cells.foldl addCell empty

@[simp] theorem ofCells_nil : ofCells ([] : List (Cell α)) = empty := rfl

/-- The sum of nothing is zero; the mean, the maximum and the minimum of nothing are null. -/
def result (a : Tally α) : Reduction → Option α
  | .sum => some a.sum
  | .count => some (Quantity.ofNat a.cells)
  | .mean => if a.numbers = 0 then none else some (a.sum / Quantity.ofNat a.numbers)
  | .max => a.max
  | .min => a.min

end Tally
end TableSteps
