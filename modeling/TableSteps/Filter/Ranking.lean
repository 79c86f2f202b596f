import TableSteps.Cell

/-! # Rankings and quantiles

Rows are ranked by the number in one column, in a total order of numbers; rows without a number
come last in either direction, and rows of one rank keep their order. A quantile lies between two
neighbours of a sorted list, at the share of the way that the percentile asks for. -/

namespace TableSteps

variable {α : Type} [Quantity α]

/-- The row with the first value may stand before the row with the second. -/
def ranksBefore (ascending : Bool) : Option α → Option α → Bool
  | some x, some y => if ascending then Quantity.totalLe x y else Quantity.totalLe y x
  | some _, none => true
  | none, some _ => false
  | none, none => true

/-- All rows in the order of their rank. -/
def ranked {ρ : Type} (ascending : Bool) (value : ρ → Option α) (rows : List ρ) : List ρ :=
  rows.mergeSort fun a b => ranksBefore ascending (value a) (value b)

/-- The first rows of the ranking. -/
def topRows {ρ : Type} (ascending : Bool) (value : ρ → Option α) (count : Nat) (rows : List ρ) :
    List ρ :=
  (ranked ascending value rows).take count

/-- Where a percentile points in a list whose last position is `last`. -/
def quantilePosition (last : Nat) (percentile : α) : α :=
  Quantity.clamp (Quantity.ofNat 0) (Quantity.ofNat 1) (percentile / Quantity.ofNat 100)
    * Quantity.ofNat last

/-- The value at a percentile of sorted values, interpolated between its two neighbours. -/
def quantile? (sorted : List α) (percentile : α) : Option α :=
  match sorted with
  | [] => none
  | first :: rest =>
    let position := quantilePosition rest.length percentile
    let lower := Quantity.floorNat position
    let upper := Quantity.ceilNat position
    let low := sorted.getD lower first
    let high := sorted.getD upper first
    some (low + (high - low) * (position - Quantity.ofNat lower))

end TableSteps
