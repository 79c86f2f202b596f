import TableSteps.Json.Basic

/-! # Numbers a table can hold

Every operator is written for one type of numbers given by this class, and the program runs on
doubles. Keeping the type open separates what depends on rounding from what does not: a law that
needs exact sums or a total order is stated for the quantities that have it. -/

namespace TableSteps

/-- Numbers that rows can be grouped and joined by. -/
class Keyed (α : Type) where
  /-- What is left of a number once equal numbers are identified. -/
  Key : Type
  decEqKey : DecidableEq Key
  key : α → Key
  ofKey : Key → α

instance {α : Type} [Keyed α] : DecidableEq (Keyed.Key α) := Keyed.decEqKey

/-- Arithmetic, comparison and text of the numbers in a table. -/
class Quantity (α : Type) extends Keyed α, Add α, Sub α, Mul α, Div α, Neg α where
  ofNat : Nat → α
  /-- Not a number: neither below, above nor equal to anything. -/
  isNaN : α → Bool
  isFinite : α → Bool
  /-- Numerical order. -/
  lt : α → α → Bool
  /-- Numerical equality. -/
  eqv : α → α → Bool
  /-- A total order that refines the numerical one. -/
  totalLe : α → α → Bool
  /-- The largest whole number not above. -/
  floorNat : α → Nat
  /-- The least whole number not below. -/
  ceilNat : α → Nat
  /-- The number that a whole text writes. -/
  ofText? : List Char → Option α
  toText : α → String

/-- Quantities that travel in JSON documents. -/
class WireQuantity (α : Type) extends Quantity α where
  ofInt : Int → α
  ofFloat : Float → α
  /-- Null unless the number is finite. -/
  toJson : α → Json

namespace Quantity

variable {α : Type} [Quantity α]

def zero : α := ofNat 0

def isZero (x : α) : Bool := eqv x zero

def le (x y : α) : Bool := lt x y || eqv x y

/-- The smaller number; of a number and what is none, the number. -/
def least (x y : α) : α :=
  if isNaN x then y else if isNaN y then x else if lt y x then y else x

/-- The larger number; of a number and what is none, the number. -/
def greatest (x y : α) : α :=
  if isNaN x then y else if isNaN y then x else if lt x y then y else x

/-- The nearest point of an interval. -/
def clamp (low high x : α) : α :=
  if lt x low then low else if lt high x then high else x

end Quantity

namespace WireQuantity

variable {α : Type} [WireQuantity α]

/-- The quantity a JSON number stands for. -/
def ofJson? : Json → Option α
  | .int n => some (ofInt n)
  | .float x => some (ofFloat x)
  | _ => none

def optionToJson : Option α → Json
  | some x => toJson x
  | none => .null

end WireQuantity
end TableSteps
