import TableSteps.Quantity
import TableSteps.Text.CharClass

/-! # Cells

A cell holds one JSON scalar. It is read in three ways: as a number, where text that writes a
finite number counts; as missing, which an empty cell and the text of a missing number are; and as
a label, the text that mappings, categories and chart nodes go by. -/

namespace TableSteps

inductive Cell (α : Type) where
  | empty
  | boolean (b : Bool)
  | number (x : α)
  | text (s : String)
deriving DecidableEq

namespace Cell

variable {α : Type}

instance : Inhabited (Cell α) := ⟨.empty⟩

/-- A computed value; null leaves the cell empty. -/
def ofOption : Option α → Cell α
  | some x => .number x
  | none => .empty

def isEmpty : Cell α → Bool
  | .empty => true
  | _ => false

section Reading

variable [Quantity α]

/-- The number a text writes between its blanks. -/
def numberInText? (s : String) : Option α := Quantity.ofText? (Text.trim s.toList)

/-- Empty, or a text that writes a missing number. -/
def isMissing : Cell α → Bool
  | .empty => true
  | .text s => (numberInText? (α := α) s).any Quantity.isNaN
  | _ => false

/-- A number as it is, or a text that writes a finite one. -/
def asNumber : Cell α → Option α
  | .number x => some x
  | .text s => (numberInText? s).filter Quantity.isFinite
  | _ => none

def label : Cell α → String
  | .empty => ""
  | .boolean b => if b then "true" else "false"
  | .number x => Quantity.toText x
  | .text s => s

@[simp] theorem asNumber_number (x : α) : (Cell.number x).asNumber = some x := rfl

@[simp] theorem asNumber_ofOption (v : Option α) : (ofOption v).asNumber = v := by
  cases v <;> rfl

@[simp] theorem asNumber_empty : (Cell.empty : Cell α).asNumber = none := rfl

@[simp] theorem isMissing_number (x : α) : (Cell.number x).isMissing = false := rfl

@[simp] theorem isMissing_empty : (Cell.empty : Cell α).isMissing = true := rfl

end Reading

section Wire

variable [WireQuantity α]

/-- The cell of a JSON scalar; arrays and objects have none. -/
def ofJson? : Json → Option (Cell α)
  | .null => some .empty
  | .bool b => some (.boolean b)
  | .int n => some (.number (WireQuantity.ofInt n))
  | .float x => some (.number (WireQuantity.ofFloat x))
  | .str s => some (.text s)
  | .arr _ | .obj _ => none

def toJson : Cell α → Json
  | .empty => .null
  | .boolean b => .bool b
  | .number x => WireQuantity.toJson x
  | .text s => .str s

/-- The same scalar: numbers by value, everything else exactly, and no type for another. -/
def holds : Cell α → Json → Bool
  | .empty, .null => true
  | .boolean a, .bool b => a == b
  | .number x, j => (WireQuantity.ofJson? j).any fun y => Quantity.eqv y x
  | .text a, .str b => a == b
  | _, _ => false

end Wire
end Cell
end TableSteps
