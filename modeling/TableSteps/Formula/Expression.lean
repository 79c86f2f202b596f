import TableSteps.Operator
import TableSteps.Formula.Lexeme

/-! # Formula trees

The written form of a tree puts parentheses around every operation with two sides and none
elsewhere, and quotes a column name unless it reads as a bare name. -/

namespace TableSteps.Formula

inductive Expression (α : Type) where
  | number (x : α)
  | column (name : String)
  | binary (op : Operator) (left right : Expression α)
  | negate (operand : Expression α)
deriving DecidableEq

namespace Expression

variable {α : Type}

/-- Every column name in the order of the leaves, as often as it stands there. -/
def leafNames : Expression α → List String
  | .number _ => []
  | .column name => [name]
  | .binary _ left right => left.leafNames ++ right.leafNames
  | .negate operand => operand.leafNames

/-- The column names, each where it is first met. -/
def columns (e : Expression α) : List String := e.leafNames.eraseDups

/-- The most nodes that lie on one way from the root to a leaf. -/
def height : Expression α → Nat
  | .number _ => 1
  | .column _ => 1
  | .binary _ left right => max left.height right.height + 1
  | .negate operand => operand.height + 1

/-- The name reads as one bare name. -/
def isBareName (name : String) : Bool :=
  name.toList.head?.any startsName && name.toList.all continuesName

/-- A character of a name as it stands between quotes. -/
def quoteChar (c : Char) : List Char := if c = '\'' then ['\'', '\''] else [c]

/-- The name between quotes, a quote inside it doubled. -/
def quote (name : String) : String :=
  String.ofList ('\'' :: name.toList.flatMap quoteChar ++ ['\''])

variable [Quantity α]

/-- The written form. -/
def toText : Expression α → String
  | .number x => Quantity.toText x
  | .column name => if isBareName name then name else quote name
  | .binary op left right => "(" ++ left.toText ++ " " ++ op.symbol ++ " " ++ right.toText ++ ")"
  | .negate operand => "-" ++ operand.toText

/-- The same tree, its numbers compared by value. -/
def same : Expression α → Expression α → Bool
  | .number x, .number y => Quantity.eqv x y
  | .column a, .column b => a == b
  | .binary op l r, .binary op' l' r' => op == op' && l.same l' && r.same r'
  | .negate e, .negate e' => e.same e'
  | _, _ => false

end Expression
end TableSteps.Formula
