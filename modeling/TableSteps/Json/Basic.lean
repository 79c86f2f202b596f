import TableSteps.Dictionary
import TableSteps.Binary64.Order

/-!
JSON values.

A number is a whole number or a double and stays what it was written as: `2` and `2.0` are two
values. The members of an object are a plain list so that values can nest; every walk over them
goes through `members?`, which puts the keys in order and keeps the last value of each.
-/

namespace TableSteps

inductive Json where
  | null
  | bool (b : Bool)
  | int (n : Int)
  | float (x : Float)
  | str (s : String)
  | arr (items : List Json)
  | obj (fields : List (String × Json))

namespace Json

instance : Inhabited Json := ⟨.null⟩

def object (members : Dictionary Json) : Json := .obj members.entries

/-- The object with these members, the last of each name. -/
def record (fields : List (String × Json)) : Json := object (Dictionary.ofList fields)

def members? : Json → Option (Dictionary Json)
  | .obj fields => some (Dictionary.ofList fields)
  | _ => none

def str? : Json → Option String
  | .str s => some s
  | _ => none

/-- The double closest to a number, whole or not. -/
def float? : Json → Option Float
  | .int n => some (Binary64.ofInt n)
  | .float x => some x
  | _ => none

/-- Null, a boolean, a number or a text. -/
def isScalar : Json → Bool
  | .arr _ | .obj _ => false
  | _ => true

/-- A double as JSON can hold it: what is not finite becomes null. -/
def ofFloat (x : Float) : Json := if Binary64.isFinite x then .float x else .null

def ofNat (n : Nat) : Json := .int n

def strings (names : List String) : Json := .arr (names.map .str)

/-- The value, or null. -/
def ofOption : Option Json → Json
  | some j => j
  | none => .null

end Json
end TableSteps
