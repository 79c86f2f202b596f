import TableSteps.Reduction
import TableSteps.Operator
import TableSteps.Wire.Decoder

/-! # Subjects and methods of entries

A reduction reads one column, an operator combines two results that stand before it. Which of the
two an entry's subject has to be is checked with its method in hand, not while it is decoded, so
that an error can name the entry. -/

namespace TableSteps

inductive Subject where
  | single (name : String)
  | many (names : List String)
deriving DecidableEq

namespace Subject

def single? : Subject → Option String
  | .single name => some name
  | .many _ => none

def pair? : Subject → Option (String × String)
  | .many [a, b] => some (a, b)
  | _ => none

def decode : Wire.Decoder Subject
  | .str name => .ok (.single name)
  | j =>
    match Wire.list Wire.text j with
    | .ok names => .ok (.many names)
    | .error f => .error f

def encode : Subject → Json
  | .single name => .str name
  | .many names => .strings names

theorem decode_encode (s : Subject) : decode s.encode = .ok s := by
  cases s with
  | single name => rfl
  | many names => simp [decode, encode, Json.strings, Wire.list, Wire.items_map_str]

end Subject

def Operator.decode : Wire.Decoder Operator := Wire.oneOf Operator.all Operator.symbol

theorem Operator.decode_symbol (op : Operator) : Operator.decode (.str op.symbol) = .ok op :=
  Wire.oneOfWith_tag Wire.isNull (by cases op <;> rfl)

/-- What an entry of an aggregation computes. -/
inductive Method where
  | reduce (reduction : Reduction)
  | combine (op : Operator)
deriving DecidableEq

namespace Method

def all : List Method := Reduction.all.map .reduce ++ Operator.all.map .combine

def tag : Method → String
  | .reduce reduction => reduction.tag
  | .combine op => op.symbol

def decode : Wire.Decoder Method := Wire.oneOf all tag

def encode (m : Method) : Json := .str m.tag

theorem decode_encode (m : Method) : decode m.encode = .ok m := by
  refine Wire.oneOfWith_tag Wire.isNull ?_
  rcases m with r | op
  · cases r <;> rfl
  · cases op <;> rfl

end Method
end TableSteps
