import TableSteps.Step.Kind
import TableSteps.Table.Wire
import TableSteps.Wire.Decoder
import TableSteps.Operator

/-! # Configs of transforms

A transform lists operations. Each computes one column from one value, another column or two
operands, and writes it under a target name. -/

namespace TableSteps

/-- One side of a computed column: a number, or the name of a column, or the text of a number. -/
inductive Operand (α : Type) where
  | literal (x : α)
  | named (name : String)

/-- How a column is computed. -/
inductive Calculation (α : Type) where
  /-- One value in every row. -/
  | constant (value : Cell α)
  /-- The cells of a column as they are. -/
  | copy (source : String)
  /-- An operation row by row. -/
  | formula (left : Operand α) (op : Operator) (right : Operand α)
  /-- The cells of a column looked up by their labels. -/
  | mapping (source : String) (targets : Dictionary (Cell α))

/-- What the author of an operation had in mind; it changes nothing. -/
inductive Intent where
  | addAxis
  | modifyAxis
  | addSubject
  | modifySubject
deriving DecidableEq

/-- Computes a column and writes it under a name, over a column of that name if there is one. -/
structure Operation (α : Type) where
  intent : Intent
  target : String
  calculation : Calculation α

structure Transform (α : Type) where
  operations : List (Operation α)

namespace Intent

def all : List Intent := [.addAxis, .modifyAxis, .addSubject, .modifySubject]

def tag : Intent → String
  | .addAxis => "add_axis"
  | .modifyAxis => "modify_axis"
  | .addSubject => "add_subject"
  | .modifySubject => "modify_subject"

def decode : Wire.Decoder Intent := Wire.oneOf all tag

theorem decode_tag (i : Intent) : decode (.str i.tag) = .ok i :=
  Wire.oneOfWith_tag Wire.isNull (by cases i <;> rfl)

end Intent

/-- The operator between the operands of a computed column. -/
def Operator.decodeInCalculation : Wire.Decoder Operator :=
  Wire.oneOfInTagged Operator.all Operator.symbol

theorem Operator.decodeInCalculation_symbol (op : Operator) :
    Operator.decodeInCalculation (.str op.symbol) = .ok op :=
  Wire.oneOfWith_tag Wire.isNullOrBare (by cases op <;> rfl)

variable {α : Type}

/-- The operand as an error names it. -/
def Operand.shown [Quantity α] : Operand α → String
  | .literal x => Quantity.toText x
  | .named name => name

section Wire

variable [WireQuantity α]

def Operand.decode : Wire.Decoder (Operand α)
  | .str name => .ok (.named name)
  | j => (Wire.quantity j).map .literal

def Operand.encode : Operand α → Json
  | .literal x => WireQuantity.toJson x
  | .named name => .str name

namespace Calculation

def decode : Wire.Decoder (Calculation α) :=
  Wire.Record.tagged "type"
    [ ("constant", constant <$> .defaulted "value" Cell.decode .empty),
      ("copy", copy <$> .required "source" Wire.text),
      ("formula",
        formula <$> .required "left" Operand.decode
          <*> .required "operator" Operator.decodeInCalculation
          <*> .required "right" Operand.decode),
      ("mapping",
        mapping <$> .required "source" Wire.text
          <*> .required "mapping" (Wire.dictionary Cell.decode)) ]

def encode : Calculation α → Json
  | .constant value => .record [("type", .str "constant"), ("value", value.toJson)]
  | .copy source => .record [("type", .str "copy"), ("source", .str source)]
  | .formula left op right =>
    .record
      [ ("type", .str "formula"), ("left", left.encode), ("operator", .str op.symbol),
        ("right", right.encode) ]
  | .mapping source targets =>
    .record
      [ ("type", .str "mapping"), ("source", .str source),
        ("mapping", .object (targets.map Cell.toJson)) ]

end Calculation

namespace Operation

def decode : Wire.Decoder (Operation α) :=
  Wire.Record.decode
    (Operation.mk <$> .required "operation_type" Intent.decode
      <*> .required "target_name" Wire.text <*> .required "calculation" Calculation.decode)

def encode (o : Operation α) : Json :=
  .record
    [ ("operation_type", .str o.intent.tag), ("target_name", .str o.target),
      ("calculation", o.calculation.encode) ]

end Operation

namespace Transform

def decode : Wire.Decoder (Transform α) :=
  Wire.Record.decode (Transform.mk <$> .required "operations" (Wire.list Operation.decode))

def encode (t : Transform α) : Json :=
  .record [("operations", .arr (t.operations.map Operation.encode))]

end Transform

end Wire

namespace Transform

/-! ## Places -/

def operationPlace (i : Nat) : Place := .item (.root "operations") i

def targetPlace (i : Nat) : Place := .member (operationPlace i) "target_name"

/-- A part of the calculation of an operation. -/
def partPlace (i : Nat) (name : String) : Place :=
  .member (.member (operationPlace i) "calculation") name

end Transform
end TableSteps
