import TableSteps.Key
import TableSteps.Wire.Record

/-! # Keys as JSON

A key value is its tag, with what it holds under the tag. A number stands as the bits of its code,
and any bits are read. -/

namespace TableSteps

namespace CellKey

/-- The tags of key values and what each holds. -/
def ofTagged (tag : String) (value : Json) : Except Wire.Fault (CellKey UInt64) :=
  if tag = "Empty" then if Wire.isNull value then .ok .empty else .error .wrongShape
  else if tag = "Boolean" then (Wire.boolean value).map .boolean
  else if tag = "Number" then
    (Wire.wholeIn 0 (0xFFFFFFFFFFFFFFFF) value).map fun n => .number (UInt64.ofNat n.toNat)
  else if tag = "Text" then (Wire.text value).map .text
  else .error (.unknownVariant tag)

/-- A tag alone stands for a value that holds nothing. -/
def decode : Wire.Decoder (CellKey UInt64)
  | .str tag =>
    if tag = "Empty" then .ok .empty
    else if ["Boolean", "Number", "Text"].contains tag then .error .wrongShape
    else .error (.unknownVariant tag)
  | .obj [(tag, value)] => ofTagged tag value
  | _ => .error .wrongShape

def encode : CellKey UInt64 → Json
  | .empty => .str "Empty"
  | .boolean b => .record [("Boolean", .bool b)]
  | .number code => .record [("Number", .ofNat code.toNat)]
  | .text s => .record [("Text", .str s)]

end CellKey

namespace RowKey

def decode : Wire.Decoder (RowKey UInt64) :=
  Wire.Record.decode (RowKey.mk <$> .required "values" (Wire.list CellKey.decode))

def encode (k : RowKey UInt64) : Json :=
  .record [("values", .arr (k.values.map CellKey.encode))]

end RowKey
end TableSteps
