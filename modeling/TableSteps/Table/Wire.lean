import TableSteps.Table.Basic
import TableSteps.Wire.Record

/-! # Tables as JSON

A table is a record of its column names and its rows. The rows may be left out; a table that its
rows and columns do not make is a fault of its own. -/

namespace TableSteps

/-- Why a JSON value is no table. -/
inductive TableDecodeFault where
  | shape (fault : Wire.Fault)
  | table (fault : TableFault)

variable {α : Type} [WireQuantity α]

/-- A cell is any scalar. -/
def Cell.decode : Wire.Decoder (Cell α) := fun j =>
  match Cell.ofJson? j with
  | some c => .ok c
  | none => .error .wrongShape

namespace Table

/-- Columns and rows that need not make a table. -/
def decodeParts : Wire.Decoder (List String × List (Row α)) :=
  Wire.Record.decode
    (Prod.mk <$> .required "columns" (Wire.list Wire.text)
      <*> .defaulted "rows" (Wire.list (Wire.list Cell.decode)) [])

def decode? (j : Json) : Except TableDecodeFault (Table α) :=
  match decodeParts j with
  | .error fault => .error (.shape fault)
  | .ok (columns, rows) => (ofRows columns rows).mapError .table

/-- A table inside another value. -/
def decode : Wire.Decoder (Table α) := fun j =>
  match decode? j with
  | .ok t => .ok t
  | .error (.shape fault) => .error fault
  | .error (.table _) => .error .wrongShape

def encode (t : Table α) : Json :=
  .record
    [ ("columns", .strings t.columns),
      ("rows", .arr (t.rows.map fun row => .arr (row.map Cell.toJson))) ]

end Table
end TableSteps
