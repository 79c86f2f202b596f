import TableSteps.Table.Wire
import TableSteps.Wire.Decoder
import TableSteps.Chart.Figure

/-! # Results of steps

A result has up to three parts. A part that is absent has no key in JSON. -/

namespace TableSteps

/-- One computed number of a summary; null where there is no value. -/
structure FormulaValue (α : Type) where
  name : String
  kind : String
  value : Option α
  unit : Option String

structure StepOutput (α : Type) where
  table : Option (Table α)
  chart : Option Figure
  formulas : Option (List (FormulaValue α))

variable {α : Type}

/-- A result that is a table and nothing more. -/
def StepOutput.ofTable (t : Table α) : StepOutput α := ⟨some t, none, none⟩

variable [WireQuantity α]

namespace FormulaValue

def decode : Wire.Decoder (FormulaValue α) :=
  Wire.Record.decode
    (FormulaValue.mk <$> .required "name" Wire.text <*> .required "kind" Wire.text
      <*> .optionalByName "value" Wire.quantity <*> .optional "unit" Wire.text)

def encode (f : FormulaValue α) : Json :=
  .record
    [ ("name", .str f.name), ("kind", .str f.kind),
      ("value", WireQuantity.optionToJson f.value), ("unit", .ofOption (f.unit.map .str)) ]

end FormulaValue

namespace StepOutput

def decode : Wire.Decoder (StepOutput α) :=
  Wire.Record.decode
    (StepOutput.mk <$> .optional "table" Table.decode <*> .optional "chart" Figure.decode
      <*> .optional "formulas" (Wire.list FormulaValue.decode))

def encode (r : StepOutput α) : Json :=
  .record
    ((r.table.map fun t => ("table", t.encode)).toList ++
      (r.chart.map fun c => ("chart", c.encode)).toList ++
      (r.formulas.map fun fs => ("formulas", Json.arr (fs.map FormulaValue.encode))).toList)

end StepOutput
end TableSteps
