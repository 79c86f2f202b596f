import TableSteps.Step.Subject
import TableSteps.Step.Kind
import TableSteps.Wire.Decoder
import TableSteps.Chart.Spec

/-! # Configs of summaries

A summary lists formulas, each of which computes one number of the whole table, and may ask for a
chart and for the table itself. -/

namespace TableSteps

/-- What a formula of a summary computes. -/
inductive FormulaMethod where
  | reduce (reduction : Reduction)
  /-- The sum over all rows of a formula written as text. -/
  | arithmetic
  | combine (op : Operator)
deriving DecidableEq

/-- One named number. Its value is scaled by the portion. -/
structure SummaryFormula (α : Type) where
  name : Option String
  subject : Option Subject
  method : FormulaMethod
  text : Option String
  unit : Option String
  portion : α

structure Summary (α : Type) where
  formulas : Option (List (SummaryFormula α))
  chart : Option ChartSpec
  includeTable : Bool

namespace FormulaMethod

def all : List FormulaMethod :=
  Reduction.all.map .reduce ++ .arithmetic :: Operator.all.map .combine

def tag : FormulaMethod → String
  | .reduce reduction => reduction.tag
  | .arithmetic => "arithmetic"
  | .combine op => op.symbol

def decode : Wire.Decoder FormulaMethod := Wire.oneOf all tag

theorem decode_tag (m : FormulaMethod) : decode (.str m.tag) = .ok m := by
  refine Wire.oneOfWith_tag Wire.isNull ?_
  rcases m with r | _ | op
  · cases r <;> rfl
  · rfl
  · cases op <;> rfl

end FormulaMethod

namespace SummaryFormula

variable {α : Type}

/-- The column of a reduction. -/
def column? (f : SummaryFormula α) : Option String := f.subject.bind Subject.single?

/-- The operands of a combined formula. -/
def operands? (f : SummaryFormula α) : Option (String × String) := f.subject.bind Subject.pair?

/-- The name under which later formulas find the result: the one given, or one that says what is
computed. -/
def boundName (f : SummaryFormula α) : String :=
  match f.name with
  | some name => name
  | none =>
    match f.method with
    | .reduce reduction =>
      match f.column? with
      | some column => s!"{reduction.tag}({column})"
      | none => reduction.tag
    | .arithmetic => f.text.getD ""
    | .combine op =>
      match f.operands? with
      | some (a, b) => s!"{a} {op.symbol} {b}"
      | none => op.symbol

variable [WireQuantity α]

def decode : Wire.Decoder (SummaryFormula α) :=
  Wire.Record.decode
    (SummaryFormula.mk <$> .optional "name" Wire.text <*> .optional "target_subject" Subject.decode
      <*> .required "type" FormulaMethod.decode <*> .optional "formula_text" Wire.text
      <*> .optional "unit" Wire.text
      <*> .defaulted "portion" Wire.quantity (Quantity.ofNat 1))

def encode (f : SummaryFormula α) : Json :=
  .record
    [ ("name", .ofOption (f.name.map .str)),
      ("target_subject", .ofOption (f.subject.map Subject.encode)), ("type", .str f.method.tag),
      ("formula_text", .ofOption (f.text.map .str)), ("unit", .ofOption (f.unit.map .str)),
      ("portion", WireQuantity.toJson f.portion) ]

end SummaryFormula

namespace Summary

variable {α : Type} [WireQuantity α]

def decode : Wire.Decoder (Summary α) :=
  Wire.Record.decode
    (Summary.mk <$> .optional "formula" (Wire.list SummaryFormula.decode)
      <*> .optional "chart" ChartSpec.decode
      <*> .defaulted "include_table" Wire.boolean false)

def encode (s : Summary α) : Json :=
  .record
    [ ("formula", .ofOption (s.formulas.map fun fs => .arr (fs.map SummaryFormula.encode))),
      ("chart", .ofOption (s.chart.map ChartSpec.encode)),
      ("include_table", .bool s.includeTable) ]

/-! ## Places -/

def formulaPlace (i : Nat) : Place := .item (.root "formula") i

def partPlace (i : Nat) (name : String) : Place := .member (formulaPlace i) name

end Summary
end TableSteps
