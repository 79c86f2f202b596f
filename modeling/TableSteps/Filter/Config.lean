import TableSteps.Wire.Decoder
import TableSteps.Step.Kind
import TableSteps.Wire.Record

/-! # Configs of filters

A filter has up to three parts: the values that some columns may hold, a condition on the numbers of
one column, and a join with a reference table. -/

namespace TableSteps

/-- One side of a range. A bound that is not enabled bounds nothing. -/
structure Bound (α : Type) where
  value : α
  enabled : Bool
  inclusive : Bool

/-- A condition on the numbers of one column. -/
inductive NumberFilter (α : Type) where
  /-- The numbers between two bounds. -/
  | range (column : String) (min max : Option (Bound α))
  /-- The first rows of a ranking. -/
  | top (column : String) (count : Int) (ascending : Bool)
  /-- The numbers between two percentiles of the rows that are left. -/
  | band (column : String) (low high : α)

/-- Keeps the rows whose key a reference table has, or those whose key it lacks. -/
structure JoinFilter where
  enabled : Bool
  reference : Option String
  keyColumns : List String
  exclude : Bool
deriving DecidableEq

/-- Up to three filters, applied in this order. -/
structure Filter (α : Type) where
  /-- The values that a column may hold. -/
  categories : Option (Dictionary (List Json))
  numeric : Option (NumberFilter α)
  join : Option JoinFilter

namespace Bound

variable {α : Type}

/-- The bound, if there is one and it is enabled. -/
def active? (b : Option (Bound α)) : Option (Bound α) := b.filter Bound.enabled

end Bound

namespace NumberFilter

def column {α : Type} : NumberFilter α → String
  | .range column _ _ => column
  | .top column _ _ => column
  | .band column _ _ => column

end NumberFilter

section Wire

variable {α : Type} [WireQuantity α]

def Bound.decode : Wire.Decoder (Bound α) :=
  Wire.Record.decode
    (Bound.mk <$> .required "value" Wire.quantity <*> .defaulted "enabled" Wire.boolean true
      <*> .defaulted "inclusive" Wire.boolean true)

def Bound.encode (b : Bound α) : Json :=
  .record
    [ ("value", WireQuantity.toJson b.value), ("enabled", .bool b.enabled),
      ("inclusive", .bool b.inclusive) ]

namespace NumberFilter

def decode : Wire.Decoder (NumberFilter α) :=
  Wire.Record.tagged "filter_type"
    [ ("range",
        range <$> .required "column" Wire.text <*> .optional "min" Bound.decode
          <*> .optional "max" Bound.decode),
      ("topk",
        top <$> .required "column" Wire.text <*> .required "k" Wire.signedWord
          <*> .defaulted "ascending" Wire.boolean false),
      ("percentage",
        band <$> .required "column" Wire.text
          <*> .defaulted "min_percentile" Wire.quantity (Quantity.ofNat 0)
          <*> .defaulted "max_percentile" Wire.quantity (Quantity.ofNat 100)) ]

def encode : NumberFilter α → Json
  | .range column min max =>
    .record
      [ ("filter_type", .str "range"), ("column", .str column),
        ("min", .ofOption (min.map Bound.encode)), ("max", .ofOption (max.map Bound.encode)) ]
  | .top column count ascending =>
    .record
      [ ("filter_type", .str "topk"), ("column", .str column), ("k", .int count),
        ("ascending", .bool ascending) ]
  | .band column low high =>
    .record
      [ ("filter_type", .str "percentage"), ("column", .str column),
        ("min_percentile", WireQuantity.toJson low), ("max_percentile", WireQuantity.toJson high) ]

end NumberFilter

namespace JoinFilter

def decode : Wire.Decoder JoinFilter :=
  Wire.Record.decode
    (JoinFilter.mk <$> .defaulted "enable" Wire.boolean true
      <*> .optional "reference" Wire.text
      <*> .defaulted "key_columns" (Wire.list Wire.text) []
      <*> .defaulted "exclude_mode" Wire.boolean false)

def encode (f : JoinFilter) : Json :=
  .record
    [ ("enable", .bool f.enabled), ("reference", .ofOption (f.reference.map .str)),
      ("key_columns", .strings f.keyColumns), ("exclude_mode", .bool f.exclude) ]

end JoinFilter

namespace Filter

def decode : Wire.Decoder (Filter α) :=
  Wire.Record.decode
    (Filter.mk <$> .optional "category_filter" (Wire.dictionary (Wire.list Wire.anything))
      <*> .optional "numeric_filter" NumberFilter.decode
      <*> .optional "table_filter" JoinFilter.decode)

def encode (f : Filter α) : Json :=
  .record
    [ ("category_filter", .ofOption (f.categories.map fun c => .object (c.map .arr))),
      ("numeric_filter", .ofOption (f.numeric.map NumberFilter.encode)),
      ("table_filter", .ofOption (f.join.map JoinFilter.encode)) ]

end Filter

end Wire

namespace Filter

variable {α : Type}

/-- No filter is set. -/
def isUnset (f : Filter α) : Bool := f.categories.isNone && f.numeric.isNone && f.join.isNone

/-- The join, if it is set and enabled. -/
def activeJoin? (f : Filter α) : Option JoinFilter := f.join.filter JoinFilter.enabled

/-! ## Places -/

def categoryPlace (column : String) : Place := .member (.root "category_filter") column

def numericPlace (name : String) : Place := .member (.root "numeric_filter") name

def joinPlace (name : String) : Place := .member (.root "table_filter") name

def keyPlace (i : Nat) : Place := .item (joinPlace "key_columns") i

end Filter
end TableSteps
