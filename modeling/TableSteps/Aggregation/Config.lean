import TableSteps.Step.Subject
import TableSteps.Step.Kind
import TableSteps.Wire.Record

/-! # Configs of aggregations

An aggregation lists the columns to group by and the columns to compute. An entry either reduces
one column of the table or combines the results of two entries that stand before it. -/

namespace TableSteps

/-- One computed column. -/
structure Entry where
  name : String
  subject : Subject
  method : Method
deriving DecidableEq

/-- Rows are grouped by the axis columns; each entry computes one value a group. -/
structure Aggregation where
  axis : List String
  entries : List Entry
deriving DecidableEq

namespace Entry

def decode : Wire.Decoder Entry :=
  Wire.Record.decode
    (Entry.mk <$> .required "name" Wire.text <*> .required "subject" Subject.decode
      <*> .required "method" Method.decode)

def encode (e : Entry) : Json :=
  .record [("name", .str e.name), ("subject", e.subject.encode), ("method", e.method.encode)]

end Entry

namespace Aggregation

def decode : Wire.Decoder Aggregation :=
  Wire.Record.decode
    (Aggregation.mk <$> .required "axis" (Wire.list Wire.text)
      <*> .required "column" (Wire.list Entry.decode))

def encode (a : Aggregation) : Json :=
  .record [("axis", .strings a.axis), ("column", .arr (a.entries.map Entry.encode))]

/-! ## Places -/

def axisPlace (i : Nat) : Place := .item (.root "axis") i

def entryPlace (i : Nat) : Place := .item (.root "column") i

def namePlace (i : Nat) : Place := .member (entryPlace i) "name"

def subjectPlace (i : Nat) : Place := .member (entryPlace i) "subject"

end Aggregation
end TableSteps
