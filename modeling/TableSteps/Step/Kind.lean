import TableSteps.Wire.Decoder

/-! # The kinds of step, and the places in their configs

Each kind has one tag, and a tag names at most one kind. A place names the entry of a config that an
error is about, as a path of members and positions: `column[2].subject`. -/

namespace TableSteps

inductive StepKind where
  | aggregate
  | filter
  | transform
  | summary
deriving DecidableEq

namespace StepKind

def all : List StepKind := [.aggregate, .filter, .transform, .summary]

def tag : StepKind → String
  | .aggregate => "aggregate"
  | .filter => "filter"
  | .transform => "transform"
  | .summary => "summary"

def ofTag? (s : String) : Option StepKind := all.find? fun k => k.tag == s

def tags : List String := all.map tag

theorem ofTag?_tag (k : StepKind) : ofTag? k.tag = some k := by cases k <;> rfl

def decode : Wire.Decoder StepKind := Wire.oneOf all tag

theorem decode_tag (k : StepKind) : decode (.str k.tag) = .ok k :=
  Wire.oneOfWith_tag Wire.isNull k.ofTag?_tag

end StepKind

inductive Place where
  | root (name : String)
  | item (inside : Place) (position : Nat)
  | member (inside : Place) (name : String)
deriving DecidableEq

def Place.path : Place → String
  | .root name => name
  | .item inside position => s!"{inside.path}[{position}]"
  | .member inside name => s!"{inside.path}.{name}"

end TableSteps
