import TableSteps.Wire.Record

/-! # Chart documents

A chart is never drawn here. Its document names the kind, lists the traces of data and describes
the layout, for whatever draws it. -/

namespace TableSteps

structure Figure where
  kind : String
  data : List Json
  layout : Json

/-- What one way of drawing contributes; the keys that all layouts share come later. -/
structure Drawing where
  data : List Json
  layout : Dictionary Json

/-- A text as layouts hold it. -/
def titled (s : String) : Json := .record [("text", .str s)]

/-- The title of an axis. -/
def axisTitle (s : String) : Json := .record [("title", titled s)]

namespace Figure

def decode : Wire.Decoder Figure :=
  Wire.Record.decode
    (Figure.mk <$> .required "kind" Wire.text
      <*> .required "data" (Wire.list Wire.anything) <*> .required "layout" Wire.anything)

def encode (d : Figure) : Json :=
  .record [("kind", .str d.kind), ("data", .arr d.data), ("layout", d.layout)]

end Figure
end TableSteps
