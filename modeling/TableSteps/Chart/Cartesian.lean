import TableSteps.Group
import TableSteps.Chart.Options
import TableSteps.Chart.Figure
import TableSteps.Chart.Column

/-! # Charts with two axes: bars, lines, areas, points and waterfalls

Every `y` column gives a trace of its numbers over the cells of the `x` column. A colour column
splits each trace into one for every label, in the order in which the labels are first met. -/

namespace TableSteps.Cartesian

/-- How a kind of chart draws its traces. -/
structure Style where
  traceType : String
  mode : Option String
  fill : Option String
  horizontal : Bool
  barMode : Option String

def plain (traceType : String) : Style := ⟨traceType, none, none, false, none⟩

def style : ChartKind → Style
  | .horizontalBar => { plain "bar" with horizontal := true, barMode := some "group" }
  | .stackedBar => { plain "bar" with barMode := some "stack" }
  | .line => { plain "scatter" with mode := some "lines" }
  | .lineMarkers => { plain "scatter" with mode := some "lines+markers" }
  | .area => { plain "scatter" with mode := some "lines", fill := some "tozeroy" }
  | .scatter => { plain "scatter" with mode := some "markers" }
  | .waterfall => plain "waterfall"
  | _ => { plain "bar" with barMode := some "group" }

/-- A row as a point: the cell on the category axis and the number on the other. -/
structure Point (α : Type) where
  category : Cell α
  value : Option α

structure Trace (α : Type) where
  name : String
  points : List (Point α)

section Traces

variable {α : Type} [Quantity α]

/-- The point of a row, given the positions of the two columns. -/
def point (x y : Nat) (row : Row α) : Point α := ⟨cellAt row x, (cellAt row y).asNumber⟩

/-- The rows of a table by their labels in one column. -/
def split (t : Table α) (position : Nat) : List (Group String (Row α)) :=
  Group.byKey (fun row => (cellAt row position).label) t.rows

/-- The traces of one `y` column. With other `y` columns beside it, the name of a coloured trace
names the column too. -/
def tracesOf (t : Table α) (x : Nat) (color : Option Nat) (several : Bool) (name : String)
    (y : Nat) : List (Trace α) :=
  match color with
  | none => [⟨name, t.rows.map (point x y)⟩]
  | some c =>
    (split t c).map fun g =>
      ⟨if several then s!"{name} - {g.key}" else g.key, g.members.map (point x y)⟩

/-- The traces of all `y` columns in order. -/
def traces (t : Table α) (x : Nat) (ys : List (String × Nat)) (color : Option Nat) :
    List (Trace α) :=
  ys.flatMap fun (name, y) => tracesOf t x color (decide (1 < ys.length)) name y

end Traces

variable {α : Type} [WireQuantity α]

/-- A trace as the document holds it. A horizontal chart has its categories upright. -/
def Trace.render (s : Style) (trace : Trace α) : Json :=
  let categories := Json.arr (trace.points.map fun p => p.category.toJson)
  let values := Json.arr (trace.points.map fun p => WireQuantity.optionToJson p.value)
  let axes :=
    if s.horizontal then [("orientation", .str "h"), ("x", values), ("y", categories)]
    else [("x", categories), ("y", values)]
  let measures :=
    if s.traceType = "waterfall" then
      [("measure", Json.arr (trace.points.map fun _ => .str "relative"))]
    else []
  .record
    ([("type", .str s.traceType), ("name", .str trace.name)] ++ measures ++ axes ++
      (s.mode.map fun m => ("mode", Json.str m)).toList ++
      (s.fill.map fun f => ("fill", Json.str f)).toList)

def layout (s : Style) (x : String) (ys : List String) (colored : Bool) : Dictionary Json :=
  let values := ", ".intercalate ys
  let (across, up) := if s.horizontal then (values, x) else (x, values)
  Dictionary.ofList
    ([("xaxis", axisTitle across), ("yaxis", axisTitle up)] ++
      (s.barMode.map fun m => ("barmode", Json.str m)).toList ++
      (if colored then [("showlegend", .bool true)] else []))

def build (kind : ChartKind) (t : Table α) (options : Options) : Charted Drawing := do
  let x ← Options.column options t "x"
  let ys ← Options.columns options t "y"
  let color ← Options.optionalColumn options t "color"
  let s := style kind
  let found :=
    traces t (t.positionOf x) (ys.map fun y => (y, t.positionOf y)) (color.map t.positionOf)
  pure ⟨found.map (Trace.render s), layout s x ys color.isSome⟩

end TableSteps.Cartesian
