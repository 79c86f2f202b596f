import TableSteps.Json.Basic

/-! # The kinds of chart

Fourteen tags are accepted. Three of them are a bar or a line drawn in another way, so a finished
document has one of eleven kinds. -/

namespace TableSteps

inductive ChartKind where
  | bar
  | line
  | pie
  | scatter
  | heatmap
  | box
  | histogram
  | area
  | waterfall
  | sunburst
  | treemap
  | horizontalBar
  | stackedBar
  | lineMarkers
deriving DecidableEq

/-- The ways of drawing: which options a chart reads and how its traces are laid out. -/
inductive ChartShape where
  | cartesian
  | pie
  | heatmap
  | box
  | histogram
  | labelTree
deriving DecidableEq

namespace ChartKind

def all : List ChartKind :=
  [ .bar, .line, .pie, .scatter, .heatmap, .box, .histogram, .area, .waterfall, .sunburst, .treemap,
    .horizontalBar, .stackedBar, .lineMarkers ]

def tag : ChartKind → String
  | .bar => "bar"
  | .line => "line"
  | .pie => "pie"
  | .scatter => "scatter"
  | .heatmap => "heatmap"
  | .box => "box"
  | .histogram => "histogram"
  | .area => "area"
  | .waterfall => "waterfall"
  | .sunburst => "sunburst"
  | .treemap => "treemap"
  | .horizontalBar => "horizontal_bar"
  | .stackedBar => "stacked_bar"
  | .lineMarkers => "line_markers"

def ofTag? (s : String) : Option ChartKind := all.find? fun k => k.tag == s

def tags : List String := all.map tag

theorem ofTag?_tag (k : ChartKind) : ofTag? k.tag = some k := by cases k <;> rfl

/-- The kind that a finished document names. -/
def base : ChartKind → ChartKind
  | .horizontalBar | .stackedBar => .bar
  | .lineMarkers => .line
  | k => k

theorem base_base (k : ChartKind) : k.base.base = k.base := by cases k <;> rfl

def shape : ChartKind → ChartShape
  | .pie => .pie
  | .heatmap => .heatmap
  | .box => .box
  | .histogram => .histogram
  | .sunburst | .treemap => .labelTree
  | _ => .cartesian

/-- The options without which a chart of this kind is refused before a table is looked at. -/
def requiredOptions (k : ChartKind) : List String :=
  match k.shape with
  | .cartesian => ["x", "y"]
  | .pie => ["names", "values"]
  | .heatmap => ["x", "y", "z"]
  | .box => ["y"]
  | .histogram => ["x"]
  | .labelTree => ["path"]

end ChartKind

/-- Why the options make no chart over a table. -/
inductive ChartFault where
  | missing (option : String)
  | invalid (option reason : String)
  | unknownColumn (option column : String)
deriving DecidableEq

namespace ChartFault

def message : ChartFault → String
  | .missing option => s!"Missing required chart option '{option}'"
  | .invalid option reason => s!"Chart option '{option}' is invalid: {reason}"
  | .unknownColumn option column => s!"Chart option '{option}' names unknown column '{column}'"

/-- The option that the fault is about. -/
def option : ChartFault → String
  | .missing option => option
  | .invalid option _ => option
  | .unknownColumn option _ => option

end ChartFault
end TableSteps
