import TableSteps.Chart.Spec
import TableSteps.Chart.Cartesian
import TableSteps.Chart.Heatmap
import TableSteps.Chart.BoxPlot
import TableSteps.Chart.Histogram
import TableSteps.Chart.LabelTree
import TableSteps.Chart.Pie
import TableSteps.Step.Error

/-! # Building and checking charts

A chart is checked with a table by building it on trial, so a checked chart can be built. Without a
table, only the tag and the presence of the required options are looked at. -/

namespace TableSteps.ChartSpec

variable {α : Type} [WireQuantity α]

/-- The kind that the config's tag names. -/
def kind (config : ChartSpec) : Checked ChartKind :=
  match ChartKind.ofTag? config.graphType with
  | some kind => .ok kind
  | none => refuse (.member (.root "chart") "graph_type") (.unsupportedChart config.graphType)

/-- A fault of an option, placed at the option. -/
def fault (config : ChartSpec) (kind : ChartKind) (f : ChartFault) : StepError :=
  .placed (.member (.root "chart") f.option) (.chartFault kind f config.options)

/-- The traces and the layout of a chart of some kind. -/
def parts (kind : ChartKind) (t : Table α) (options : Dictionary Json) : Charted Drawing :=
  match kind.shape with
  | .cartesian => Cartesian.build kind t options
  | .pie => Pie.build t options
  | .heatmap => Heatmap.build t options
  | .box => BoxPlot.build t options
  | .histogram => Histogram.build t options
  | .labelTree => LabelTree.build kind t options

/-- The document of a chart over a table. -/
def build (config : ChartSpec) (t : Table α) : Checked Figure := do
  let kind ← config.kind
  let parts ← (parts kind t config.options).mapError (config.fault kind)
  let layout :=
    match Options.title? config.options with
    | some title => parts.layout.insert "title" (titled title)
    | none => parts.layout
  pure ⟨kind.base.tag, parts.data, .object layout⟩

/-- Every option that the kind requires is set. -/
def checkOptions (config : ChartSpec) (kind : ChartKind) : Checked Unit :=
  match kind.requiredOptions.find? fun key => (Options.value? config.options key).isNone with
  | some key => .error (config.fault kind (.missing key))
  | none => .ok ()

/-- Checks the tag and the required options; with a table at hand the chart is built on trial. -/
def check (config : ChartSpec) (t? : Option (Table α)) : Checked Unit := do
  let kind ← config.kind
  config.checkOptions kind
  match t? with
  | some t => (config.build t).map fun _ => ()
  | none => pure ()

end TableSteps.ChartSpec
