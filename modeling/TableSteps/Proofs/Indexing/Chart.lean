import TableSteps.Chart.Build
import TableSteps.Proofs.Indexing.Cartesian
import TableSteps.Proofs.Indexing.Heatmap
import TableSteps.Proofs.Indexing.LabelTree

/-! # Charts read by position

Box plots, histograms and pies read whole columns and nothing else by position. With them every
kind of chart is settled, and so are its check, which builds the chart on trial, and its build. -/

namespace TableSteps

variable {α : Type} [WireQuantity α] {t : Table α}

namespace Guarded

/-! ## Whole columns -/

/-- The cells of a column that may not be named. -/
def cells? (t : Table α) : Option String → Indexed (Option (List (Cell α)))
  | none => .ok none
  | some name => (Indexed.cells t name).map some

def boxTrace (t : Table α) (xs? : Option (List (Cell α))) (y : String) : Indexed Json := do
  let ys ← Indexed.numbers t y
  pure (.record
    ([("type", .str "box"), ("name", .str y), ("y", numbersToJson ys)] ++
      (xs?.map fun xs => ("x", Json.arr (xs.map Cell.toJson))).toList))

def boxPlot (t : Table α) (options : Options) : Guarded ChartFault Drawing := do
  let ys ← settle (Options.columns options t "y")
  let x ← settle (Options.optionalColumn options t "x")
  let xs? ← look (cells? t x)
  let traces ← look (ys.mapM (boxTrace t xs?))
  let across :=
    match x with
    | some x => [("xaxis", axisTitle x), ("boxmode", .str "group")]
    | none => []
  settle (.ok ⟨traces,
    Dictionary.ofList (("yaxis", axisTitle (", ".intercalate ys)) :: across)⟩)

def histogramTrace (t : Table α) (bins : Option Nat) (x : String) : Indexed Json := do
  let xs ← Indexed.numbers t x
  pure (.record
    ([("type", .str "histogram"), ("name", .str x), ("x", numbersToJson xs)] ++
      (bins.map fun n => ("nbinsx", Json.ofNat n)).toList))

def histogram (t : Table α) (options : Options) : Guarded ChartFault Drawing := do
  let xs ← settle (Options.columns options t "x")
  let bins ← settle (Histogram.bins options)
  let traces ← look (xs.mapM (histogramTrace t bins))
  let overlay := if 1 < xs.length then [("barmode", Json.str "overlay")] else []
  settle (.ok ⟨traces,
    Dictionary.ofList
      ([("xaxis", axisTitle (", ".intercalate xs)), ("yaxis", axisTitle "count")] ++ overlay)⟩)

def pie (t : Table α) (options : Options) : Guarded ChartFault Drawing := do
  let names ← settle (Options.column options t "names")
  let values ← settle (Options.column options t "values")
  let labels ← look (Indexed.cells t names)
  let sizes ← look (Indexed.numbers t values)
  let hole ← settle (Pie.hole options)
  let trace := Json.record
    ([ ("type", .str "pie"), ("name", .str values),
       ("labels", .arr (labels.map Cell.toJson)), ("values", numbersToJson sizes) ] ++
      (hole.map fun x => ("hole", Json.ofFloat x)).toList)
  settle (.ok ⟨[trace], .empty⟩)

theorem boxTrace_eq_ok (ht : t.WellFormed) (x : Option String) (y : String) :
    boxTrace t (x.map t.cells) y = .ok (BoxPlot.trace t x y) := by
  rw [boxTrace, Indexed.numbers_eq_ok ht, ok_bind, BoxPlot.trace]
  cases x <;> rfl

theorem boxPlot_eq_settle (ht : t.WellFormed) (options : Options) :
    boxPlot t options = settle (BoxPlot.build t options) := by
  refine settle_bind fun ys _ => settle_bind fun x _ => ?_
  have hxs : cells? t x = .ok (x.map t.cells) := by
    cases x with
    | none => rfl
    | some name =>
      rw [cells?, Indexed.cells_eq_ok ht]
      rfl
  rw [hxs, look_ok, settle_ok_bind, Indexed.mapM_eq_ok fun y _ => boxTrace_eq_ok ht x y]
  rfl

theorem histogram_eq_settle (ht : t.WellFormed) (options : Options) :
    histogram t options = settle (Histogram.build t options) := by
  refine settle_bind fun xs _ => settle_bind fun bins _ => ?_
  have htrace : ∀ x ∈ xs, histogramTrace t bins x = .ok (Histogram.trace t bins x) := by
    intro x _
    rw [histogramTrace, Indexed.numbers_eq_ok ht]
    rfl
  rw [Indexed.mapM_eq_ok htrace]
  rfl

theorem pie_eq_settle (ht : t.WellFormed) (options : Options) :
    pie t options = settle (Pie.build t options) := by
  refine settle_bind fun names _ => settle_bind fun values _ => ?_
  rw [Indexed.cells_eq_ok ht, look_ok, settle_ok_bind, Indexed.numbers_eq_ok ht, look_ok,
    settle_ok_bind]
  exact settle_bind fun hole _ => rfl

/-! ## Building and checking -/

def parts (kind : ChartKind) (t : Table α) (options : Options) : Guarded ChartFault Drawing :=
  match kind.shape with
  | .cartesian => cartesian kind t options
  | .pie => pie t options
  | .heatmap => heatmap t options
  | .box => boxPlot t options
  | .histogram => histogram t options
  | .labelTree => labelTree kind t options

def buildChart (config : ChartSpec) (t : Table α) : Guarded StepError Figure := do
  let kind ← settle config.kind
  let parts ← mapError (config.fault kind) (parts kind t config.options)
  let layout :=
    match Options.title? config.options with
    | some title => parts.layout.insert "title" (titled title)
    | none => parts.layout
  settle (.ok ⟨kind.base.tag, parts.data, .object layout⟩)

def checkChart (config : ChartSpec) (t : Table α) : Guarded StepError Unit := do
  let kind ← settle config.kind
  settle (config.checkOptions kind)
  let _ ← buildChart config t
  settle (.ok ())

theorem parts_eq_settle (ht : t.WellFormed) (kind : ChartKind) (options : Options) :
    parts kind t options = settle (ChartSpec.parts kind t options) := by
  unfold parts ChartSpec.parts
  cases kind.shape with
  | cartesian => exact cartesian_eq_settle ht kind options
  | pie => exact pie_eq_settle ht options
  | heatmap => exact heatmap_eq_settle ht options
  | box => exact boxPlot_eq_settle ht options
  | histogram => exact histogram_eq_settle ht options
  | labelTree => exact labelTree_eq_settle ht kind options

theorem buildChart_eq_settle (ht : t.WellFormed) (config : ChartSpec) :
    buildChart config t = settle (config.build t) := by
  refine settle_bind fun kind _ => ?_
  rw [parts_eq_settle ht, mapError_settle]
  exact settle_bind fun parts _ => rfl

theorem checkChart_eq_settle (ht : t.WellFormed) (config : ChartSpec) :
    checkChart config t = settle (config.check (some t)) := by
  refine settle_bind fun kind _ => settle_bind fun _ _ => ?_
  rw [buildChart_eq_settle ht]
  show _ = settle ((config.build t).map fun _ => ())
  cases config.build t <;> rfl

end Guarded
end TableSteps
