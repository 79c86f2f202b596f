import TableSteps.Binary64.Quantity
import TableSteps.Proofs.Chart.Columns
import TableSteps.Proofs.Indexing.Cartesian
import TableSteps.Proofs.ListPairs

/-! # A colour column splits traces without loss

A colour column shares out the numbers of the rows among its labels. Each row is in the list of one
label, and each list goes up, so the trace of a label has the points of its rows in the order of the
table. The cells and the numbers of a trace are picked by the same row numbers: what stands side by
side on the two axes comes from one row. -/

namespace TableSteps

open Indexed (numberedSplit split_eq)

/-! ## Shares of the rows -/

section Shares

variable {α : Type} [Quantity α] {t : Table α} {c : String}

/-- The numbers of the rows, shared out by the labels of a column: one share for each label, in the
order in which the labels are first met. -/
structure SplitsRows (t : Table α) (column : String) (shares : List (Group String Nat)) : Prop where
  labels : FirstSeen (t.labels column) (shares.map Group.key)
  increasing : ∀ g ∈ shares, g.members.Pairwise (· < ·)
  mem_iff : ∀ g ∈ shares, ∀ i,
    i ∈ g.members ↔ ∃ cell, t.cell? i column = some cell ∧ cell.label = g.key
  partition : (shares.flatMap Group.members).Perm (List.range t.rowCount)

/-- The row numbers of a group of numbered rows. -/
def rowNumbers (g : Group String (Row α × Nat)) : Group String Nat :=
  ⟨g.key, g.members.map Prod.snd⟩

theorem mem_zipIdx_of_mem_numberedSplit {p : Nat} {g : Group String (Row α × Nat)}
    (hg : g ∈ numberedSplit t p) {r : Row α × Nat} (hr : r ∈ g.members) : r ∈ t.rows.zipIdx := by
  rw [Group.members_byKey hg] at hr
  exact (List.mem_filter.mp hr).1

theorem splitsRows_numberedSplit (hc : c ∈ t.columns) :
    SplitsRows t c ((numberedSplit t (t.positionOf c)).map rowNumbers) where
  labels := by
    have hkeys : ((numberedSplit t (t.positionOf c)).map rowNumbers).map Group.key =
        (t.labels c).eraseDups := by
      have hrows := congrArg (List.map fun row => (cellAt row (t.positionOf c)).label)
        (List.zipIdx_map_fst 0 t.rows)
      rw [List.map_map] at hrows ⊢
      rw [Table.labels_eq_map hc, ← hrows]
      exact Group.keys_byKey _ _
    rw [hkeys]
    exact firstSeen_eraseDups _
  increasing := by
    intro share hshare
    obtain ⟨g, hg, rfl⟩ := List.mem_map.mp hshare
    rw [rowNumbers, Group.members_byKey hg]
    refine List.Pairwise.sublist (List.filter_sublist.map Prod.snd) ?_
    rw [List.zipIdx_map_snd]
    exact List.pairwise_lt_range'
  mem_iff := by
    intro share hshare i
    obtain ⟨g, hg, rfl⟩ := List.mem_map.mp hshare
    simp only [rowNumbers, Group.members_byKey hg, List.mem_map, List.mem_filter,
      decide_eq_true_eq, Table.cell?_eq_some_iff hc, Prod.exists, exists_eq_right,
      List.mem_zipIdx_iff_getElem?]
    constructor
    · rintro ⟨row, hrow, hlabel⟩
      exact ⟨_, ⟨row, hrow, rfl⟩, hlabel⟩
    · rintro ⟨_, ⟨row, hrow, rfl⟩, hlabel⟩
      exact ⟨row, hrow, hlabel⟩
  partition := by
    have hrows := (Group.flatMap_byKey_perm (fun x : Row α × Nat =>
      (cellAt x.1 (t.positionOf c)).label) t.rows.zipIdx).map Prod.snd
    rw [List.zipIdx_map_snd, List.map_flatMap, ← List.range_eq_range'] at hrows
    rw [List.flatMap_map]
    exact hrows

end Shares

namespace Cartesian

variable {α : Type} [WireQuantity α] {t : Table α} {options : Options} {kind : ChartKind}
  {x y : String}

/-! ## Traces -/

/-- The axis with the cells of the `x` column: only a horizontal bar has it upright. -/
def categoryAxis (kind : ChartKind) : String := if kind = .horizontalBar then "y" else "x"

/-- The axis with the numbers of a `y` column. -/
def valueAxis (kind : ChartKind) : String := if kind = .horizontalBar then "x" else "y"

/-- A trace has a point for each of these rows and no others, in this order: the cell in the `x`
column on one axis and the number in the `y` column, or null, on the other. A waterfall has a measure
for each point. -/
structure Plots (kind : ChartKind) (t : Table α) (x y name : String) (rows : List Nat)
    (trace : Json) : Prop where
  name : trace.member? "name" = some (.str name)
  points : ∃ categories values : List Json,
    trace.member? (categoryAxis kind) = some (.arr categories) ∧
    trace.member? (valueAxis kind) = some (.arr values) ∧
    categories.length = values.length ∧
    List.Forall₂ (fun i j => ∃ cell, t.cell? i x = some cell ∧ j = cell.toJson) rows categories ∧
    List.Forall₂ (fun i j => ∃ cell, t.cell? i y = some cell ∧
      j = WireQuantity.optionToJson cell.asNumber) rows values
  measure : trace.member? "measure" =
    if kind = .waterfall then some (.arr (rows.map fun _ => .str "relative")) else none

theorem member?_name_render (s : Style) (trace : Trace α) :
    (trace.render s).member? "name" = some (.str trace.name) := by
  obtain ⟨traceType, mode, fill, horizontal, barMode⟩ := s
  rw [Trace.render, Json.member?_record]
  cases mode <;> cases fill <;> cases horizontal <;> by_cases h : traceType = "waterfall" <;>
    simp [h, List.lookup_cons]

theorem member?_categoryAxis_render (kind : ChartKind) (trace : Trace α) :
    (trace.render (style kind)).member? (categoryAxis kind) =
      some (.arr (trace.points.map fun p => p.category.toJson)) := by
  rw [Trace.render, Json.member?_record]
  cases kind <;> simp [style, plain, categoryAxis, List.lookup_cons]

theorem member?_valueAxis_render (kind : ChartKind) (trace : Trace α) :
    (trace.render (style kind)).member? (valueAxis kind) =
      some (.arr (trace.points.map fun p => WireQuantity.optionToJson p.value)) := by
  rw [Trace.render, Json.member?_record]
  cases kind <;> simp [style, plain, valueAxis, List.lookup_cons]

theorem member?_measure_render (kind : ChartKind) (trace : Trace α) :
    (trace.render (style kind)).member? "measure" =
      if kind = .waterfall then some (.arr (trace.points.map fun _ => .str "relative"))
      else none := by
  rw [Trace.render, Json.member?_record]
  cases kind <;> simp [style, plain, List.lookup_cons]

/-- The trace of some numbered rows plots these rows by their numbers. -/
theorem plots_render (kind : ChartKind) (hx : x ∈ t.columns) (hy : y ∈ t.columns) (name : String)
    {rows : List (Row α × Nat)} (hrows : ∀ r ∈ rows, r ∈ t.rows.zipIdx) :
    Plots kind t x y name (rows.map Prod.snd)
      (Trace.render (style kind)
        ⟨name, (rows.map Prod.fst).map (point (t.positionOf x) (t.positionOf y))⟩) where
  name := member?_name_render _ _
  points := by
    refine ⟨_, _, member?_categoryAxis_render _ _, member?_valueAxis_render _ _, by simp, ?_, ?_⟩
    · rw [List.map_map, List.map_map]
      refine forall₂_map_map fun r hr => ⟨_, Table.cell?_eq_some hx ?_, rfl⟩
      exact List.mem_zipIdx_iff_getElem?.mp (hrows r hr)
    · rw [List.map_map, List.map_map]
      refine forall₂_map_map fun r hr => ⟨_, Table.cell?_eq_some hy ?_, rfl⟩
      exact List.mem_zipIdx_iff_getElem?.mp (hrows r hr)
  measure := by simp [member?_measure_render, Function.comp_def]

/-! ## The chart -/

/-- The traces of a coloured chart are those of the shares of its rows, `y` column by `y` column. -/
theorem traces_some_eq_map (ys : List String) (c : String) :
    traces t (t.positionOf x) (ys.map fun y => (y, t.positionOf y)) (some (t.positionOf c)) =
      (ys.flatMap fun y => (numberedSplit t (t.positionOf c)).map fun g => (y, g)).map fun p =>
        ⟨if 1 < ys.length then s!"{p.1} - {p.2.key}" else p.2.key,
          (p.2.members.map Prod.fst).map (point (t.positionOf x) (t.positionOf p.1))⟩ := by
  simp [traces, tracesOf, split_eq, List.flatMap_map, List.map_flatMap, Function.comp_def]

theorem traces_none_eq_map (ys : List String) :
    traces t (t.positionOf x) (ys.map fun y => (y, t.positionOf y)) none =
      ys.map fun y => ⟨y, (t.rows.zipIdx.map Prod.fst).map
        (point (t.positionOf x) (t.positionOf y))⟩ := by
  rw [List.zipIdx_map_fst, traces, List.flatMap_map]
  exact List.map_eq_flatMap.symm

/-- Without a colour column a chart over columns that are there has one trace over all rows for every
`y` column. With one it has, for every `y` column in order, a trace for each label of the colour
column in the order of their first rows; the rows behind the traces of a `y` column are shared out
among them, each to the trace of its label. -/
theorem build_splits_by_color (kind : ChartKind) {ys : List String} {color : Option String}
    (hx : Options.column options t "x" = .ok x) (hys : Options.columns options t "y" = .ok ys)
    (hcolor : Options.optionalColumn options t "color" = .ok color) :
    ∃ drawing, build kind t options = .ok drawing ∧
      (color = none →
        List.Forall₂ (fun y trace => Plots kind t x y y (List.range t.rowCount) trace)
          ys drawing.data) ∧
      ∀ c, color = some c → ∃ shares, SplitsRows t c shares ∧
        List.Forall₂ (fun p trace =>
            Plots kind t x p.1 (if 1 < ys.length then s!"{p.1} - {p.2.key}" else p.2.key)
              p.2.members trace)
          (ys.flatMap fun y => shares.map fun g => (y, g)) drawing.data := by
  have hx' := Options.column_mem hx
  have hys' := Options.columns_mem hys
  have hbuild : build kind t options = .ok
      ⟨(traces t (t.positionOf x) (ys.map fun y => (y, t.positionOf y))
          (color.map t.positionOf)).map (Trace.render (style kind)),
        layout (style kind) x ys color.isSome⟩ := by
    rw [build, hx, ok_bind, hys, ok_bind, hcolor]
    rfl
  refine ⟨_, hbuild, ?_, ?_⟩
  · rintro rfl
    have hnumbers : List.range t.rowCount = t.rows.zipIdx.map Prod.snd := by
      rw [List.zipIdx_map_snd, List.range_eq_range']
      rfl
    rw [Option.map_none, traces_none_eq_map, List.map_map, hnumbers, List.forall₂_map_right_iff]
    exact List.forall₂_same.mpr fun y hy => plots_render kind hx' (hys' y hy) y fun r hr => hr
  · rintro c rfl
    have hpairs : (ys.flatMap fun y =>
          ((numberedSplit t (t.positionOf c)).map rowNumbers).map fun g => (y, g)) =
        (ys.flatMap fun y => (numberedSplit t (t.positionOf c)).map fun g => (y, g)).map fun p =>
          (p.1, rowNumbers p.2) := by
      simp [List.map_flatMap, Function.comp_def]
    refine ⟨_, splitsRows_numberedSplit (Options.optionalColumn_mem hcolor), ?_⟩
    rw [Option.map_some, traces_some_eq_map, List.map_map, hpairs]
    refine forall₂_map_map fun p hp => ?_
    obtain ⟨y, hy, hp⟩ := List.mem_flatMap.mp hp
    obtain ⟨g, hg, rfl⟩ := List.mem_map.mp hp
    exact plots_render kind hx' (hys' y hy) _ fun r hr => mem_zipIdx_of_mem_numberedSplit hg hr

/-- Revenue and costs by month, first as a waterfall over all rows and then as horizontal bars with a
colour for each region; one cost is no number. -/
theorem build_splits_by_color_regions :
    let t : Table Float :=
      ⟨["month", "region", "revenue", "cost"],
        [[.text "Jan", .text "North", .number 100, .number 60],
          [.text "Jan", .text "South", .number 80, .number 50],
          [.text "Feb", .text "North", .number 120, .text "n/a"]]⟩
    let plain : Options := .ofList [("x", .str "month"), ("y", .str "cost")]
    let colored : Options :=
      .ofList [("x", .str "month"), ("y", .strings ["revenue", "cost"]), ("color", .str "region")]
    (∃ drawing trace, build .waterfall t plain = .ok drawing ∧ drawing.data = [trace] ∧
      Plots .waterfall t "month" "cost" "cost" [0, 1, 2] trace) ∧
    ∃ drawing shares, build .horizontalBar t colored = .ok drawing ∧ SplitsRows t "region" shares ∧
      List.Forall₂ (fun p trace => Plots .horizontalBar t "month" p.1 s!"{p.1} - {p.2.key}"
          p.2.members trace)
        ((shares.map fun g => ("revenue", g)) ++ shares.map fun g => ("cost", g)) drawing.data := by
  intro t plain colored
  obtain ⟨drawing, hdrawing, hwhole, -⟩ := build_splits_by_color .waterfall
    (show Options.column plain t "x" = .ok "month" from rfl)
    (show Options.columns plain t "y" = .ok ["cost"] from rfl)
    (show Options.optionalColumn plain t "color" = .ok none from rfl)
  obtain ⟨split, hsplit, -, hshares⟩ := build_splits_by_color .horizontalBar
    (show Options.column colored t "x" = .ok "month" from rfl)
    (show Options.columns colored t "y" = .ok ["revenue", "cost"] from rfl)
    (show Options.optionalColumn colored t "color" = .ok (some "region") from rfl)
  obtain ⟨trace, rest, htrace, hrest, hdata⟩ := List.forall₂_cons_left_iff.mp (hwhole rfl)
  obtain rfl := List.forall₂_nil_left_iff.mp hrest
  obtain ⟨shares, hsplits, htraces⟩ := hshares "region" rfl
  refine ⟨⟨drawing, trace, hdrawing, hdata, htrace⟩, split, shares, hsplit, hsplits, ?_⟩
  simpa using htraces

end Cartesian
end TableSteps
