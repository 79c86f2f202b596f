import Mathlib.Data.List.Basic
import TableSteps.Chart.Heatmap
import TableSteps.Proofs.Indexing.Column

/-! # Heatmaps read and written by position

A row's number is added where the places of its labels meet, and these are found by the number of
the row. There is a place for every row, the places are below the numbers of labels, and the matrix
keeps as many lines and places as there are labels. -/

namespace TableSteps

namespace Indexed

section Matrix

variable {α : Type} [Quantity α] {t : Table α}

open Heatmap (Matrix Reading)

/-- Adds a number where the places of a row meet. -/
def addAt (yPlaces xPlaces : List Nat) (m : Matrix α) (row : Nat) (n : α) : Indexed (Matrix α) := do
  let line ← item yPlaces row
  let place ← item xPlaces row
  let cells ← item m line
  let c ← item cells place
  let cells ← setItem cells place (some (c.getD Quantity.zero + n))
  setItem m line cells

/-- Adds what a row has in the value column, if it is a number. -/
def addValue (yPlaces xPlaces : List Nat) (m : Matrix α) (x : Option α × Nat) :
    Indexed (Matrix α) :=
  match x.1 with
  | none => .ok m
  | some n => addAt yPlaces xPlaces m x.2 n

/-- The labels of both axes and the matrix over them. -/
def pivot (t : Table α) (x y z : String) : Indexed (List String × List String × Matrix α) := do
  let xLabels ← labels t x
  let yLabels ← labels t y
  let values ← numbers t z
  let (xs, xPlaces) := assign xLabels
  let (ys, yPlaces) := assign yLabels
  let m ← values.zipIdx.foldlM (addValue yPlaces xPlaces)
    (Heatmap.blank ys.keys.length xs.keys.length)
  pure (xs.keys, ys.keys, m)

/-- A matrix with so many lines of so many places each. -/
structure HasShape (lines places : Nat) (m : Matrix α) : Prop where
  length : m.length = lines
  width : ∀ cells ∈ m, cells.length = places

variable {lines places : Nat} {m : Matrix α}

omit [Quantity α] in
theorem hasShape_blank (lines places : Nat) :
    HasShape lines places (Heatmap.blank lines places : Matrix α) where
  length := List.length_replicate
  width cells h := by simp [List.eq_of_mem_replicate h]

theorem HasShape.addAt (h : HasShape lines places m) (line place : Nat) (n : α) :
    HasShape lines places (Heatmap.addAt m line place n) where
  length := by rw [Heatmap.length_addAt, h.length]
  width cells hcells := by
    obtain ⟨i, hi, rfl⟩ := List.getElem_of_mem hcells
    simp only [Heatmap.addAt, List.getElem_modify]
    split
    · rw [List.length_modify]
      exact h.width _ (List.getElem_mem _)
    · exact h.width _ (List.getElem_mem _)

/-- Where the line and the place are there, the number is added there. -/
theorem addAt_eq_ok (h : HasShape lines places m) {yPlaces xPlaces : List Nat}
    {row line place : Nat} (hy : item yPlaces row = .ok line) (hx : item xPlaces row = .ok place)
    (hline : line < lines) (hplace : place < places) (n : α) :
    addAt yPlaces xPlaces m row n = .ok (Heatmap.addAt m line place n) := by
  have hm : line < m.length := h.length ▸ hline
  have hcells : place < m[line].length := (h.width _ (List.getElem_mem hm)).symm ▸ hplace
  rw [Heatmap.addAt, List.modify_eq_set_get _ hm, List.get_eq_getElem,
    List.modify_eq_set_get _ hcells, List.get_eq_getElem]
  simp only [addAt, hy, hx, ok_bind, item_of_lt hm, item_of_lt hcells, setItem_of_lt hcells,
    setItem_of_lt hm]

variable {x y z : String}

/-- The number of a row leads to the places of its labels. -/
theorem item_place {name : String} (h : name ∈ t.columns) {r : Row α × Nat}
    (hr : r ∈ t.rows.zipIdx) :
    item ((t.labels name).map fun label => (t.categories name).idxOf label) r.2 =
      .ok ((t.categories name).idxOf (cellAt r.1 (t.positionOf name)).label) := by
  rw [Table.labels_eq_map h, List.map_map]
  exact item_map_of_mem_zipIdx _ hr

theorem idxOf_label_lt {name : String} (h : name ∈ t.columns) {row : Row α} (hrow : row ∈ t.rows) :
    (t.categories name).idxOf (cellAt row (t.positionOf name)).label <
      (t.categories name).length := by
  refine List.idxOf_lt_length_of_mem (List.mem_eraseDups.mpr ?_)
  rw [Table.labels_eq_map h]
  exact List.mem_map_of_mem hrow

/-- One row as the matrix sees it. -/
def readingOf (t : Table α) (x y z : String) (row : Row α) : Reading α :=
  ⟨(cellAt row (t.positionOf x)).label, (cellAt row (t.positionOf y)).label,
    (cellAt row (t.positionOf z)).asNumber⟩

/-- Every row adds its reading, and leaves the matrix in shape. -/
theorem addValue_eq_ok (hx : x ∈ t.columns) (hy : y ∈ t.columns) (z : String)
    (h : HasShape (t.categories y).length (t.categories x).length m) {r : Row α × Nat}
    (hr : r ∈ t.rows.zipIdx) :
    let next := Heatmap.addReading (t.categories x) (t.categories y) m (readingOf t x y z r.1)
    addValue ((t.labels y).map fun label => (t.categories y).idxOf label)
        ((t.labels x).map fun label => (t.categories x).idxOf label) m
        ((readingOf t x y z r.1).value, r.2) = .ok next ∧
      HasShape (t.categories y).length (t.categories x).length next := by
  intro next
  have hrow : r.1 ∈ t.rows := List.fst_mem_of_mem_zipIdx hr
  cases hn : (readingOf t x y z r.1).value with
  | none =>
    simp only [next, Heatmap.addReading, addValue, hn]
    exact ⟨trivial, h⟩
  | some n =>
    simp only [next, Heatmap.addReading, addValue, hn]
    exact ⟨addAt_eq_ok h (item_place hy hr) (item_place hx hr) (idxOf_label_lt hy hrow)
      (idxOf_label_lt hx hrow) n, h.addAt _ _ n⟩

theorem matrix_eq_foldl (t : Table α) (x y z : String) :
    Heatmap.matrix t x y z = t.rows.zipIdx.foldl (fun m r =>
      Heatmap.addReading (t.categories x) (t.categories y) m (readingOf t x y z r.1))
      (Heatmap.blank (t.categories y).length (t.categories x).length) := by
  have hreadings : Heatmap.readings t (t.positionOf x) (t.positionOf y) (t.positionOf z) =
      (t.rows.zipIdx.map Prod.fst).map (readingOf t x y z) := by
    rw [List.zipIdx_map_fst]
    rfl
  rw [Heatmap.matrix, Heatmap.pivot, hreadings, List.foldl_map, List.foldl_map]

theorem assign_labels (t : Table α) (name : String) :
    (assign (t.labels name)).1.keys = t.categories name ∧
      (assign (t.labels name)).2 =
        (t.labels name).map fun label => (t.categories name).idxOf label :=
  assign_eq (t.labels name)

theorem pivot_eq_ok (ht : t.WellFormed) (hx : x ∈ t.columns) (hy : y ∈ t.columns)
    (hz : z ∈ t.columns) :
    pivot t x y z = .ok (t.categories x, t.categories y, Heatmap.matrix t x y z) := by
  obtain ⟨hxs, hxPlaces⟩ := assign_labels t x
  obtain ⟨hys, hyPlaces⟩ := assign_labels t y
  have hvalues : t.numbers z = t.rows.map fun row => (readingOf t x y z row).value :=
    Table.numbers_eq_map hz
  obtain ⟨hfold, -⟩ := foldlM_eq_ok (HasShape (t.categories y).length (t.categories x).length)
    (fun m r hr hm => addValue_eq_ok hx hy z hm hr) (hasShape_blank _ _)
  rw [pivot, labels_eq_ok ht, ok_bind, labels_eq_ok ht, ok_bind, numbers_eq_ok ht, ok_bind,
    matrix_eq_foldl]
  simp only [hxs, hys, hxPlaces, hyPlaces, hvalues, List.zipIdx_map, List.foldlM_map, Prod.map,
    id_eq, hfold]
  rfl

end Matrix

end Indexed

/-! ## The chart -/

variable {α : Type} [WireQuantity α] {t : Table α}

namespace Guarded

def heatmap (t : Table α) (options : Options) : Guarded ChartFault Drawing := do
  let x ← settle (Options.column options t "x")
  let y ← settle (Options.column options t "y")
  let z ← settle (Options.column options t "z")
  let (xs, ys, matrix) ← look (Indexed.pivot t x y z)
  let trace := Json.record
    [ ("type", .str "heatmap"), ("name", .str z), ("x", .strings xs), ("y", .strings ys),
      ("z", .arr (matrix.map numbersToJson)) ]
  settle (.ok ⟨[trace], Dictionary.ofList [("xaxis", axisTitle x), ("yaxis", axisTitle y)]⟩)

theorem heatmap_eq_settle (ht : t.WellFormed) (options : Options) :
    heatmap t options = settle (Heatmap.build t options) := by
  refine settle_bind fun x hx => settle_bind fun y hy => settle_bind fun z hz => ?_
  rw [Indexed.pivot_eq_ok ht (Options.column_mem hx) (Options.column_mem hy)
    (Options.column_mem hz)]
  rfl

end Guarded
end TableSteps
