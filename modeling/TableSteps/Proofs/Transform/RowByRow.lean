import TableSteps.Proofs.Outcome
import TableSteps.Table.WellFormed
import TableSteps.Transform.Check
import TableSteps.Transform.Run

/-! # Transforms work row by row

An operation computes its column whole, but no cell of the column depends on more than its own row
and on where the columns stand. So a transform is a rewriting of single rows: over other rows with
the same columns it fails with the same error, or gives those rows rewritten. -/

namespace TableSteps.Transform

variable {α : Type} [Quantity α]

/-! ## One row -/

/-- The number of an operand in one row. -/
def operandValue? (columns : List String) (row : Row α) (o : Operand α) : Option α :=
  (bind? columns o).bind (Bound.value? row)

/-- The cell that a calculation gives one row. -/
def cellFor (columns : List String) (row : Row α) : Calculation α → Cell α
  | .constant value => value
  | .copy name => cellAt row (columns.idxOf name)
  | .formula left op right =>
    .ofOption (op.evalOption (operandValue? columns row left) (operandValue? columns row right))
  | .mapping name targets => lookUp targets (cellAt row (columns.idxOf name))

omit [Quantity α] in
/-- Writes a cell of one row: in its place if the column is there, else at the end. -/
def putCell (columns : List String) (name : String) (row : Row α) (value : Cell α) : Row α :=
  match columns.idxOf? name with
  | some p => row.set p value
  | none => row ++ [value]

/-- What one operation makes of one row. -/
def rewriteOnce (columns : List String) (o : Operation α) (row : Row α) : Row α :=
  putCell columns o.target row (cellFor columns row o.calculation)

/-- What a list of operations makes of one row. -/
def rewrite : List String → List (Operation α) → Row α → Row α
  | _, [], row => row
  | columns, o :: rest, row =>
    rewrite (columnsAfter columns o.target) rest (rewriteOnce columns o row)

/-! ## Over other rows -/

variable {t : Table α}

omit [Quantity α] in
theorem source_withRows (rows : List (Row α)) {place : Place} {name : String} :
    source (t.withRows rows) place name =
      (source t place name).map fun _ => rows.map (cellAt · (t.columns.idxOf name)) := by
  unfold source Table.columnValues? Table.columnIndex?
  cases hp : t.columns.idxOf? name with
  | none => simp [Table.withRows, hp, refuse]
  | some p => simp [Table.withRows, hp, Table.cellsAt, idxOf_of_idxOf? hp]

theorem operand_eq_ok_iff {place : Place} {o : Operand α} {b : Bound α} :
    operand t place o = .ok b ↔ bind? t.columns o = some b := by
  unfold operand
  cases bind? t.columns o <;> simp [refuse]

theorem column_withRows (rows : List (Row α)) {i : Nat} {c : Calculation α} :
    column (t.withRows rows) i c =
      (column t i c).map fun _ => rows.map (cellFor t.columns · c) := by
  cases c with
  | constant value =>
    exact congrArg Except.ok (List.map_const' (l := rows) (b := value)).symm
  | copy name => exact source_withRows rows
  | mapping name targets =>
    simp only [column, source_withRows]
    cases source t (partPlace i "source") name with
    | error e => rfl
    | ok cells => simp [cellFor, Function.comp_def]
  | formula left op right =>
    have hoperand (place : Place) (o : Operand α) :
        operand (t.withRows rows) place o = operand t place o := rfl
    simp only [column, hoperand]
    cases hx : operand t (partPlace i "left") left with
    | error e => rfl
    | ok x =>
      cases hy : operand t (partPlace i "right") right with
      | error e => rfl
      | ok y =>
        simp [cellFor, operandValue?, operand_eq_ok_iff.mp hx, operand_eq_ok_iff.mp hy,
          Table.withRows]

omit [Quantity α] in
/-- A column with one cell for every row is written row by row. -/
theorem setColumn_map (rows : List (Row α)) {name : String} {value : Row α → Cell α} :
    (t.withRows rows).setColumn name (rows.map value) =
      .ok ⟨columnsAfter t.columns name,
        rows.map fun row => putCell t.columns name row (value row)⟩ := by
  unfold Table.setColumn Table.columnIndex?
  rw [if_pos (by simp [Table.withRows, Table.rowCount])]
  cases hp : t.columns.idxOf? name with
  | none =>
    simp [Table.withRows, hp, putCell, columnsAfter, List.idxOf?_eq_none_iff.mp hp,
      List.zipWith_map_right]
  | some p =>
    simp [Table.withRows, hp, putCell, columnsAfter, mem_of_idxOf? hp, List.zipWith_map_right]

theorem step_withRows (rows : List (Row α)) {i : Nat} {o : Operation α} :
    step (t.withRows rows) i o =
      (column t i o.calculation).map fun _ =>
        ⟨columnsAfter t.columns o.target, rows.map (rewriteOnce t.columns o)⟩ := by
  unfold step
  rw [column_withRows]
  cases column t i o.calculation with
  | error e => rfl
  | ok values =>
    simp only [ok_map, ok_bind, setColumn_map]
    rfl

theorem steps_withRows {operations : List (Operation α)} :
    ∀ {i : Nat} {t : Table α} (rows : List (Row α)),
      steps i operations (t.withRows rows) =
        (steps i operations t).map fun u => u.withRows (rows.map (rewrite t.columns operations)) := by
  induction operations with
  | nil =>
    intro i t rows
    simp [steps, rewrite]
  | cons o rest ih =>
    intro i t rows
    have hstep : step t i o = _ := step_withRows t.rows
    simp only [steps, step_withRows, hstep]
    cases column t i o.calculation with
    | error e => rfl
    | ok values =>
      simp only [ok_map, ok_bind]
      have h := ih (i := i + 1)
        (t := ⟨columnsAfter t.columns o.target, t.rows.map (rewriteOnce t.columns o)⟩)
        (rows.map (rewriteOnce t.columns o))
      refine h.trans ?_
      simp only [List.map_map]
      rfl

/-- Over other rows a transform fails as it does over the rows of the table, or rewrites them. -/
theorem run_withRows (rows : List (Row α)) {config : Transform α} :
    config.run (t.withRows rows) =
      (config.run t).map fun u => u.withRows (rows.map (rewrite t.columns config.operations)) :=
  steps_withRows rows

theorem rows_of_run {config : Transform α} {u : Table α} (h : config.run t = .ok u) :
    u.rows = t.rows.map (rewrite t.columns config.operations) := by
  have hrows : config.run t = _ := run_withRows t.rows
  rw [h] at hrows
  exact congrArg Table.rows (Except.ok.inj hrows)

/-- To transform a choice of rows is to choose from the transformed rows. -/
theorem run_selectRows {config : Transform α} (positions : List Nat) :
    config.run (t.selectRows positions) = (config.run t).map (·.selectRows positions) := by
  refine (run_withRows _).trans ?_
  cases h : config.run t with
  | error e => rfl
  | ok u =>
    simp only [ok_map, Table.selectRows, Table.withRows, rows_of_run h, List.getElem?_map,
      List.map_filterMap]

/-! ## Columns that are not written -/

/-- The names under which a transform writes. -/
def targets (config : Transform α) : List String := config.operations.map Operation.target

/-- The columns once all operations have written their targets. -/
def columnsAfterAll : List String → List (Operation α) → List String
  | columns, [] => columns
  | columns, o :: rest => columnsAfterAll (columnsAfter columns o.target) rest

omit [Quantity α] in
theorem idxOf?_columnsAfter {columns : List String} {name target : String} (h : name ≠ target) :
    (columnsAfter columns target).idxOf? name = columns.idxOf? name := by
  unfold columnsAfter
  split
  · rfl
  · have hne : (target == name) = false := beq_eq_false_iff_ne.mpr h.symm
    simp [List.idxOf?, List.findIdx?_append, hne]

theorem length_rewriteOnce {columns : List String} {o : Operation α} {row : Row α}
    (h : row.length = columns.length) :
    (rewriteOnce columns o row).length = (columnsAfter columns o.target).length := by
  unfold rewriteOnce putCell columnsAfter
  cases hp : columns.idxOf? o.target with
  | none => simp [List.idxOf?_eq_none_iff.mp hp, h]
  | some p => simp [mem_of_idxOf? hp, h]

omit [Quantity α] in
/-- The cell of every other column stays. -/
theorem cellAt_putCell_of_ne {columns : List String} {row : Row α} {name target : String}
    {value : Cell α} {p : Nat} (hrow : row.length = columns.length)
    (hp : columns.idxOf? name = some p) (hname : name ≠ target) :
    cellAt (putCell columns target row value) p = cellAt row p := by
  obtain ⟨hlt, hget, -⟩ := List.idxOf?_eq_some_iff.mp hp
  unfold putCell cellAt
  cases hq : columns.idxOf? target with
  | none => simp [List.getD_eq_getElem?_getD, List.getElem?_append_left (hrow ▸ hlt)]
  | some q =>
    obtain ⟨hlt', hget', -⟩ := List.idxOf?_eq_some_iff.mp hq
    have hne : q ≠ p := by
      rintro rfl
      exact hname (hget.symm.trans hget')
    simp [List.getD_eq_getElem?_getD, List.getElem?_set_ne hne]

theorem cellAt_rewriteOnce {columns : List String} {o : Operation α} {row : Row α} {name : String}
    {p : Nat} (hrow : row.length = columns.length) (hp : columns.idxOf? name = some p)
    (hname : name ≠ o.target) : cellAt (rewriteOnce columns o row) p = cellAt row p :=
  cellAt_putCell_of_ne hrow hp hname

theorem cellAt_rewrite {operations : List (Operation α)} :
    ∀ {columns : List String} {row : Row α} {name : String} {p : Nat},
      row.length = columns.length → columns.idxOf? name = some p →
      name ∉ operations.map Operation.target →
      cellAt (rewrite columns operations row) p = cellAt row p := by
  induction operations with
  | nil => exact fun _ _ _ => rfl
  | cons o rest ih =>
    intro columns row name p hrow hp hname
    obtain ⟨hfirst, hrest⟩ := not_or.mp (mt List.mem_cons.mpr hname)
    have hafter := (idxOf?_columnsAfter hfirst).trans hp
    exact (ih (length_rewriteOnce hrow) hafter hrest).trans (cellAt_rewriteOnce hrow hp hfirst)

theorem columns_of_steps {operations : List (Operation α)} :
    ∀ {i : Nat} {t u : Table α}, steps i operations t = .ok u →
      u.columns = columnsAfterAll t.columns operations := by
  induction operations with
  | nil =>
    intro i t u h
    cases h
    rfl
  | cons o rest ih =>
    intro i t u h
    obtain ⟨v, hv, h⟩ := bind_eq_ok_iff.mp h
    have hstep : step t i o = _ := step_withRows t.rows
    obtain ⟨-, -, rfl⟩ := map_eq_ok_iff.mp (hstep.symm.trans hv)
    exact ih h

omit [Quantity α] in
theorem idxOf?_columnsAfterAll {operations : List (Operation α)} :
    ∀ {columns : List String} {name : String}, name ∉ operations.map Operation.target →
      (columnsAfterAll columns operations).idxOf? name = columns.idxOf? name := by
  induction operations with
  | nil => exact fun _ => rfl
  | cons o rest ih =>
    intro columns name hname
    obtain ⟨hfirst, hrest⟩ := not_or.mp (mt List.mem_cons.mpr hname)
    exact (ih hrest).trans (idxOf?_columnsAfter hfirst)

/-- A column that no operation writes stays where it is. -/
theorem columnIndex?_of_run {config : Transform α} {u : Table α} {name : String}
    (h : config.run t = .ok u) (hname : name ∉ config.targets) :
    u.columnIndex? name = t.columnIndex? name := by
  rw [Table.columnIndex?, columns_of_steps h]
  exact idxOf?_columnsAfterAll hname

/-- A column that no operation writes keeps its cells. -/
theorem cellAt_of_run {config : Transform α} (ht : t.WellFormed) {row : Row α} (hrow : row ∈ t.rows)
    {name : String} {p : Nat} (hp : t.columnIndex? name = some p) (hname : name ∉ config.targets) :
    cellAt (rewrite t.columns config.operations row) p = cellAt row p :=
  cellAt_rewrite (ht.width row hrow) hp hname

end TableSteps.Transform
