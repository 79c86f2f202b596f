import TableSteps.Proofs.Step.Lookup
import TableSteps.Transform.Check
import TableSteps.Transform.Run

/-! # A checked transform runs

The check walks the operations with a list of column names, the run with a table. The list is that
of the table's columns before every operation, so what an operation reads is there when it runs,
and the column it computes has one cell for every row. -/

namespace TableSteps.Transform

variable {α : Type} [Quantity α] {t : Table α}

omit [Quantity α] in
theorem source_of_check {place : Place} {name : String}
    (h : checkSource t.columns place name = .ok ()) :
    ∃ cells, source t place name = .ok cells ∧ cells.length = t.rowCount := by
  obtain ⟨hname, -⟩ := ite_refuse_eq_ok_iff.mp h
  have hmem : name ∈ t.columns := by simpa using hname
  obtain ⟨p, hp⟩ := Table.exists_columnIndex? hmem
  exact ⟨t.cellsAt p, by simp [source, Table.columnValues?, hp],
    by simp [Table.cellsAt, Table.rowCount]⟩

/-- An operand that passed is a literal, a column, or the text of a number. -/
theorem operand_of_check {place : Place} {o : Operand α}
    (h : checkOperand t.columns place o = .ok ()) : ∃ b, operand t place o = .ok b := by
  cases o with
  | literal x => exact ⟨.literal x, rfl⟩
  | named name =>
    obtain ⟨hname, -⟩ := ite_refuse_eq_ok_iff.mp h
    cases hp : t.columns.idxOf? name with
    | some p => exact ⟨.column p, by simp [operand, bind?, hp]⟩
    | none =>
      have hnot : name ∉ t.columns := List.idxOf?_eq_none_iff.mp hp
      obtain ⟨x, hx⟩ : ∃ x, Cell.numberInText? (α := α) name = some x := by
        simpa [hnot, Option.isSome_iff_exists] using hname
      exact ⟨.literal x, by simp [operand, bind?, hp, hx]⟩

theorem column_of_check {i : Nat} {c : Calculation α}
    (h : checkCalculation t.columns i c = .ok ()) :
    ∃ values, column t i c = .ok values ∧ values.length = t.rowCount := by
  cases c with
  | constant value => exact ⟨_, rfl, List.length_replicate⟩
  | copy name => exact source_of_check h
  | formula left op right =>
    obtain ⟨_, hleft, hright⟩ := bind_eq_ok_iff.mp h
    obtain ⟨x, hx⟩ := operand_of_check hleft
    obtain ⟨y, hy⟩ := operand_of_check hright
    let values := t.rows.map fun row =>
      Cell.ofOption (op.evalOption (x.value? row) (y.value? row))
    have hcolumn : column t i (.formula left op right) = .ok values := by
      simp only [column, hx, hy, ok_bind]
      rfl
    exact ⟨values, hcolumn, by simp [values, Table.rowCount]⟩
  | mapping name targets =>
    obtain ⟨cells, hcells, hlength⟩ := source_of_check h
    refine ⟨cells.map (lookUp targets), ?_, by rw [List.length_map, hlength]⟩
    simp only [column, hcells, ok_bind]
    rfl

omit [Quantity α] in
theorem setColumn_of_length (name : String) {values : List (Cell α)}
    (h : values.length = t.rowCount) : ∃ u, t.setColumn name values = .ok u := by
  unfold Table.setColumn
  rw [if_pos h]
  cases t.columnIndex? name with
  | some p => exact ⟨_, rfl⟩
  | none => exact ⟨_, rfl⟩

/-- An operation that passed runs, and leaves the columns that the check goes on with. -/
theorem step_of_check {i : Nat} {o : Operation α}
    (h : checkCalculation t.columns i o.calculation = .ok ()) :
    ∃ u, step t i o = .ok u ∧ u.columns = columnsAfter t.columns o.target := by
  obtain ⟨values, hvalues, hlength⟩ := column_of_check h
  obtain ⟨u, hu⟩ := setColumn_of_length o.target hlength
  refine ⟨u, ?_, ?_⟩
  · simp only [step, hvalues, hu, ok_bind]
    rfl
  · rw [Table.columns_setColumn hu]
    simp [columnsAfter]

theorem steps_of_check {operations : List (Operation α)} :
    ∀ {i : Nat} {t : Table α}, checkOperations i t.columns operations = .ok () →
      ∃ u, steps i operations t = .ok u := by
  induction operations with
  | nil =>
    intro i t _
    exact ⟨t, rfl⟩
  | cons o rest ih =>
    intro i t h
    rw [checkOperations, bind_eq_ok_iff] at h
    obtain ⟨_, ho, hrest⟩ := h
    obtain ⟨t', hstep, hcolumns⟩ := step_of_check ho
    rw [← hcolumns] at hrest
    obtain ⟨u, hu⟩ := ih hrest
    refine ⟨u, ?_⟩
    simp only [steps, hstep, ok_bind]
    exact hu

theorem run_of_check {config : Transform α} (h : config.check (some t) = .ok ()) :
    ∃ u, config.run t = .ok u := by
  obtain ⟨_, -, hcolumns⟩ := bind_eq_ok_iff.mp h
  exact steps_of_check hcolumns

end TableSteps.Transform
