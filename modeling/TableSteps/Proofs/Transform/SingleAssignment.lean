import TableSteps.Proofs.Transform.Adequacy
import TableSteps.Proofs.Transform.RowByRow

/-! # Formulas that write new columns

Operations that each write a column of their own, none of which was there before, overwrite nothing.
What an operation has read then stands unchanged in the finished row, and what it has written is
still the value of its formula there: the finished row solves all formulas at once. -/

namespace TableSteps.Transform

variable {α : Type}

/-- Every operation writes a column of its own, and none of these. -/
structure Fresh (columns : List String) (operations : List (Operation α)) : Prop where
  nodup : (operations.map Operation.target).Nodup
  new : ∀ target ∈ operations.map Operation.target, target ∉ columns

/-- A literal, or the name of one of these columns. -/
def Present (columns : List String) : Operand α → Prop
  | .literal _ => True
  | .named name => name ∈ columns

/-- Every operation is a formula over columns that are there when it runs. -/
def ReadsPresent : List String → List (Operation α) → Prop
  | _, [] => True
  | columns, o :: rest =>
    (∃ x op y, o.calculation = .formula x op y ∧ Present columns x ∧ Present columns y) ∧
      ReadsPresent (columnsAfter columns o.target) rest

/-! ## Columns -/

variable {columns columns' : List String} {operations : List (Operation α)}

theorem columnsAfter_of_notMem {target : String} (h : target ∉ columns) :
    columnsAfter columns target = columns ++ [target] := by
  simp [columnsAfter, h]

theorem mem_columnsAfter_iff {name target : String} :
    name ∈ columnsAfter columns target ↔ name ∈ columns ∨ name = target := by
  unfold columnsAfter
  split
  · rename_i h
    have htarget : target ∈ columns := by simpa using h
    exact ⟨.inl, fun h => h.elim id fun h => h ▸ htarget⟩
  · rw [List.mem_append, List.mem_singleton]

theorem mem_columnsAfterAll_iff {name : String} :
    name ∈ columnsAfterAll columns operations ↔
      name ∈ columns ∨ name ∈ operations.map Operation.target := by
  induction operations generalizing columns with
  | nil => simp [columnsAfterAll]
  | cons o rest ih =>
    rw [columnsAfterAll, ih, mem_columnsAfter_iff, List.map_cons, List.mem_cons, or_assoc]

theorem Fresh.cons {o : Operation α} (h : Fresh columns (o :: operations)) :
    o.target ∉ columns ∧ o.target ∉ operations.map Operation.target ∧
      Fresh (columnsAfter columns o.target) operations := by
  obtain ⟨hnotin, hnodup⟩ := List.nodup_cons.mp h.nodup
  obtain ⟨hnew, hrest⟩ := List.forall_mem_cons.mp h.new
  refine ⟨hnew, hnotin, hnodup, fun target htarget hmem => ?_⟩
  rcases mem_columnsAfter_iff.mp hmem with hmem | rfl
  · exact hrest target htarget hmem
  · exact hnotin htarget

theorem columnsAfterAll_of_fresh (h : Fresh columns operations) :
    columnsAfterAll columns operations = columns ++ operations.map Operation.target := by
  induction operations generalizing columns with
  | nil => simp [columnsAfterAll]
  | cons o rest ih =>
    obtain ⟨hnew, -, hrest⟩ := h.cons
    rw [columnsAfterAll, ih hrest, columnsAfter_of_notMem hnew, List.append_assoc, List.map_cons]
    rfl

theorem Fresh.append {others : List (Operation α)} (h : Fresh columns operations)
    (hothers : Fresh (columnsAfterAll columns operations) others) :
    Fresh columns (operations ++ others) := by
  constructor
  · rw [List.map_append]
    refine List.nodup_append.mpr ⟨h.nodup, hothers.nodup, ?_⟩
    rintro a ha b hb rfl
    exact hothers.new a hb (mem_columnsAfterAll_iff.mpr (.inr ha))
  · intro target htarget hmem
    rw [List.map_append] at htarget
    rcases List.mem_append.mp htarget with htarget | htarget
    · exact h.new target htarget hmem
    · exact hothers.new target htarget (mem_columnsAfterAll_iff.mpr (.inl hmem))

/-! ## Operands that are there -/

theorem Present.mono (h : ∀ name ∈ columns, name ∈ columns') {x : Operand α}
    (hx : Present columns x) : Present columns' x := by
  cases x with
  | literal x => trivial
  | named name => exact h name hx

theorem ReadsPresent.mono (h : ∀ name ∈ columns, name ∈ columns')
    (hreads : ReadsPresent columns operations) : ReadsPresent columns' operations := by
  induction operations generalizing columns columns' with
  | nil => trivial
  | cons o rest ih =>
    obtain ⟨⟨x, op, y, hcalculation, hx, hy⟩, hrest⟩ := hreads
    refine ⟨⟨x, op, y, hcalculation, hx.mono h, hy.mono h⟩, ih (fun name hname => ?_) hrest⟩
    rw [mem_columnsAfter_iff] at hname ⊢
    exact hname.imp_left (h name)

theorem ReadsPresent.append {others : List (Operation α)} (h : ReadsPresent columns operations)
    (hothers : ReadsPresent (columnsAfterAll columns operations) others) :
    ReadsPresent columns (operations ++ others) := by
  induction operations generalizing columns with
  | nil => exact hothers
  | cons o rest ih => exact ⟨h.1, ih h.2 hothers⟩

variable [Quantity α]

theorem checkOperations_of_readsPresent (h : ReadsPresent columns operations) {i : Nat} :
    checkOperations i columns operations = .ok () := by
  have hoperand {columns : List String} {x : Operand α} (hx : Present columns x) (place : Place) :
      checkOperand columns place x = .ok () := by
    cases x with
    | literal x => rfl
    | named name =>
      have hname : name ∈ columns := hx
      simp [checkOperand, hname]
  induction operations generalizing columns i with
  | nil => rfl
  | cons o rest ih =>
    obtain ⟨⟨x, op, y, hcalculation, hx, hy⟩, hrest⟩ := h
    rw [checkOperations, hcalculation, checkCalculation, hoperand hx, hoperand hy]
    exact ih hrest

/-! ## The finished row -/

variable {row : Row α}

theorem operandValue?_named {name : String} (h : name ∈ columns) :
    operandValue? columns row (.named name) = (cellAt row (columns.idxOf name)).asNumber := by
  obtain ⟨p, hp⟩ := Option.isSome_iff_exists.mp (List.isSome_idxOf?.mpr h)
  simp only [operandValue?, bind?, hp, Option.bind_some, Bound.value?, idxOf_of_idxOf? hp]

/-- The number of an operand in a row once all operations have run on it. -/
def valueAfter (columns : List String) (operations : List (Operation α)) (row : Row α)
    (x : Operand α) : Option α :=
  operandValue? (columnsAfterAll columns operations) (rewrite columns operations row) x

/-- An operand that is there before new columns are written has the same number afterwards. -/
theorem valueAfter_eq (hfresh : Fresh columns operations) (hrow : row.length = columns.length)
    {x : Operand α} (hx : Present columns x) :
    valueAfter columns operations row x = operandValue? columns row x := by
  cases x with
  | literal x => rfl
  | named name =>
    have hname : name ∉ operations.map Operation.target := fun h => hfresh.new name h hx
    obtain ⟨p, hp⟩ := Option.isSome_iff_exists.mp (List.isSome_idxOf?.mpr hx)
    simp only [valueAfter, operandValue?, bind?, idxOf?_columnsAfterAll hname, hp,
      Option.bind_some, Bound.value?, cellAt_rewrite hrow hp hname]

variable {o : Operation α} {x y : Operand α} {op : Operator}

/-- The finished row has the value of every formula in its column. -/
theorem cellAt_rewrite_formula (hfresh : Fresh columns operations)
    (hreads : ReadsPresent columns operations) (hrow : row.length = columns.length)
    (ho : o ∈ operations) (hcalculation : o.calculation = .formula x op y) :
    cellAt (rewrite columns operations row)
        ((columnsAfterAll columns operations).idxOf o.target) =
      .ofOption (op.evalOption (valueAfter columns operations row x)
        (valueAfter columns operations row y)) := by
  induction operations generalizing columns row with
  | nil => cases ho
  | cons first rest ih =>
    obtain ⟨hnew, hnotin, hfreshRest⟩ := hfresh.cons
    obtain ⟨⟨x', op', y', hfirst, hx, hy⟩, hreadsRest⟩ := hreads
    rcases List.mem_cons.mp ho with rfl | ho
    · -- The operation itself: its column stands behind those it has read, and stays.
      cases hfirst.symm.trans hcalculation
      have hindex : (columnsAfter columns o.target).idxOf? o.target = some columns.length := by
        rw [columnsAfter_of_notMem hnew, List.idxOf?_eq_some_iff]
        refine ⟨by simp, by simp, fun j hj => ?_⟩
        rw [List.getElem_append_left hj]
        exact fun h => hnew (h ▸ List.getElem_mem hj)
      have hplace := (idxOf?_columnsAfterAll hnotin).trans hindex
      rw [valueAfter_eq hfresh hrow hx, valueAfter_eq hfresh hrow hy, columnsAfterAll, rewrite,
        idxOf_of_idxOf? hplace, cellAt_rewrite (length_rewriteOnce hrow) hindex hnotin]
      rw [rewriteOnce, putCell, List.idxOf?_eq_none_iff.mpr hnew, hcalculation]
      simp [cellAt, ← hrow, cellFor]
    · exact ih hfreshRest hreadsRest (length_rewriteOnce hrow) ho

theorem valueAfter_formula (hfresh : Fresh columns operations)
    (hreads : ReadsPresent columns operations) (hrow : row.length = columns.length)
    (ho : o ∈ operations) (hcalculation : o.calculation = .formula x op y) :
    valueAfter columns operations row (.named o.target) =
      op.evalOption (valueAfter columns operations row x)
        (valueAfter columns operations row y) := by
  have htarget : o.target ∈ columnsAfterAll columns operations :=
    mem_columnsAfterAll_iff.mpr (.inr (List.mem_map_of_mem ho))
  rw [valueAfter, operandValue?_named htarget,
    cellAt_rewrite_formula hfresh hreads hrow ho hcalculation, Cell.asNumber_ofOption]

/-! ## The finished table -/

variable {t : Table α}

/-- Formulas that find their operands run, and put their columns behind those of the table. -/
theorem exists_run_of_fresh (hfresh : Fresh t.columns operations)
    (hreads : ReadsPresent t.columns operations) :
    ∃ u, (Transform.mk operations).run t = .ok u ∧
      u.columns = t.columns ++ operations.map Operation.target := by
  obtain ⟨u, hu⟩ := steps_of_check (i := 0) (checkOperations_of_readsPresent hreads)
  exact ⟨u, hu, (columns_of_steps hu).trans (columnsAfterAll_of_fresh hfresh)⟩

/-- The column of a formula has its value in every row. -/
theorem columnValues?_of_run {u : Table α} (ht : t.WellFormed)
    (hfresh : Fresh t.columns operations) (hreads : ReadsPresent t.columns operations)
    (hu : (Transform.mk operations).run t = .ok u) (ho : o ∈ operations)
    (hcalculation : o.calculation = .formula x op y) :
    u.columnValues? o.target =
      some (t.rows.map fun row =>
        .ofOption (valueAfter t.columns operations row (.named o.target))) := by
  have hcolumns : u.columns = columnsAfterAll t.columns operations := columns_of_steps hu
  have htarget : o.target ∈ u.columns :=
    hcolumns ▸ mem_columnsAfterAll_iff.mpr (.inr (List.mem_map_of_mem ho))
  rw [Table.columnValues?, Table.columnIndex?_of_mem htarget, Option.map_some, Table.cellsAt,
    rows_of_run hu, List.map_map, hcolumns]
  refine congrArg some (List.map_congr_left fun row hrow => ?_)
  have hwidth := ht.width row hrow
  rw [valueAfter_formula hfresh hreads hwidth ho hcalculation]
  exact cellAt_rewrite_formula hfresh hreads hwidth ho hcalculation

end TableSteps.Transform
