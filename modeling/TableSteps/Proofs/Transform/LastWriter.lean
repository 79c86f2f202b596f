import Mathlib.Data.List.Basic
import TableSteps.Binary64.Quantity
import TableSteps.Proofs.Table.Reachable
import TableSteps.Proofs.Transform.SingleAssignment

/-! # The last operation that writes a column

Operations may write a column that was there before, that another operation has written, or that
they read themselves. What counts is the last operation that writes it: its column is computed whole
from the columns as they stand just before, and no operation behind touches it. A column that no
operation writes is as it was.

`Computes` says what a calculation gives over a table, by the names of columns and without
positions. The laws of writing and reading one column stand first; what one operation does follows
from them, and what all operations do by induction over the list. -/

namespace TableSteps

variable {α : Type}

/-! ## Reading after writing -/

namespace Transform

theorem cellAt_putCell_self {columns : List String} {name : String} {row : Row α} {value : Cell α}
    {p : Nat} (hrow : row.length = columns.length)
    (hp : (columnsAfter columns name).idxOf? name = some p) :
    cellAt (putCell columns name row value) p = value := by
  unfold putCell cellAt
  cases hq : columns.idxOf? name with
  | none =>
    have hnew : name ∉ columns := List.idxOf?_eq_none_iff.mp hq
    have hlast : p = columns.length := by
      rw [columnsAfter_of_notMem hnew] at hp
      rw [← idxOf_of_idxOf? hp, List.idxOf_append_of_notMem hnew]
      simp
    simp [List.getD_eq_getElem?_getD, hlast, ← hrow]
  | some q =>
    have hmem : name ∈ columns := mem_of_idxOf? hq
    have hplace : q = p := by simpa [columnsAfter, hmem, hq] using hp
    obtain ⟨hlt, -⟩ := List.idxOf?_eq_some_iff.mp hq
    simp [List.getD_eq_getElem?_getD, ← hplace, hrow, hlt]

end Transform

open Transform

namespace Table

variable {t u : Table α} {name : String} {values : List (Cell α)}

theorem mem_columns_of_columnValues? {cells : List (Cell α)}
    (h : t.columnValues? name = some cells) : name ∈ t.columns := by
  obtain ⟨p, hp, -⟩ := Option.map_eq_some_iff.mp h
  exact mem_of_idxOf? hp

/-- Writing a column writes one cell of every row. -/
theorem setColumn_eq_ok (h : t.setColumn name values = .ok u) :
    values.length = t.rows.length ∧
      u = ⟨columnsAfter t.columns name, t.rows.zipWith (putCell t.columns name) values⟩ := by
  unfold setColumn columnIndex? at h
  split at h
  · rename_i hlength
    refine ⟨hlength, ?_⟩
    cases hp : t.columns.idxOf? name with
    | none =>
      rw [hp] at h
      cases h
      have hput : putCell t.columns name = fun (row : Row α) value => row ++ [value] := by
        funext row value
        rw [putCell, hp]
      rw [columnsAfter_of_notMem (List.idxOf?_eq_none_iff.mp hp), hput]
    | some p =>
      rw [hp] at h
      cases h
      have hput : putCell t.columns name = fun (row : Row α) value => row.set p value := by
        funext row value
        rw [putCell, hp]
      rw [columnsAfter, if_pos (List.contains_iff_mem.mpr (mem_of_idxOf? hp)), hput]
  · cases h

/-- A column that was written has the new cells, and every other column those it had. -/
theorem columnValues?_setColumn (ht : t.WellFormed) (h : t.setColumn name values = .ok u)
    (other : String) :
    u.columnValues? other = if other = name then some values else t.columnValues? other := by
  obtain ⟨hlength, rfl⟩ := setColumn_eq_ok h
  unfold columnValues? columnIndex? cellsAt
  by_cases hother : other = name
  · subst hother
    obtain ⟨p, hp⟩ := Option.isSome_iff_exists.mp
      (List.isSome_idxOf?.mpr (mem_columnsAfter_iff.mpr (.inr rfl) : other ∈ columnsAfter _ other))
    rw [if_pos rfl, hp, Option.map_some]
    refine congrArg some (List.ext_getElem (by simp [hlength]) fun i hi hi' => ?_)
    rw [List.getElem_map, List.getElem_zipWith]
    exact cellAt_putCell_self (ht.width _ (List.getElem_mem _)) hp
  · rw [if_neg hother, idxOf?_columnsAfter hother]
    cases hp : t.columns.idxOf? other with
    | none => rfl
    | some p =>
      refine congrArg some (List.ext_getElem (by simp [hlength]) fun i hi hi' => ?_)
      rw [List.getElem_map, List.getElem_zipWith, List.getElem_map]
      exact cellAt_putCell_of_ne (ht.width _ (List.getElem_mem _)) hp hother

end Table

/-! ## What an operation computes -/

namespace Transform

variable [Quantity α] {t u : Table α}

/-- The numbers that an operand has in the rows of a table: a column comes before the number that
its name writes. -/
inductive Reads (t : Table α) : Operand α → List (Option α) → Prop
  | literal (x : α) : Reads t (.literal x) (List.replicate t.rowCount (some x))
  | column {name : String} {cells : List (Cell α)} (h : t.columnValues? name = some cells) :
    Reads t (.named name) (cells.map Cell.asNumber)
  | text {name : String} {x : α} (hname : name ∉ t.columns)
    (h : Cell.numberInText? name = some x) :
    Reads t (.named name) (List.replicate t.rowCount (some x))

/-- The column that a calculation gives over a table. -/
inductive Computes (t : Table α) : Calculation α → List (Cell α) → Prop
  | constant (value : Cell α) : Computes t (.constant value) (List.replicate t.rowCount value)
  | copy {name : String} {cells : List (Cell α)} (h : t.columnValues? name = some cells) :
    Computes t (.copy name) cells
  | formula {left right : Operand α} {xs ys : List (Option α)} (op : Operator)
    (hleft : Reads t left xs) (hright : Reads t right ys) :
    Computes t (.formula left op right) ((xs.zipWith op.evalOption ys).map .ofOption)
  | mapping {name : String} {cells : List (Cell α)} (targets : Dictionary (Cell α))
    (h : t.columnValues? name = some cells) :
    Computes t (.mapping name targets) (cells.map fun c => (targets.get? c.label).getD .empty)

theorem Reads.unique {o : Operand α} {xs ys : List (Option α)} (hx : Reads t o xs)
    (hy : Reads t o ys) : xs = ys := by
  cases hx with
  | literal x => cases hy; rfl
  | column hcells =>
    cases hy with
    | column hcells' => rw [Option.some_inj.mp (hcells.symm.trans hcells')]
    | text hname _ => exact absurd (Table.mem_columns_of_columnValues? hcells) hname
  | text hname hx =>
    cases hy with
    | column hcells => exact absurd (Table.mem_columns_of_columnValues? hcells) hname
    | text _ hx' => rw [Option.some_inj.mp (hx.symm.trans hx')]

/-- A calculation gives one column at most. -/
theorem Computes.unique {c : Calculation α} {values others : List (Cell α)}
    (h : Computes t c values) (h' : Computes t c others) : values = others := by
  cases h with
  | constant value => cases h'; rfl
  | copy hcells =>
    cases h' with
    | copy hcells' => exact Option.some_inj.mp (hcells.symm.trans hcells')
  | formula op hleft hright =>
    cases h' with
    | formula _ hleft' hright' => rw [hleft.unique hleft', hright.unique hright']
  | mapping targets hcells =>
    cases h' with
    | mapping _ hcells' => rw [Option.some_inj.mp (hcells.symm.trans hcells')]

omit [Quantity α] in
theorem source_eq_ok {place : Place} {name : String} {cells : List (Cell α)}
    (h : source t place name = .ok cells) : t.columnValues? name = some cells := by
  unfold source at h
  split at h
  · rename_i hcells
    cases h
    exact hcells
  · cases h

theorem reads_of_operand {place : Place} {o : Operand α} {b : Bound α}
    (h : operand t place o = .ok b) : Reads t o (t.rows.map fun row => b.value? row) := by
  rw [operand_eq_ok_iff] at h
  cases o with
  | literal x =>
    cases h
    simpa [Bound.value?, Table.rowCount] using Reads.literal (t := t) x
  | named name =>
    cases hp : t.columns.idxOf? name with
    | some p =>
      rw [bind?, hp] at h
      cases h
      have hcells : t.columnValues? name = some (t.cellsAt p) := by
        rw [Table.columnValues?, Table.columnIndex?, hp, Option.map_some]
      simpa [Bound.value?, Table.cellsAt, Function.comp_def] using Reads.column hcells
    | none =>
      rw [bind?, hp] at h
      obtain ⟨x, hx, rfl⟩ := Option.map_eq_some_iff.mp h
      simpa [Bound.value?, Table.rowCount] using
        Reads.text (t := t) (List.idxOf?_eq_none_iff.mp hp) hx

theorem computes_of_column {i : Nat} {c : Calculation α} {values : List (Cell α)}
    (h : column t i c = .ok values) : Computes t c values := by
  cases c with
  | constant value =>
    cases h
    exact .constant value
  | copy name => exact .copy (source_eq_ok h)
  | formula left op right =>
    obtain ⟨x, hx, h⟩ := bind_eq_ok_iff.mp h
    obtain ⟨y, hy, h⟩ := bind_eq_ok_iff.mp h
    cases h
    have hformula := Computes.formula op (reads_of_operand hx) (reads_of_operand hy)
    rwa [List.zipWith_map, List.zipWith_self, List.map_map] at hformula
  | mapping name targets =>
    obtain ⟨cells, hcells, h⟩ := bind_eq_ok_iff.mp h
    cases h
    exact .mapping targets (source_eq_ok hcells)

/-- An operation computes a column and writes it. -/
theorem step_eq_ok {i : Nat} {o : Operation α} (h : step t i o = .ok u) :
    ∃ values, Computes t o.calculation values ∧ t.setColumn o.target values = .ok u := by
  obtain ⟨values, hvalues, h⟩ := bind_eq_ok_iff.mp h
  split at h
  · rename_i v hv
    cases h
    exact ⟨values, computes_of_column hvalues, hv⟩
  · cases h

/-! ## What a list of operations leaves -/

/-- A column that no operation writes keeps its cells, and one that is not there is not added. -/
theorem columnValues?_of_steps {operations : List (Operation α)} {name : String} :
    ∀ {i : Nat} {t : Table α}, t.WellFormed → steps i operations t = .ok u →
      name ∉ operations.map Operation.target → u.columnValues? name = t.columnValues? name := by
  induction operations with
  | nil =>
    intro i t _ h _
    cases h
    rfl
  | cons o rest ih =>
    intro i t ht h hname
    obtain ⟨hfirst, hrest⟩ := not_or.mp (mt List.mem_cons.mpr hname)
    obtain ⟨v, hv, h⟩ := bind_eq_ok_iff.mp h
    obtain ⟨values, -, hset⟩ := step_eq_ok hv
    rw [ih (wellFormed_step ht hv) h hrest, Table.columnValues?_setColumn ht hset, if_neg hfirst]

omit [Quantity α] in
/-- New columns stand behind the old ones, each where it is written first. -/
theorem columnsAfterAll_eq {operations : List (Operation α)} {columns : List String} :
    columnsAfterAll columns operations =
      columns ++ ((operations.map Operation.target).filter (!columns.contains ·)).eraseDups := by
  induction operations generalizing columns with
  | nil => simp [columnsAfterAll]
  | cons o rest ih =>
    rw [columnsAfterAll, ih, List.map_cons, List.filter_cons]
    by_cases hmem : o.target ∈ columns
    · simp [columnsAfter, hmem]
    · rw [columnsAfter_of_notMem hmem, if_pos (by simpa using hmem), List.eraseDups_cons,
        List.filter_filter, List.append_assoc, List.singleton_append]
      congr 3
      refine List.filter_congr fun name _ => ?_
      simp [Bool.and_comm, Bool.beq_eq_decide_eq]

omit [Quantity α] in
/-- A name that is written has an operation that writes it last. -/
theorem exists_last_writer {operations : List (Operation α)} {name : String}
    (h : name ∈ operations.map Operation.target) :
    ∃ before o after, operations = before ++ o :: after ∧ o.target = name ∧
      name ∉ after.map Operation.target := by
  induction operations with
  | nil => cases h
  | cons first rest ih =>
    by_cases hrest : name ∈ rest.map Operation.target
    · obtain ⟨before, o, after, rfl, ho, hafter⟩ := ih hrest
      exact ⟨first :: before, o, after, rfl, ho, hafter⟩
    · rcases List.mem_cons.mp h with rfl | h
      · exact ⟨[], first, rest, rfl, rfl, hrest⟩
      · exact absurd h hrest

/-! ## Lists of operations cut in two -/

end Transform

/-- The same place, in an operation that stands some places later. -/
def Place.operationsLater (n : Nat) : Place → Place
  | .root name => .root name
  | .item (.root name) i => .item (.root name) (n + i)
  | .item inside i => .item (inside.operationsLater n) i
  | .member inside name => .member (inside.operationsLater n) name

/-- The same error, in an operation that stands some places later. -/
def StepError.operationsLater (n : Nat) (e : StepError) : StepError :=
  { e with place := e.place.map (Place.operationsLater n) }

namespace Transform

variable [Quantity α] {t u : Table α}

omit [Quantity α] in
theorem source_add (n i : Nat) (part name : String) :
    source t (partPlace (n + i) part) name =
      (source t (partPlace i part) name).mapError (.operationsLater n) := by
  unfold source
  cases t.columnValues? name <;> rfl

theorem operand_add (n i : Nat) (part : String) (o : Operand α) :
    operand t (partPlace (n + i) part) o =
      (operand t (partPlace i part) o).mapError (.operationsLater n) := by
  unfold operand
  cases bind? t.columns o <;> rfl

theorem column_add (n i : Nat) (c : Calculation α) :
    column t (n + i) c = (column t i c).mapError (.operationsLater n) := by
  cases c with
  | constant value => rfl
  | copy name => exact source_add n i "source" name
  | formula left op right =>
    simp only [column, operand_add]
    cases operand t (partPlace i "left") left with
    | error e => rfl
    | ok x => cases operand t (partPlace i "right") right <;> rfl
  | mapping name targets =>
    simp only [column, source_add]
    cases source t (partPlace i "source") name <;> rfl

theorem step_add (n i : Nat) (o : Operation α) :
    step t (n + i) o = (step t i o).mapError (.operationsLater n) := by
  unfold step
  rw [column_add]
  cases column t i o.calculation with
  | error e => rfl
  | ok values =>
    simp only [ok_mapError, ok_bind]
    cases t.setColumn o.target values <;> rfl

/-- Where the numbers of the operations start shows in errors alone. -/
theorem steps_add (n : Nat) {operations : List (Operation α)} :
    ∀ {i : Nat} {t : Table α},
      steps (n + i) operations t = (steps i operations t).mapError (.operationsLater n) := by
  induction operations with
  | nil => exact rfl
  | cons o rest ih =>
    intro i t
    rw [steps, steps, step_add]
    cases step t i o with
    | error e => rfl
    | ok v => exact ih (i := i + 1)

theorem steps_append {p q : List (Operation α)} :
    ∀ {i : Nat} {t : Table α},
      steps i (p ++ q) t = (steps i p t >>= fun mid => steps (i + p.length) q mid) := by
  induction p with
  | nil => exact rfl
  | cons o rest ih =>
    intro i t
    rw [List.cons_append, steps, steps]
    cases step t i o with
    | error e => rfl
    | ok v =>
      rw [ok_bind, ok_bind, ih, List.length_cons, Nat.add_assoc, Nat.add_comm 1]

/-- A list of operations runs as its first part and then, on what that has left, as its second. -/
theorem run_operations_append (p q : List (Operation α)) (t : Table α) :
    (mk (p ++ q)).run t =
      ((mk p).run t >>= fun mid => ((mk q).run mid).mapError (.operationsLater p.length)) := by
  simp only [run, steps_append, ← steps_add, Nat.zero_add, Nat.add_zero]

/-! ## The whole transform -/

/-- What a transform leaves of a table. -/
structure Leaves (config : Transform α) (t u : Table α) : Prop where
  rowCount : u.rowCount = t.rowCount
  /-- The rows stand where they stood: any choice of them is transformed as it is here. -/
  rows (positions : List Nat) :
    config.run (t.selectRows positions) = .ok (u.selectRows positions)
  columns : u.columns =
    t.columns ++ (config.targets.filter (!t.columns.contains ·)).eraseDups
  kept (name : String) : name ∉ config.targets → u.columnValues? name = t.columnValues? name
  /-- A column has the cells that the last operation to write it computes from the columns that
  stand before it, and there is one way to compute them. -/
  written (name : String) : name ∈ config.targets → ∃ before o after mid values,
    config.operations = before ++ o :: after ∧ o.target = name ∧
      name ∉ after.map Operation.target ∧ (mk before).run t = .ok mid ∧
      u.columnValues? name = some values ∧
      ∀ others, Computes mid o.calculation others ↔ others = values

theorem columnValues?_of_last_writer (ht : t.WellFormed) {before after : List (Operation α)}
    {o : Operation α} (h : (mk (before ++ o :: after)).run t = .ok u)
    (hafter : o.target ∉ after.map Operation.target) :
    ∃ mid values, (mk before).run t = .ok mid ∧ Computes mid o.calculation values ∧
      u.columnValues? o.target = some values := by
  rw [run_operations_append] at h
  obtain ⟨mid, hmid, h⟩ := bind_eq_ok_iff.mp h
  obtain ⟨v, hv, hrest⟩ := bind_eq_ok_iff.mp (mapError_eq_ok_iff.mp h)
  obtain ⟨values, hvalues, hset⟩ := step_eq_ok hv
  have hwell : mid.WellFormed := wellFormed_steps ht hmid
  refine ⟨mid, values, hmid, hvalues, ?_⟩
  rw [columnValues?_of_steps (wellFormed_step hwell hv) hrest hafter,
    Table.columnValues?_setColumn hwell hset, if_pos rfl]

/-- A transform that runs keeps the rows and the columns of the table in their places, puts new
columns behind them, changes the columns that it writes and no others, and leaves in each what its
last writer has computed. It runs as any first part of its operations and then as the rest, up to
the number of the operation in an error. -/
theorem run_leaves (config : Transform α) {t : Table α} (ht : t.WellFormed) :
    (∀ u, config.run t = .ok u → config.Leaves t u) ∧
    ∀ p q, config.operations = p ++ q → config.run t =
      ((mk p).run t >>= fun mid => ((mk q).run mid).mapError (.operationsLater p.length)) := by
  refine ⟨fun u h => ?_, fun p q hpq => ?_⟩
  · exact
      { rowCount := by rw [Table.rowCount, rows_of_run h, List.length_map, Table.rowCount]
        rows positions := by rw [run_selectRows, h, ok_map]
        columns := (columns_of_steps h).trans columnsAfterAll_eq
        kept name hname := columnValues?_of_steps ht h hname
        written name hname := by
          obtain ⟨before, o, after, hsplit, rfl, hafter⟩ := exists_last_writer hname
          have hrun : (mk (before ++ o :: after)).run t = .ok u := by
            rw [← hsplit]
            exact h
          obtain ⟨mid, values, hmid, hvalues, hcells⟩ :=
            columnValues?_of_last_writer ht hrun hafter
          exact ⟨before, o, after, mid, values, hsplit, rfl, hafter, hmid, hcells, fun others =>
            ⟨fun hothers => hothers.unique hvalues, fun heq => heq ▸ hvalues⟩⟩ }
  · rw [← run_operations_append, ← hpq]

/-- A column is doubled in place, a second one is computed from it, and the first is written over:
the second keeps the doubled values. -/
theorem run_leaves_doubled :
    let t : Table Float := ⟨["price", "unit"], [[.number 2.0, .text "kg"], [.empty, .text "g"]]⟩
    let double : Operation Float :=
      ⟨.addSubject, "price", .formula (.named "price") .multiply (.literal 2.0)⟩
    let copy : Operation Float := ⟨.addSubject, "total", .copy "price"⟩
    let reset : Operation Float := ⟨.addSubject, "price", .constant (.number 0.0)⟩
    ∃ u, (Transform.mk [double, copy, reset]).run t = .ok u ∧
      (Transform.mk [double, copy, reset]).Leaves t u ∧
      u.columns = ["price", "unit", "total"] ∧
      u.columnValues? "price" = some [.number 0.0, .number 0.0] ∧
      u.columnValues? "unit" = t.columnValues? "unit" ∧
      u.columnValues? "total" = some [.number (2.0 * 2.0), .empty] := by
  intro t double copy reset
  have ht : t.WellFormed := by
    subst t
    exact ⟨by decide, by decide⟩
  have hrun : (Transform.mk [double, copy, reset]).run t =
      .ok ⟨["price", "unit", "total"],
        [[.number 0.0, .text "kg", .number (2.0 * 2.0)], [.number 0.0, .text "g", .empty]]⟩ := by
    subst t double copy reset
    rfl
  have hleaves := (run_leaves (Transform.mk [double, copy, reset]) ht).1 _ hrun
  exact ⟨_, hrun, hleaves, rfl, rfl, hleaves.kept "unit" (by decide), rfl⟩

end Transform
end TableSteps
