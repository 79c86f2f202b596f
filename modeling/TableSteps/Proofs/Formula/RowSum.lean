import TableSteps.Formula.RowValue
import TableSteps.Table.WellFormed

/-! # Sums of formulas over numeric columns

Over columns whose cells are all missing or numbers a formula has a value, or null, in every row, so
its sum over a table is a fold over the rows that nothing can stop. -/

namespace TableSteps

namespace Formula

variable {α : Type} [Quantity α]

/-- Missing, or a number. -/
def Readable (c : Cell α) : Prop := (c.isMissing || c.asNumber.isSome) = true

theorem leafValue_of_readable {name : String} {c : Cell α} (h : Readable c) :
    ∃ v, leafValue name c = .ok v := by
  unfold leafValue
  split
  · exact ⟨none, rfl⟩
  · rename_i hmissing
    obtain ⟨x, hx⟩ := Option.isSome_iff_exists.mp (by simpa [Readable, hmissing] using h)
    exact ⟨some x, by rw [hx]⟩

theorem Expression.value_of_readable {cellOf : String → Cell α} {e : Expression α}
    (h : ∀ name ∈ e.leafNames, Readable (cellOf name)) : ∃ v, e.value cellOf = .ok v := by
  induction e with
  | number x => exact ⟨some x, rfl⟩
  | column name => exact leafValue_of_readable (h name (List.mem_singleton_self name))
  | negate operand ih =>
    obtain ⟨v, hv⟩ := ih h
    exact ⟨v.map fun x => -x, by rw [Expression.value, hv]⟩
  | binary op left right ihl ihr =>
    obtain ⟨x, hx⟩ := ihl fun name hname => h name (List.mem_append_left _ hname)
    obtain ⟨y, hy⟩ := ihr fun name hname => h name (List.mem_append_right _ hname)
    exact ⟨op.evalOption x y, by rw [Expression.value, hx, hy]⟩

theorem mem_columns_of_isNumericColumn {t : Table α} {name : String}
    (h : t.isNumericColumn name = true) : name ∈ t.columns := by
  unfold Table.isNumericColumn Table.columnValues? at h
  cases hp : t.columnIndex? name with
  | none => simp [hp] at h
  | some p => exact mem_of_idxOf? hp

omit [Quantity α] in
theorem bind_of_mem {columns : List String} {e : Expression α}
    (h : ∀ name ∈ e.columns, name ∈ columns) (place : Place) : bind place columns e = .ok () := by
  have hbound : unboundColumn? columns e = none :=
    List.find?_eq_none.mpr fun name hname => by simp [h name hname]
  rw [bind, hbound]

/-- Every row has a readable cell in a numeric column. -/
theorem readable_of_isNumericColumn {t : Table α} {name : String}
    (h : t.isNumericColumn name = true) {row : Row α} (hrow : row ∈ t.rows) :
    Readable (cellOf t.columns row name) := by
  unfold Table.isNumericColumn Table.columnValues? at h
  cases hp : t.columnIndex? name with
  | none => simp [hp] at h
  | some p =>
    rw [hp] at h
    have hall := List.all_eq_true.mp h (cellAt row p) (List.mem_map_of_mem hrow)
    rw [cellOf, idxOf_of_idxOf? hp]
    exact hall

/-- The sum so far and the value of one more row; null adds nothing. -/
def addValue (sum : α) : Except (BadCell α) (Option α) → α
  | .ok (some x) => sum + x
  | _ => sum

/-- The values of a formula in all rows, added up in the order of the rows. -/
def total (t : Table α) (e : Expression α) : α :=
  t.rows.foldl (fun sum row => addValue sum (rowValue t.columns e row)) Quantity.zero

end Formula

namespace Formula

variable {α : Type} [WireQuantity α]

theorem sumFrom_eq_foldl {columns : List String} {e : Expression α} {rows : List (Row α)} :
    ∀ {i : Nat} {sum : α}, (∀ row ∈ rows, ∃ v, rowValue columns e row = .ok v) →
      sumFrom columns e i sum rows =
        .ok (rows.foldl (fun sum row => addValue sum (rowValue columns e row)) sum) := by
  induction rows with
  | nil =>
    intro i sum _
    rfl
  | cons row rest ih =>
    intro i sum h
    obtain ⟨v, hv⟩ := h row List.mem_cons_self
    have hrest : ∀ row ∈ rest, ∃ v, rowValue columns e row = .ok v :=
      fun row hrow => h row (List.mem_cons_of_mem _ hrow)
    rw [sumFrom, hv, List.foldl_cons, hv]
    cases v with
    | none => exact ih hrest
    | some x => exact ih hrest

theorem sum_eq_total {t : Table α} {e : Expression α}
    (h : ∀ name ∈ e.columns, t.isNumericColumn name = true) : sum t e = .ok (total t e) := by
  refine sumFrom_eq_foldl fun row hrow => Expression.value_of_readable fun name hname => ?_
  exact readable_of_isNumericColumn (h name (List.mem_eraseDups.mpr hname)) hrow

end Formula

end TableSteps
