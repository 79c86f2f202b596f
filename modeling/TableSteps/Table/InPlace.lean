import TableSteps.Table.Basic

/-! # Changes in place

A table is changed where it stands: the width of a row, or the number of values, is checked first,
and what is written then is written part by part, the names apart from the rows. `run_eq_apply`
says that this is the change by a fresh copy; nothing is written before the check has passed, so a
change that fails changes nothing. -/

namespace TableSteps

/-- A computation that works on one table. What it has written before a fault stays written. -/
abbrev InPlace (α τ : Type) := ExceptT TableFault (StateM (Table α)) τ

namespace Table

variable {α : Type}

/-- Changes each row by its value; a row that has none stays as it is. -/
def writeEach (write : Row α → Cell α → Row α) : List (Row α) → List (Cell α) → List (Row α)
  | [], _ => []
  | rows, [] => rows
  | row :: rows, value :: values => write row value :: writeEach write rows values

theorem writeEach_eq_zipWith {write : Row α → Cell α → Row α} :
    ∀ {rows : List (Row α)} {values : List (Cell α)}, values.length = rows.length →
      writeEach write rows values = rows.zipWith write values
  | [], _, _ => by simp [writeEach]
  | row :: rows, value :: values, h => by
    simp [writeEach, writeEach_eq_zipWith (by simpa using h : values.length = rows.length)]

/-- A change to the table at hand. -/
inductive Change (α : Type) where
  | pushRow (row : Row α)
  | setColumn (name : String) (values : List (Cell α))

namespace Change

/-- The change made to a copy. -/
def apply (t : Table α) : Change α → Except TableFault (Table α)
  | pushRow row => t.pushRow row
  | setColumn name values => t.setColumn name values

/-- The change made to the table itself. -/
def inPlace : Change α → InPlace α Unit
  | pushRow row => do
    let t ← get
    if row.length = t.columnCount then modify fun t => { t with rows := t.rows ++ [row] }
    else throw (.rowWidth t.rowCount t.columnCount row.length)
  | setColumn name values => do
    let t ← get
    if values.length = t.rowCount then
      match t.columnIndex? name with
      | some p =>
        modify fun t => { t with rows := writeEach (fun row v => row.set p v) t.rows values }
      | none =>
        modify fun t => { t with columns := t.columns ++ [name] }
        modify fun t => { t with rows := writeEach (fun row v => row ++ [v]) t.rows values }
    else throw (.rowWidth (min values.length t.rowCount) t.rowCount values.length)

/-- The answer of a change and the table as the change leaves it. -/
def run (c : Change α) (t : Table α) : Except TableFault Unit × Table α := c.inPlace.run.run t

private theorem run_ite (p : Prop) [Decidable p] (x y : InPlace α Unit) (t : Table α) :
    (if p then x else y).run.run t = if p then x.run.run t else y.run.run t := by
  by_cases h : p <;> simp [h]

theorem run_eq_apply (c : Change α) (t : Table α) :
    c.run t =
      match c.apply t with
      | .ok u => (.ok (), u)
      | .error fault => (.error fault, t) := by
  cases c with
  | pushRow row =>
    refine (run_ite (row.length = t.columnCount) _ _ t).trans ?_
    simp only [apply, Table.pushRow]
    by_cases h : row.length = t.columnCount
    · simp only [h, if_true]
      rfl
    · simp only [h, if_false]
      rfl
  | setColumn name values =>
    refine (run_ite (values.length = t.rowCount) _ _ t).trans ?_
    simp only [apply, Table.setColumn]
    by_cases h : values.length = t.rowCount
    · cases hp : t.columnIndex? name with
      | some p =>
        simp only [h, if_true, ← writeEach_eq_zipWith h]
        rfl
      | none =>
        simp only [h, if_true, ← writeEach_eq_zipWith h]
        rfl
    · simp only [h, if_false]
      rfl

end Change
end Table
end TableSteps
