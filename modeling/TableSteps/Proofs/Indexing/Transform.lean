import TableSteps.Proofs.Indexing.Lookup
import TableSteps.Proofs.Table.Reachable
import TableSteps.Transform.Run

/-! # Transforms read and written by position

An operation reads the operands of each row by position and writes its column into each row at one
position. The positions come from the columns as the operations before it have left them; every
table on the way is well formed, so they are positions of its rows too. -/

namespace TableSteps

variable {α : Type} {t : Table α}

/-! ## Writing a column -/

namespace Indexed

/-- The rows, each with a value at one position. -/
def writeCells (p : Nat) (rows : List (Row α)) (values : List (Cell α)) : Indexed (List (Row α)) :=
  (rows.zip values).mapM fun (row, value) => setItem row p value

theorem writeCells_eq_ok (ht : t.WellFormed) {p : Nat} (hp : p < t.columnCount)
    (values : List (Cell α)) :
    writeCells p t.rows values =
      .ok (t.rows.zipWith (fun row value => row.set p value) values) := by
  have hset : ∀ x ∈ t.rows.zip values, setItem x.1 p x.2 = .ok (x.1.set p x.2) := by
    intro x hx
    refine setItem_of_lt ?_ x.2
    rw [ht.width x.1 (List.of_mem_zip hx).1]
    exact hp
  refine (mapM_eq_ok hset).trans ?_
  rw [List.map_zip_eq_zipWith]
  rfl

end Indexed

namespace Guarded

/-- Writes one value a row into a column: in its place if the column is there, else at the end. -/
def setColumn (t : Table α) (name : String) (values : List (Cell α)) :
    Guarded TableFault (Table α) :=
  if values.length = t.rowCount then
    match t.columnIndex? name with
    | some p => do
      let rows ← look (Indexed.writeCells p t.rows values)
      settle (.ok { t with rows })
    | none =>
      settle (.ok ⟨t.columns ++ [name], t.rows.zipWith (fun row value => row ++ [value]) values⟩)
  else settle (.error (.rowWidth (min values.length t.rowCount) t.rowCount values.length))

theorem setColumn_eq_settle (ht : t.WellFormed) (name : String) (values : List (Cell α)) :
    setColumn t name values = settle (t.setColumn name values) := by
  unfold setColumn Table.setColumn
  split
  · cases hp : t.columnIndex? name with
    | none => rfl
    | some p =>
      simp only [Indexed.writeCells_eq_ok ht (Table.columnIndex?_lt hp), look_ok, settle_ok_bind]
  · rfl

end Guarded

/-! ## Computing a column -/

variable [Quantity α]

/-- The number of an operand in one row. -/
def Indexed.value? (row : Row α) : Transform.Bound α → Indexed (Option α)
  | .column p => (item row p).map Cell.asNumber
  | .literal x => .ok (some x)

namespace Guarded

/-- The cells of a column that an operation reads. -/
def source (t : Table α) (place : Place) (name : String) : Guarded StepError (List (Cell α)) := do
  let cells? ← look (Indexed.columnValues? t name)
  match cells? with
  | some cells => settle (.ok cells)
  | none => settle (refuse place (.undefinedName name t.columns))

/-- The column that operation `i` computes. -/
def column (t : Table α) (i : Nat) : Calculation α → Guarded StepError (List (Cell α))
  | .constant value => settle (.ok (List.replicate t.rowCount value))
  | .copy name => source t (Transform.partPlace i "source") name
  | .formula left op right => do
    let x ← settle (Transform.operand t (Transform.partPlace i "left") left)
    let y ← settle (Transform.operand t (Transform.partPlace i "right") right)
    look (t.rows.mapM fun row => do
      let a ← Indexed.value? row x
      let b ← Indexed.value? row y
      pure (Cell.ofOption (op.evalOption a b)))
  | .mapping name targets => do
    let cells ← source t (Transform.partPlace i "source") name
    settle (.ok (cells.map (Transform.lookUp targets)))

def operate (t : Table α) (i : Nat) (o : Operation α) : Guarded StepError (Table α) := do
  let values ← column t i o.calculation
  mapError (fun fault => .unplaced (.tableFault fault)) (setColumn t o.target values)

def operateAll : Nat → List (Operation α) → Table α → Guarded StepError (Table α)
  | _, [], t => settle (.ok t)
  | i, o :: rest, t => do
    let t ← operate t i o
    operateAll (i + 1) rest t

def transform (config : Transform α) (t : Table α) : Guarded StepError (Table α) :=
  operateAll 0 config.operations t

omit [Quantity α] in
theorem source_eq_settle (ht : t.WellFormed) (place : Place) (name : String) :
    source t place name = settle (Transform.source t place name) := by
  rw [source, Indexed.columnValues?_eq_ok ht, look_ok, settle_ok_bind, Transform.source]
  cases t.columnValues? name <;> rfl

/-- A name that is bound to a column is bound to its position. -/
theorem operand_lt {place : Place} {o : Operand α} {p : Nat}
    (h : Transform.operand t place o = .ok (.column p)) : p < t.columnCount := by
  unfold Transform.operand at h
  cases o with
  | literal x => cases h
  | named name =>
    cases hp : t.columnIndex? name with
    | some q =>
      have hbind : Transform.bind? t.columns (.named name : Operand α) = some (.column q) := by
        rw [Transform.bind?, show t.columns.idxOf? name = some q from hp]
      rw [hbind] at h
      cases h
      exact Table.columnIndex?_lt hp
    | none =>
      have hbind : Transform.bind? t.columns (.named name : Operand α) =
          (Cell.numberInText? name).map .literal := by
        rw [Transform.bind?, show t.columns.idxOf? name = none from hp]
      rw [hbind] at h
      cases hx : Cell.numberInText? (α := α) name with
      | none => rw [hx] at h; cases h
      | some x => rw [hx] at h; cases h

theorem value?_eq_ok (ht : t.WellFormed) {place : Place} {o : Operand α} {b : Transform.Bound α}
    (hb : Transform.operand t place o = .ok b) {row : Row α} (hrow : row ∈ t.rows) :
    Indexed.value? row b = .ok (b.value? row) := by
  cases b with
  | literal x => rfl
  | column p =>
    rw [Indexed.value?, Indexed.item_row ht (operand_lt hb) hrow]
    rfl

theorem column_eq_settle (ht : t.WellFormed) (i : Nat) (calculation : Calculation α) :
    column t i calculation = settle (Transform.column t i calculation) := by
  cases calculation with
  | constant value => rfl
  | copy name => exact source_eq_settle ht _ name
  | formula left op right =>
    refine settle_bind fun x hx => settle_bind fun y hy => ?_
    have hvalue : ∀ row ∈ t.rows, (do
        let a ← Indexed.value? row x
        let b ← Indexed.value? row y
        pure (Cell.ofOption (op.evalOption a b)) : Indexed (Cell α)) =
        .ok (Cell.ofOption (op.evalOption (x.value? row) (y.value? row))) := by
      intro row hrow
      rw [value?_eq_ok ht hx hrow, value?_eq_ok ht hy hrow]
      rfl
    rw [Indexed.mapM_eq_ok hvalue]
    rfl
  | mapping name targets =>
    simp only [column, source_eq_settle ht]
    exact settle_bind fun cells _ => rfl

theorem operate_eq_settle (ht : t.WellFormed) (i : Nat) (o : Operation α) :
    operate t i o = settle (Transform.step t i o) := by
  rw [operate, column_eq_settle ht]
  refine settle_bind fun values _ => ?_
  rw [setColumn_eq_settle ht]
  cases t.setColumn o.target values <;> rfl

/-- Every operation leaves a well-formed table for the one after it. -/
theorem operateAll_eq_settle {operations : List (Operation α)} :
    ∀ {i : Nat} {t : Table α}, t.WellFormed →
      operateAll i operations t = settle (Transform.steps i operations t) := by
  induction operations with
  | nil =>
    intro i t ht
    rfl
  | cons o rest ih =>
    intro i t ht
    rw [operateAll, operate_eq_settle ht]
    exact settle_bind fun u hu => ih (Transform.wellFormed_step ht hu)

theorem transform_eq_settle (ht : t.WellFormed) (config : Transform α) :
    transform config t = settle (config.run t) :=
  operateAll_eq_settle ht

end Guarded
end TableSteps
