import TableSteps.Table.Basic

/-! # Tables as lists of JSON records

A sheet arrives as one JSON object a row. Its columns are the keys of all records in the order in
which they are first met, the keys of one record in the order of a dictionary; a key that a record
lacks leaves an empty cell. -/

namespace TableSteps.Table

variable {α : Type} [WireQuantity α]

/-- The members of every record; the first value that is no object is refused. -/
def recordMembers (records : List Json) : Except TableFault (List (Dictionary Json)) :=
  go 0 records
where
  go (index : Nat) : List Json → Except TableFault (List (Dictionary Json))
    | [] => .ok []
    | record :: rest =>
      match record.members? with
      | some members => (go (index + 1) rest).map (members :: ·)
      | none => .error (.notRecord index)

/-- All keys, each where it is first met. -/
def recordColumns (records : List (Dictionary Json)) : List String :=
  (records.flatMap Dictionary.keys).eraseDups

/-- The cell that a record has in a column. -/
def recordCell (record : Dictionary Json) (column : String) : Except TableFault (Cell α) :=
  match record.get? column with
  | none => .ok .empty
  | some value =>
    match Cell.ofJson? value with
    | some cell => .ok cell
    | none => .error (.nested column)

def ofRecords (records : List Json) : Except TableFault (Table α) := do
  let records ← recordMembers records
  let columns := recordColumns records
  let rows ← records.mapM fun record => columns.mapM (recordCell record)
  pure ⟨columns, rows⟩

/-- One object a row, with a member for every column. -/
def toRecords (t : Table α) : List Json :=
  t.rows.map fun row =>
    Json.record ((t.columns.zip row).map fun (name, cell) => (name, cell.toJson))

end TableSteps.Table
