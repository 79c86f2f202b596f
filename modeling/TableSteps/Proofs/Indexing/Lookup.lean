import TableSteps.Proofs.Indexing.Numbering
import TableSteps.Proofs.Step.Lookup

/-! # Tables and scopes read by position

A row of a well-formed table has a cell for every position at which a column was found, and a row
number that is taken from the rows of a table is one of theirs. The result under a name in a scope
stands where the name stands. -/

namespace TableSteps

variable {α : Type}

namespace Indexed

/-! ## Rows and cells -/

/-- The cells of a column, read row by row. -/
def columnCells (t : Table α) (p : Nat) : Indexed (List (Cell α)) := t.rows.mapM (item · p)

/-- The cells of a column that may not be there. -/
def columnValues? (t : Table α) (name : String) : Indexed (Option (List (Cell α))) :=
  match t.columnIndex? name with
  | some p => (columnCells t p).map some
  | none => .ok none

/-- The cell in a row with some number. -/
def cellIn (t : Table α) (p : Nat) (r : Nat) : Indexed (Cell α) := do
  let row ← item t.rows r
  item row p

/-- The rows with these numbers, in this order. -/
def selectRows (t : Table α) (numbers : List Nat) : Indexed (Table α) :=
  (numbers.mapM (item t.rows)).map t.withRows

/-- The key of a row in the columns at these positions. -/
def rowKey [Quantity α] (positions : List Nat) (row : Row α) :
    Indexed (RowKey (Keyed.Key α)) :=
  (positions.mapM fun p => (item row p).map Cell.key).map RowKey.mk

/-- Every cell of the column is missing or a number. -/
def isNumericColumn [Quantity α] (t : Table α) (name : String) : Indexed Bool := do
  let cells ← columnValues? t name
  pure (cells.any fun cells => cells.all fun c => c.isMissing || c.asNumber.isSome)

variable {t : Table α}

/-- The row with some number. -/
def rowAt (t : Table α) (r : Nat) : Row α := t.rows.getD r []

theorem map_rowAt_range (t : Table α) : (List.range t.rowCount).map (rowAt t) = t.rows := by
  refine List.ext_getElem (by simp [Table.rowCount]) fun i hi hi' => ?_
  simp [rowAt, hi']

theorem item_rows {r : Nat} (h : r < t.rowCount) : item t.rows r = .ok (rowAt t r) := item_getD h []

theorem rowAt_mem {r : Nat} (h : r < t.rowCount) : rowAt t r ∈ t.rows := by
  rw [← map_rowAt_range t]
  exact List.mem_map_of_mem (List.mem_range.mpr h)

section WellFormed

variable (ht : t.WellFormed) {p : Nat} (hp : p < t.columnCount)
include ht hp

/-- A row has a cell in every column. -/
theorem item_row {row : Row α} (hrow : row ∈ t.rows) : item row p = .ok (cellAt row p) := by
  refine item_getD ?_ Cell.empty
  rw [ht.width row hrow]
  exact hp

theorem columnCells_eq_ok : columnCells t p = .ok (t.cellsAt p) :=
  mapM_eq_ok fun _ hrow => item_row ht hp hrow

theorem cellIn_eq_ok {r : Nat} (hr : r < t.rowCount) :
    cellIn t p r = .ok (cellAt (rowAt t r) p) := by
  rw [cellIn, item_rows hr, ok_bind, item_row ht hp (rowAt_mem hr)]

end WellFormed

theorem selectRows_eq_ok {numbers : List Nat} (h : ∀ r ∈ numbers, r < t.rowCount) :
    selectRows t numbers = .ok (t.withRows (numbers.map (rowAt t))) := by
  rw [selectRows, mapM_eq_ok fun r hr => item_rows (h r hr)]
  rfl

variable (ht : t.WellFormed)
include ht

theorem columnValues?_eq_ok (name : String) :
    columnValues? t name = .ok (t.columnValues? name) := by
  unfold columnValues? Table.columnValues?
  cases hp : t.columnIndex? name with
  | none => rfl
  | some p =>
    simp only [columnCells_eq_ok ht (Table.columnIndex?_lt hp)]
    rfl

variable [Quantity α]

theorem isNumericColumn_eq_ok (name : String) :
    isNumericColumn t name = .ok (t.isNumericColumn name) := by
  rw [isNumericColumn, columnValues?_eq_ok ht]
  rfl

theorem rowKey_eq_ok {positions : List Nat} (h : ∀ p ∈ positions, p < t.columnCount) {row : Row α}
    (hrow : row ∈ t.rows) : rowKey positions row = .ok (RowKey.ofRow row positions) := by
  have hcells : ∀ p ∈ positions, (item row p).map Cell.key = .ok (cellAt row p).key :=
    fun p hp => by rw [item_row ht (h p hp) hrow, ok_map]
  rw [rowKey, mapM_eq_ok hcells]
  rfl

end Indexed

/-! ## Checks -/

namespace Guarded

variable [Quantity α] {t : Table α}

/-- The table has the column, and it is numeric. -/
def checkNumeric (t : Table α) (place : Place) (name : String) : Guarded StepError Unit := do
  settle (t.checkColumn place name)
  let numeric ← look (Indexed.isNumericColumn t name)
  settle (if numeric then .ok () else refuse place (.notNumeric name))

/-- A column fit for a reduction. -/
def checkFor (t : Table α) (needsNumbers : Bool) (place : Place) (name : String) :
    Guarded StepError Unit :=
  if needsNumbers then checkNumeric t place name else settle (t.checkColumn place name)

theorem checkNumeric_eq_settle (ht : t.WellFormed) (place : Place) (name : String) :
    checkNumeric t place name = settle (t.checkNumeric place name) := by
  refine settle_bind fun _ _ => ?_
  rw [Indexed.isNumericColumn_eq_ok ht, look_ok, settle_ok_bind]
  rfl

theorem checkFor_eq_settle (ht : t.WellFormed) (needsNumbers : Bool) (place : Place)
    (name : String) :
    checkFor t needsNumbers place name = settle (t.checkFor needsNumbers place name) := by
  cases needsNumbers with
  | true => exact checkNumeric_eq_settle ht place name
  | false => rfl

end Guarded

/-! ## Scopes -/

namespace Indexed

variable {β : Type}

/-- The result under a name, found by the place of the name. -/
def get? (s : Scope β) (name : String) : Indexed (Option β) :=
  match s.names.idxOf? name with
  | some i => (item s.entries i).map fun entry => some entry.2
  | none => .ok none

theorem lookup_eq_getElem? (name : String) (entries : List (String × β)) :
    entries.lookup name =
      ((entries.map Prod.fst).idxOf? name).bind fun i => entries[i]?.map Prod.snd := by
  induction entries with
  | nil => rfl
  | cons e rest ih =>
    obtain ⟨key, value⟩ := e
    rw [List.map_cons, List.idxOf?_cons, List.lookup_cons]
    by_cases h : key = name
    · simp [h]
    · have h' : (name == key) = false := beq_eq_false_iff_ne.mpr (Ne.symm h)
      rw [h', ih]
      cases (rest.map Prod.fst).idxOf? name <;> simp [h]

theorem get?_eq_ok (s : Scope β) (name : String) : get? s name = .ok (s.get? name) := by
  have hlookup := lookup_eq_getElem? name s.entries
  rw [get?, Scope.get?, hlookup, Scope.names]
  cases hi : (s.entries.map Prod.fst).idxOf? name with
  | none => rfl
  | some i =>
    have hlt : i < s.entries.length := by
      simpa using (List.idxOf?_eq_some_iff.mp hi).1
    simp [item_of_lt hlt, hlt]

end Indexed

namespace Guarded

variable {β : Type}

/-- The result under a name that an entry at some place uses. -/
def find (s : Scope β) (place : Place) (name : String) : Guarded StepError β := do
  let value ← look (Indexed.get? s name)
  match value with
  | some value => settle (.ok value)
  | none => settle (refuse place (.undefinedName name s.names))

def pair (s : Scope β) (place : Place) (left right : String) : Guarded StepError (β × β) := do
  let x ← find s place left
  let y ← find s place right
  settle (.ok (x, y))

theorem find_eq_settle (s : Scope β) (place : Place) (name : String) :
    find s place name = settle (s.find place name) := by
  rw [find, Indexed.get?_eq_ok, look_ok, settle_ok_bind, Scope.find]
  cases s.get? name <;> rfl

theorem pair_eq_settle (s : Scope β) (place : Place) (left right : String) :
    pair s place left right = settle (s.pair place left right) := by
  rw [pair, find_eq_settle, Scope.pair]
  cases s.find place left with
  | error e => rfl
  | ok x =>
    rw [settle_ok_bind, find_eq_settle]
    cases s.find place right <;> rfl

end Guarded
end TableSteps
