import TableSteps.Chart.Column
import TableSteps.Chart.Options
import TableSteps.Proofs.Indexing.Lookup

/-! # Columns of charts read by position

A chart names columns that its options have been checked for. Their cells are read row by row, and
what was read is found again by the number of its row: each list has an item for every row. -/

namespace TableSteps

variable {α : Type} {t : Table α}

/-! ## Columns that are there -/

namespace Options

variable {options : Options} {key name : String}

theorem existing_mem {found : String} (h : existing t key name = .ok found) :
    found ∈ t.columns := by
  unfold existing at h
  split at h
  · rename_i hname
    cases h
    exact Table.hasColumn_iff.mp hname
  · cases h

theorem optionalColumn_mem (h : optionalColumn options t key = .ok (some name)) :
    name ∈ t.columns := by
  unfold optionalColumn at h
  split at h
  · cases h
  · obtain ⟨found, hfound, hname⟩ := map_eq_ok_iff.mp h
    cases hname
    exact existing_mem hfound
  · cases h

theorem column_mem (h : column options t key = .ok name) : name ∈ t.columns := by
  unfold column at h
  split at h
  · cases h
  · cases h
  · rename_i hname
    cases h
    exact optionalColumn_mem hname

theorem columns_mem {names : List String} (h : columns options t key = .ok names) :
    ∀ name ∈ names, name ∈ t.columns := by
  unfold columns at h
  split at h
  · cases h
  · obtain ⟨found, hfound, rfl⟩ := map_eq_ok_iff.mp h
    simpa using existing_mem hfound
  · intro name hname
    obtain ⟨item, -, hitem⟩ := exists_of_mem_mapM h hname
    unfold listedColumn at hitem
    split at hitem
    · exact existing_mem hitem
    · cases hitem
  · cases h

end Options

namespace Table

variable {name : String}

theorem positionOf_lt (h : name ∈ t.columns) : t.positionOf name < t.columnCount := by
  rw [positionOf, columnIndex?_of_mem h]
  exact List.idxOf_lt_length_of_mem h

theorem cells_eq_map (h : name ∈ t.columns) :
    t.cells name = t.rows.map (cellAt · (t.positionOf name)) := by
  rw [cells, positionOf, columnValues?, columnIndex?_of_mem h]
  rfl

theorem numbers_eq_map [Quantity α] (h : name ∈ t.columns) :
    t.numbers name = t.rows.map fun row => (cellAt row (t.positionOf name)).asNumber := by
  rw [numbers, cells_eq_map h, List.map_map]
  rfl

theorem labels_eq_map [Quantity α] (h : name ∈ t.columns) :
    t.labels name = t.rows.map fun row => (cellAt row (t.positionOf name)).label := by
  rw [labels, cells_eq_map h, List.map_map]
  rfl

end Table

/-! ## Cells, numbers and labels -/

namespace Indexed

def cells (t : Table α) (name : String) : Indexed (List (Cell α)) :=
  (columnValues? t name).map fun cells => cells.getD []

/-- The items at some places. -/
def pick {β : Type} (xs : List β) (places : List Nat) : Indexed (List β) := places.mapM (item xs)

theorem cells_eq_ok (ht : t.WellFormed) (name : String) : cells t name = .ok (t.cells name) := by
  rw [cells, columnValues?_eq_ok ht]
  rfl

section Items

variable {β γ : Type} {xs : List β} (f : β → γ)

/-- What was read from an item is found again by the item's number. -/
theorem item_map_of_mem_zipIdx {x : β × Nat} (h : x ∈ xs.zipIdx) :
    item (xs.map f) x.2 = .ok (f x.1) := by
  refine item_eq_ok ?_
  rw [List.getElem?_map, List.mem_zipIdx_iff_getElem?.mp h]
  rfl

theorem pick_map_of_mem_zipIdx {picked : List (β × Nat)} (h : ∀ x ∈ picked, x ∈ xs.zipIdx) :
    pick (xs.map f) (picked.map Prod.snd) = .ok (picked.map fun x => f x.1) := by
  rw [pick, List.mapM_map]
  exact mapM_eq_ok fun x hx => item_map_of_mem_zipIdx f (h x hx)

end Items

variable [Quantity α]

def numbers (t : Table α) (name : String) : Indexed (List (Option α)) :=
  (cells t name).map fun cells => cells.map Cell.asNumber

def labels (t : Table α) (name : String) : Indexed (List String) :=
  (cells t name).map fun cells => cells.map Cell.label

theorem numbers_eq_ok (ht : t.WellFormed) (name : String) :
    numbers t name = .ok (t.numbers name) := by
  rw [numbers, cells_eq_ok ht]
  rfl

theorem labels_eq_ok (ht : t.WellFormed) (name : String) :
    labels t name = .ok (t.labels name) := by
  rw [labels, cells_eq_ok ht]
  rfl

end Indexed
end TableSteps
