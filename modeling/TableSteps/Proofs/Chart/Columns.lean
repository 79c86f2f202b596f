import TableSteps.Proofs.Group.Nested
import TableSteps.Proofs.Indexing.Column

/-! # Columns as chart documents show them

A document is read by its members; the columns behind it are read cell by cell, by the numbers of
their rows. The labels of a column stand in a document each once, in the order in which the rows
first show them. -/

namespace TableSteps

/-! ## Members of documents -/

/-- The member of an object under a name. -/
def Json.member? (j : Json) (key : String) : Option Json := j.members?.bind (·.get? key)

@[simp] theorem Json.member?_record (fields : List (String × Json)) (key : String) :
    (record fields).member? key = fields.reverse.lookup key := by
  rw [member?, record, object, members?, Option.bind_some, Dictionary.ofList_entries,
    Dictionary.get?_ofList]

/-! ## Labels in the order of their first rows -/

/-- The distinct labels of a list, each where it is first met. -/
structure FirstSeen (labels distinct : List String) : Prop where
  nodup : distinct.Nodup
  mem_iff (label : String) : label ∈ distinct ↔ label ∈ labels
  order : distinct.Pairwise fun a b => labels.idxOf a < labels.idxOf b

theorem firstSeen_eraseDups (labels : List String) : FirstSeen labels labels.eraseDups where
  nodup := nodup_eraseDups labels
  mem_iff _ := List.mem_eraseDups
  order := pairwise_idxOf_eraseDups labels

theorem Table.firstSeen_categories {α : Type} [Quantity α] (t : Table α) (name : String) :
    FirstSeen (t.labels name) (t.categories name) :=
  firstSeen_eraseDups _

/-! ## Cells by the numbers of their rows -/

theorem Table.cell?_eq_some {α : Type} {t : Table α} {name : String} (h : name ∈ t.columns)
    {i : Nat} {row : Row α} (hrow : t.rows[i]? = some row) :
    t.cell? i name = some (cellAt row (t.positionOf name)) := by
  rw [cell?, positionOf, columnIndex?_of_mem h, hrow, Option.getD_some]

theorem Table.cell?_eq_some_iff {α : Type} {t : Table α} {name : String} (h : name ∈ t.columns)
    {i : Nat} {cell : Cell α} :
    t.cell? i name = some cell ↔
      ∃ row, t.rows[i]? = some row ∧ cellAt row (t.positionOf name) = cell := by
  rw [cell?, positionOf, columnIndex?_of_mem h]
  cases t.rows[i]? <;> simp

end TableSteps
