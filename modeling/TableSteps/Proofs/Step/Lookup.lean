import TableSteps.Proofs.Outcome
import TableSteps.Step.Columns
import TableSteps.Step.Scope
import TableSteps.Table.WellFormed

/-! # What was checked is found

A check looks names up in the same places as the run after it, but keeps no more than that they are
there. So a column that passed a check has a position and cells, and a name that is in scope when a
config is checked is in scope when it is run: the two scopes have the same names in the same order,
whatever their results are. -/

namespace TableSteps

variable {α : Type}

namespace Table

variable {t : Table α} {place : Place} {name : String}

theorem checkColumn_eq_ok_iff : t.checkColumn place name = .ok () ↔ name ∈ t.columns := by
  rw [checkColumn, ite_refuse_eq_ok_iff, hasColumn_iff]
  simp

theorem exists_columnIndex? (h : name ∈ t.columns) : ∃ p, t.columnIndex? name = some p := by
  rw [← Option.isSome_iff_exists, isSome_columnIndex?, hasColumn_iff]
  exact h

theorem exists_columnValues? (h : name ∈ t.columns) :
    ∃ cells, t.columnValues? name = some cells := by
  obtain ⟨p, hp⟩ := exists_columnIndex? h
  exact ⟨t.cellsAt p, by simp [columnValues?, hp]⟩

variable [Quantity α]

theorem checkNumeric_eq_ok_iff :
    t.checkNumeric place name = .ok () ↔ name ∈ t.columns ∧ t.isNumericColumn name = true := by
  rw [checkNumeric, bind_eq_ok_iff]
  constructor
  · rintro ⟨u, hu, h⟩
    rw [ite_refuse_eq_ok_iff] at h
    exact ⟨checkColumn_eq_ok_iff.mp hu, h.1⟩
  · rintro ⟨hc, hn⟩
    exact ⟨(), checkColumn_eq_ok_iff.mpr hc, ite_refuse_eq_ok_iff.mpr ⟨hn, rfl⟩⟩

theorem mem_columns_of_checkFor {needsNumbers : Bool}
    (h : t.checkFor needsNumbers place name = .ok ()) : name ∈ t.columns := by
  cases needsNumbers with
  | true => exact (checkNumeric_eq_ok_iff.mp h).1
  | false => exact checkColumn_eq_ok_iff.mp h

/-! ## Checks of two tables

A check of names reads the names of the columns and which of them are numeric, and nothing else. -/

variable {u : Table α}

omit [Quantity α] in
theorem checkColumn_congr (hcolumns : t.columns = u.columns) : t.checkColumn = u.checkColumn := by
  funext place name
  rw [checkColumn, checkColumn, hasColumn, hasColumn, hcolumns]

theorem checkNumeric_congr (hcolumns : t.columns = u.columns)
    (hnumeric : t.isNumericColumn = u.isNumericColumn) : t.checkNumeric = u.checkNumeric := by
  funext place name
  rw [checkNumeric, checkNumeric, checkColumn_congr hcolumns, hnumeric]

theorem checkFor_congr (hcolumns : t.columns = u.columns)
    (hnumeric : t.isNumericColumn = u.isNumericColumn) : t.checkFor = u.checkFor := by
  funext needsNumbers place name
  rw [checkFor, checkFor, checkNumeric_congr hcolumns hnumeric, checkColumn_congr hcolumns]

end Table

namespace Scope

variable {β γ : Type} {s : Scope β} {s' : Scope γ}

theorem get?_eq_some_of_names (hn : s.names = s'.names) {name : String} {v : β}
    (h : s.get? name = some v) : ∃ w, s'.get? name = some w := by
  rw [← Option.isSome_iff_exists, isSome_get?, contains_iff, ← hn, ← contains_iff, ← isSome_get?, h]
  rfl

theorem get?_of_find {place : Place} {name : String} {v : β} (h : s.find place name = .ok v) :
    s.get? name = some v := by
  unfold find at h
  split at h
  · rename_i hv
    cases h
    exact hv
  · cases h

theorem find_of_names (hn : s.names = s'.names) {place : Place} {name : String} {v : β}
    (h : s.find place name = .ok v) : ∃ w, s'.find place name = .ok w := by
  obtain ⟨w, hw⟩ := get?_eq_some_of_names hn (get?_of_find h)
  exact ⟨w, by rw [find, hw]⟩

theorem get?_of_pair {place : Place} {left right : String} {v : β × β}
    (h : s.pair place left right = .ok v) : s.get? left = some v.1 ∧ s.get? right = some v.2 := by
  unfold pair at h
  split at h
  · cases h
  · rename_i x hx
    split at h
    · cases h
    · rename_i y hy
      cases h
      exact ⟨get?_of_find hx, get?_of_find hy⟩

/-- Two names that a scope has give a pair in every scope with the same names. -/
theorem pair_of_names (hn : s.names = s'.names) {place : Place} {left right : String} {v : β × β}
    (h : s.pair place left right = .ok v) :
    ∃ x y, s'.find place left = .ok x ∧ s'.find place right = .ok y ∧
      s'.pair place left right = .ok (x, y) := by
  unfold pair at h
  split at h
  · cases h
  · rename_i x hx
    split at h
    · cases h
    · rename_i y hy
      obtain ⟨x', hx'⟩ := find_of_names hn hx
      obtain ⟨y', hy'⟩ := find_of_names hn hy
      exact ⟨x', y', hx', hy', by rw [pair, hx', hy']⟩

/-- A name that can be given in a scope can be given in every scope with the same names. -/
theorem define_of_names (hn : s.names = s'.names) {name : String} {v : β} {u : Scope β}
    (h : s.define name v = .ok u) (w : γ) :
    s'.define name w = .ok ⟨s'.entries ++ [(name, w)]⟩ := by
  rw [define_eq_ok_iff, ← hn]
  exact ⟨(define_eq_ok_iff.mp h).1, rfl⟩

end Scope

end TableSteps
