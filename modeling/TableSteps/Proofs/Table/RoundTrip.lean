import Mathlib.Data.List.Sort
import TableSteps.Proofs.Step.OutputReadBack
import TableSteps.Proofs.Table.Import

/-! # Records and back

An object has its members in the order of their keys, so a table that is written as records and
read again has its columns in that order, whatever order they stood in. All else is told cell by
cell (`SortedCopy`): a cell comes back under the name of its column, empty if it held a number that
JSON has not. Once sorted, and without such numbers, a table comes back as it is. -/

namespace TableSteps

namespace Table

variable {α : Type}

/-! ## Tables by their cells -/

theorem cell?_eq_none_of_not_mem {t : Table α} {name : String} (h : name ∉ t.columns) (i : Nat) :
    t.cell? i name = none := by
  rw [cell?, columnIndex?, List.idxOf?_eq_none_iff.mpr h]

theorem cell?_eq_none_of_le {t : Table α} {i : Nat} (h : t.rowCount ≤ i) (name : String) :
    t.cell? i name = none := by
  rw [cell?, List.getElem?_eq_none h]
  cases t.columnIndex? name <;> rfl

/-- The cell under the name of a column is the one at its position. -/
theorem WellFormed.cell?_eq_getElem? {t : Table α} (ht : t.WellFormed) {i p : Nat} {row : Row α}
    (hrow : t.rows[i]? = some row) {name : String} (hname : t.columns[p]? = some name) :
    t.cell? i name = row[p]? := by
  obtain ⟨hp, rfl⟩ := List.getElem?_eq_some_iff.mp hname
  have hwidth := ht.width row (List.mem_of_getElem? hrow)
  have hidx : t.columns.idxOf t.columns[p] = p := ht.nodup.idxOf_getElem p hp
  have hpos : t.positionOf t.columns[p] = p := by
    rw [positionOf, columnIndex?_of_mem (List.getElem_mem hp), hidx, Option.getD_some]
  rw [cell?_eq_some (List.getElem_mem hp) hrow, hpos, cellAt, List.getD_eq_getElem?_getD,
    List.getElem?_eq_getElem (hwidth ▸ hp), Option.getD_some]

/-- A well-formed table is known by its columns, the number of its rows and its cells. -/
theorem WellFormed.eq_of_cell?_eq {t u : Table α} (ht : t.WellFormed) (hu : u.WellFormed)
    (hcolumns : t.columns = u.columns) (hcount : t.rowCount = u.rowCount)
    (hcells : ∀ i name, t.cell? i name = u.cell? i name) : t = u := by
  obtain ⟨columns, rows⟩ := t
  obtain ⟨_, rows'⟩ := u
  obtain rfl : columns = _ := hcolumns
  have hrows : rows = rows' := by
    refine List.ext_getElem hcount fun i hi hi' => List.ext_getElem? fun p => ?_
    have hrow : rows[i]? = some rows[i] := List.getElem?_eq_getElem hi
    have hrow' : rows'[i]? = some rows'[i] := List.getElem?_eq_getElem hi'
    by_cases hp : p < columns.length
    · have hname : columns[p]? = some columns[p] := List.getElem?_eq_getElem hp
      rw [← ht.cell?_eq_getElem? hrow hname, ← hu.cell?_eq_getElem? hrow' hname, hcells]
    · rw [List.getElem?_eq_none, List.getElem?_eq_none]
      · rw [hu.width _ (List.mem_of_getElem? hrow')]
        exact Nat.le_of_not_lt hp
      · rw [ht.width _ (List.mem_of_getElem? hrow)]
        exact Nat.le_of_not_lt hp
  rw [hrows]

end Table

variable {α : Type} [WireQuantity α]

/-! ## Cells written and read -/

theorem Cell.stored_stored (c : Cell α) : c.stored.stored = c.stored :=
  Cell.stored_eq_self_iff.mpr c.isFinite_stored

theorem Cell.ofJson?_of_quantity {j : Json} {x : α} (h : WireQuantity.ofJson? j = some x) :
    Cell.ofJson? j = some (.number x) := by
  cases j with
  | int n | float y =>
    cases h
    rfl
  | null | bool b | str s | arr items | obj fields => cases h

/-- A cell is read from what it is written to, but for a number that is not finite. -/
theorem Cell.ofJson?_toJson [FiniteLaws α] [NullLaws α] (c : Cell α) :
    Cell.ofJson? c.toJson = some c.stored := by
  cases c with
  | number x =>
    cases hx : Quantity.isFinite x with
    | true =>
      rw [stored, if_pos hx]
      exact ofJson?_of_quantity (FiniteLaws.ofJson?_toJson hx)
    | false =>
      rw [stored, if_neg (Bool.eq_false_iff.mp hx), toJson, NullLaws.toJson_of_not_isFinite hx]
      rfl
  | empty | boolean b | text s => rfl

namespace Table

variable {t u v : Table α}

/-! ## A row as a record -/

/-- The member of a row's record under a name is the cell in the column of that name. -/
theorem member?_of_row (ht : t.WellFormed) {i : Nat} {row : Row α} (hrow : t.rows[i]? = some row)
    (name : String) :
    (Json.record ((t.columns.zip row).map fun (name, cell) => (name, cell.toJson))).member? name =
      (t.cell? i name).map Cell.toJson := by
  have hwidth := ht.width row (List.mem_of_getElem? hrow)
  have hkeys : ((t.columns.zip row).map fun x => (x.1, x.2.toJson)).map Prod.fst = t.columns := by
    rw [List.map_map]
    exact List.map_fst_zip (Nat.le_of_eq hwidth.symm)
  rw [Json.member?_record, ← Dictionary.get?_ofList]
  by_cases hname : name ∈ t.columns
  · obtain ⟨p, hp⟩ := List.mem_iff_getElem?.mp hname
    obtain ⟨hlt, -⟩ := List.getElem?_eq_some_iff.mp hp
    have hcell : row[p]? = some row[p] := List.getElem?_eq_getElem (hwidth ▸ hlt)
    have hmem : (name, row[p]) ∈ t.columns.zip row :=
      List.mem_of_getElem? (List.getElem?_zip_eq_some.mpr ⟨hp, hcell⟩)
    have hnodup := ht.nodup
    rw [← hkeys] at hnodup
    rw [ht.cell?_eq_getElem? hrow hp, hcell, Option.map_some]
    exact Dictionary.get?_ofList_of_mem hnodup (List.mem_map_of_mem hmem)
  · rw [cell?_eq_none_of_not_mem hname, Option.map_none, Option.eq_none_iff_forall_ne_some]
    intro value hvalue
    have hmem := List.mem_map_of_mem (f := Prod.fst) (Dictionary.mem_of_get?_ofList hvalue)
    exact hname (hkeys ▸ hmem)

/-- At the number of each row stands its record. -/
theorem exists_row_of_toRecords {i : Nat} {record : Json} (h : t.toRecords[i]? = some record) :
    ∃ row, t.rows[i]? = some row ∧
      record = Json.record ((t.columns.zip row).map fun (name, cell) => (name, cell.toJson)) := by
  rw [toRecords, List.getElem?_map] at h
  obtain ⟨row, hrow, rfl⟩ := Option.map_eq_some_iff.mp h
  exact ⟨row, hrow, rfl⟩

theorem member?_toRecords (ht : t.WellFormed) {i : Nat} {record : Json}
    (h : t.toRecords[i]? = some record) (name : String) :
    record.member? name = (t.cell? i name).map Cell.toJson := by
  obtain ⟨row, hrow, rfl⟩ := exists_row_of_toRecords h
  exact member?_of_row ht hrow name

/-- Every record has a member for each column and no others. -/
theorem isSome_member?_toRecords_iff (ht : t.WellFormed) {record : Json}
    (h : record ∈ t.toRecords) {name : String} :
    (record.member? name).isSome ↔ name ∈ t.columns := by
  obtain ⟨i, hi⟩ := List.mem_iff_getElem?.mp h
  obtain ⟨row, hrow, -⟩ := exists_row_of_toRecords hi
  rw [member?_toRecords ht hi, Option.isSome_map]
  refine ⟨fun hsome => ?_, fun hname => by rw [cell?_eq_some hname hrow, Option.isSome_some]⟩
  by_contra hname
  rw [cell?_eq_none_of_not_mem hname] at hsome
  cases hsome

/-! ## Sorted copies -/

/-- The same rows under the same columns, but these in the order of their bytes and every number
that is not finite left out. -/
structure SortedCopy (t u : Table α) : Prop where
  wellFormed : u.WellFormed
  rowCount : u.rowCount = t.rowCount
  columns : u.columns.Perm t.columns
  sorted : u.columns.Pairwise fun a b => Text.bytes a < Text.bytes b
  cells : ∀ i name, u.cell? i name = (t.cell? i name).map Cell.stored

/-- All records have all columns, so the first record brings them all, in their order. -/
theorem headedBy_toRecords (ht : t.WellFormed) (hrows : t.rows ≠ []) {columns : List String}
    (h : HeadedBy t.toRecords columns) :
    columns.Perm t.columns ∧ columns.Pairwise fun a b => Text.bytes a < Text.bytes b := by
  obtain ⟨first, rest, hrecords⟩ : ∃ first rest, t.toRecords = first :: rest :=
    List.exists_cons_of_ne_nil (by simpa [toRecords] using hrows)
  have hfirst : first ∈ t.toRecords := hrecords ▸ List.mem_cons_self
  have hmem (name : String) : name ∈ columns ↔ name ∈ t.columns := by
    rw [h.mem_iff]
    constructor
    · rintro ⟨record, hrecord, hsome⟩
      exact (isSome_member?_toRecords_iff ht hrecord).mp hsome
    · exact fun hname => ⟨first, hfirst, (isSome_member?_toRecords_iff ht hfirst).mpr hname⟩
  have hzero {name : String} (hname : name ∈ columns) : firstWith t.toRecords name = 0 := by
    have hsome := (isSome_member?_toRecords_iff ht hfirst).mpr ((hmem name).mp hname)
    rw [firstWith, hrecords, List.findIdx_cons, hsome, cond_true]
  refine ⟨(List.perm_ext_iff_of_nodup h.nodup ht.nodup).mpr hmem, ?_⟩
  refine h.order.imp_of_mem fun ha hb hab => ?_
  rw [hzero ha, hzero hb] at hab
  simpa using hab

/-- What is read of a sorted copy of a sorted copy is that copy. -/
theorem SortedCopy.eq (h : SortedCopy t u) (h' : SortedCopy u v) : v = u := by
  refine h'.wellFormed.eq_of_cell?_eq h.wellFormed ?_ h'.rowCount fun i name => ?_
  · exact h'.columns.eq_of_pairwise
      (fun a b _ _ hab hba => absurd hba (List.lt_asymm hab)) h'.sorted h.sorted
  · rw [h'.cells, h.cells, Option.map_map]
    cases t.cell? i name with
    | none => rfl
    | some cell => rw [Option.map_some, Option.map_some, Function.comp_apply, Cell.stored_stored]

variable [FiniteLaws α] [NullLaws α]

theorem isFlat_of_mem_toRecords (ht : t.WellFormed) : ∀ record ∈ t.toRecords, IsFlat record := by
  intro record hrecord
  obtain ⟨i, hi⟩ := List.mem_iff_getElem?.mp hrecord
  refine ⟨?_, fun name value hvalue => ?_⟩
  · obtain ⟨row, -, rfl⟩ := exists_row_of_toRecords hi
    rfl
  · rw [member?_toRecords ht hi] at hvalue
    obtain ⟨cell, -, rfl⟩ := Option.map_eq_some_iff.mp hvalue
    exact isSome_ofJson?_iff.mp (Option.isSome_of_eq_some cell.ofJson?_toJson)

theorem sortedCopy_of_holds (ht : t.WellFormed) (hrows : t.rows ≠ [])
    (h : Holds t.toRecords u) : SortedCopy t u := by
  obtain ⟨hperm, hsorted⟩ := headedBy_toRecords ht hrows h.headed
  have hcount : u.rowCount = t.rowCount := by
    rw [h.rowCount, toRecords, List.length_map, rowCount]
  refine ⟨h.wellFormed, hcount, hperm, hsorted, fun i name => ?_⟩
  by_cases hname : name ∈ t.columns
  · by_cases hi : i < t.rowCount
    · have hrow : t.rows[i]? = some t.rows[i] := List.getElem?_eq_getElem hi
      have hrecord : t.toRecords[i]? = some (Json.record
          ((t.columns.zip t.rows[i]).map fun (name, cell) => (name, cell.toJson))) := by
        rw [toRecords, List.getElem?_map, hrow, Option.map_some]
      rw [h.cells i _ hrecord name (hperm.mem_iff.mpr hname), cellOfRecord?,
        member?_toRecords ht hrecord, cell?_eq_some hname hrow, Option.map_some, Option.map_some]
      exact Cell.ofJson?_toJson _
    · have hi' : t.rowCount ≤ i := Nat.le_of_not_lt hi
      rw [cell?_eq_none_of_le (hcount ▸ hi'), cell?_eq_none_of_le hi', Option.map_none]
  · rw [cell?_eq_none_of_not_mem (mt hperm.mem_iff.mp hname), cell?_eq_none_of_not_mem hname,
      Option.map_none]

theorem exists_sortedCopy (ht : t.WellFormed) (hrows : t.rows ≠ []) :
    ∃ u, ofRecords t.toRecords = .ok u ∧ SortedCopy t u := by
  obtain ⟨u, hu⟩ := (exists_ofRecords_eq_ok_iff (α := α)).mpr (isFlat_of_mem_toRecords ht)
  exact ⟨u, hu, sortedCopy_of_holds ht hrows (holds_of_ofRecords hu)⟩

/-- A well-formed table that has rows comes back from its records as its sorted copy, and that copy
comes back as it is. -/
theorem ofRecords_toRecords (ht : t.WellFormed) (hrows : t.rows ≠ []) :
    ∃ u, ofRecords t.toRecords = .ok u ∧ SortedCopy t u ∧ ofRecords u.toRecords = .ok u := by
  obtain ⟨u, hu, hcopy⟩ := exists_sortedCopy ht hrows
  have hrows' : u.rows ≠ [] := fun hnil => hrows (List.eq_nil_of_length_eq_zero
    (hcopy.rowCount.symm.trans (congrArg List.length hnil)))
  obtain ⟨v, hv, hcopy'⟩ := exists_sortedCopy hcopy.wellFormed hrows'
  exact ⟨u, hu, hcopy, hcopy.eq hcopy' ▸ hv⟩

/-- The columns change places, and an infinite figure is left out. -/
theorem ofRecords_toRecords_infinite :
    let t : Table Float :=
      ⟨["sales", "region"],
        [[.number 10, .text "North"],
          [.number (Binary64.ofMagnitude false Binary64.limit), .text "South"]]⟩
    t.WellFormed ∧ t.rows ≠ [] ∧ ∃ u, ofRecords t.toRecords = .ok u ∧ SortedCopy t u ∧
      ofRecords u.toRecords = .ok u ∧ u.cell? 0 "sales" = some (.number 10) ∧
      u.cell? 1 "sales" = some .empty := by
  intro t
  have ht : t.WellFormed := ⟨by decide, by decide⟩
  have hrows : t.rows ≠ [] := List.cons_ne_nil _ _
  obtain ⟨u, hu, hcopy, hagain⟩ := ofRecords_toRecords ht hrows
  refine ⟨ht, hrows, u, hu, hcopy, hagain, ?_, ?_⟩
  · rw [hcopy.cells]
    decide +kernel
  · rw [hcopy.cells]
    decide +kernel

end Table
end TableSteps
