import TableSteps.Binary64.Quantity
import TableSteps.Proofs.Chart.Columns
import TableSteps.Proofs.Outcome
import TableSteps.Proofs.Text.ByteOrder

/-! # Records as a table

A list of records is read twice. The first reading takes every record for an object and collects the
keys, which become the columns; the second puts a cell into every column, record by record. So a
value that is no object is refused before any cell is read, however early a nested value stands, and
a nested value is refused where the second reading meets it: in the first record that has one, under
the first column of the table.

The columns are told by the records alone (`HeadedBy`): each key once, a key of an earlier record
before those that only later ones have, and the keys that one record brings in the order of their
bytes. -/

namespace TableSteps

/-- A traversal fails with the error of the first item that has one. -/
theorem exists_of_mapM_eq_error {β γ ε : Type} {f : β → Except ε γ} {xs : List β} {e : ε}
    (h : xs.mapM f = .error e) :
    ∃ before x after, xs = before ++ x :: after ∧ (∀ y ∈ before, ∃ v, f y = .ok v) ∧
      f x = .error e := by
  induction xs with
  | nil => cases h
  | cons x rest ih =>
    rw [List.mapM_cons] at h
    cases hx : f x with
    | error e' =>
      rw [hx] at h
      cases h
      exact ⟨[], x, rest, rfl, by simp, hx⟩
    | ok v =>
      rw [hx, ok_bind, bind_eq_error_iff] at h
      obtain h | ⟨_, -, h⟩ := h
      · obtain ⟨before, y, after, rfl, hbefore, hy⟩ := ih h
        exact ⟨x :: before, y, after, rfl, List.forall_mem_cons.mpr ⟨⟨v, hx⟩, hbefore⟩, hy⟩
      · cases h

namespace Table

/-! ## What records say -/

/-- The number of the first record that has a key. -/
def firstWith (records : List Json) (key : String) : Nat :=
  records.findIdx fun record => (record.member? key).isSome

/-- Columns under which all values of some records have a place. -/
structure HeadedBy (records : List Json) (columns : List String) : Prop where
  nodup : columns.Nodup
  mem_iff (name : String) : name ∈ columns ↔ ∃ record ∈ records, (record.member? name).isSome
  order : columns.Pairwise fun a b => firstWith records a < firstWith records b ∨
    firstWith records a = firstWith records b ∧ Text.bytes a < Text.bytes b

/-- The cell of a record in a column; none if a nested value stands there. -/
def cellOfRecord? {α : Type} [WireQuantity α] (record : Json) (name : String) : Option (Cell α) :=
  match record.member? name with
  | some value => Cell.ofJson? value
  | none => some .empty

/-- An object without nested values. -/
structure IsFlat (record : Json) : Prop where
  isObject : record.members?.isSome
  isScalar : ∀ name value, record.member? name = some value → value.isScalar = true

variable {α : Type} [WireQuantity α]

/-- One row for each record, in order: in every column the cell of the record's value, or an empty
one if the record has none. -/
structure Holds (records : List Json) (t : Table α) : Prop where
  headed : HeadedBy records t.columns
  rowCount : t.rowCount = records.length
  wellFormed : t.WellFormed
  cells : ∀ (i : Nat) (record : Json), records[i]? = some record → ∀ name ∈ t.columns,
    t.cell? i name = cellOfRecord? record name

/-- What importing some records comes to. -/
inductive Imported (records : List Json) : Except TableFault (Table α) → Prop where
  | table {t : Table α} : (∀ record ∈ records, IsFlat record) → Holds records t →
    Imported records (.ok t)
  /-- The first value that is no object, whatever the records before it hold. -/
  | notRecord {before after : List Json} {record : Json} : records = before ++ record :: after →
    (∀ r ∈ before, r.members?.isSome) → record.members? = none →
    Imported records (.error (.notRecord before.length))
  /-- Among objects, the first nested value of the first record that has one. -/
  | nested {before after : List Json} {record value : Json} {left right : List String}
      {column : String} :
    (∀ r ∈ records, r.members?.isSome) → records = before ++ record :: after →
    (∀ r ∈ before, IsFlat r) → HeadedBy records (left ++ column :: right) →
    (∀ name ∈ left, ∀ v, record.member? name = some v → v.isScalar = true) →
    record.member? column = some value → value.isScalar = false →
    Imported records (.error (.nested column))

/-! ## The first reading -/

theorem exists_of_recordMembers_go_eq_error {records : List Json} {i : Nat} {fault : TableFault}
    (h : recordMembers.go i records = .error fault) :
    ∃ before record after, records = before ++ record :: after ∧
      (∀ r ∈ before, r.members?.isSome) ∧ record.members? = none ∧
      fault = .notRecord (i + before.length) := by
  induction records generalizing i with
  | nil => cases h
  | cons record rest ih =>
    rw [recordMembers.go] at h
    cases hrecord : record.members? with
    | none =>
      rw [hrecord] at h
      cases h
      exact ⟨[], record, rest, rfl, by simp, hrecord, rfl⟩
    | some members =>
      rw [hrecord] at h
      obtain ⟨before, other, after, rfl, hbefore, hother, rfl⟩ := ih (map_eq_error_iff.mp h)
      refine ⟨record :: before, other, after, rfl, ?_, hother, ?_⟩
      · exact List.forall_mem_cons.mpr ⟨by simp [hrecord], hbefore⟩
      · rw [List.length_cons, Nat.add_right_comm, Nat.add_assoc]

/-! ## The columns -/

section Columns

variable {records : List Json} {ms : List (Dictionary Json)}

theorem isSome_get?_iff {d : Dictionary Json} {key : String} :
    (d.get? key).isSome ↔ key ∈ d.keys := by
  rw [Option.isSome_iff_ne_none, ne_eq, Dictionary.get?_eq_none_iff, not_not]

/-- In a list that goes up, the item at the smaller place is the smaller. -/
theorem lt_of_idxOf_lt {keys : List String} (hkeys : keys.Pairwise (· < ·)) {a b : String}
    (ha : a ∈ keys) (hb : b ∈ keys) (h : keys.idxOf a < keys.idxOf b) : a < b := by
  have hlt := List.pairwise_iff_getElem.mp hkeys _ _ (List.idxOf_lt_length_iff.mpr ha)
    (List.idxOf_lt_length_iff.mpr hb) h
  rwa [List.getElem_idxOf, List.getElem_idxOf] at hlt

/-- Of two keys that are met one after the other, the first stands in an earlier record, or before
the other in the record that first has both. -/
theorem first_or_less_of_idxOf_lt {a b : String} (ha : a ∈ ms.flatMap Dictionary.keys)
    (hb : b ∈ ms.flatMap Dictionary.keys)
    (h : (ms.flatMap Dictionary.keys).idxOf a < (ms.flatMap Dictionary.keys).idxOf b) :
    let first (key : String) := ms.findIdx fun m => (m.get? key).isSome
    first a < first b ∨ first a = first b ∧ a < b := by
  induction ms with
  | nil => simp at ha
  | cons m rest ih =>
    have hsome (key : String) : (m.get? key).isSome = decide (key ∈ m.keys) := by
      rw [Bool.eq_iff_iff, isSome_get?_iff, decide_eq_true_eq]
    rw [List.flatMap_cons, List.idxOf_append, List.idxOf_append] at h
    rw [List.flatMap_cons, List.mem_append] at ha hb
    simp only [List.findIdx_cons, hsome]
    by_cases hma : a ∈ m.keys <;> by_cases hmb : b ∈ m.keys
    · rw [if_pos hma, if_pos hmb] at h
      simpa [hma, hmb] using lt_of_idxOf_lt (List.pairwise_map.mpr m.sorted) hma hmb h
    · simp [hma, hmb]
    · rw [if_neg hma, if_pos hmb] at h
      have := List.idxOf_lt_length_iff.mpr hmb
      omega
    · rw [if_neg hma, if_neg hmb] at h
      simpa [hma, hmb] using ih (ha.resolve_left hma) (hb.resolve_left hmb) (by omega)

/-- The members of the records, key by key. -/
theorem map_member?_eq (h : records.map Json.members? = ms.map some) (key : String) :
    records.map (·.member? key) = ms.map (·.get? key) := by
  have hbind := congrArg (List.map fun o : Option (Dictionary Json) => o.bind (·.get? key)) h
  simpa [Function.comp_def, Json.member?] using hbind

theorem headedBy_recordColumns (h : records.map Json.members? = ms.map some) :
    HeadedBy records (recordColumns ms) where
  nodup := nodup_eraseDups _
  mem_iff name := by
    have hmembers : (∃ record ∈ records, (record.member? name).isSome) ↔
        ∃ o ∈ records.map (·.member? name), o.isSome := by simp
    rw [hmembers, map_member?_eq h, recordColumns, List.mem_eraseDups, List.mem_flatMap]
    simp [isSome_get?_iff]
  order := by
    have hfirst (key : String) :
        firstWith records key = ms.findIdx fun m => (m.get? key).isSome := by
      have hidx := congrArg (List.findIdx Option.isSome) (map_member?_eq h key)
      rwa [List.findIdx_map, List.findIdx_map] at hidx
    refine (pairwise_idxOf_eraseDups _).imp_of_mem fun ha hb hab => ?_
    rw [hfirst, hfirst, ← Text.lt_iff_bytes_lt]
    exact first_or_less_of_idxOf_lt (List.mem_eraseDups.mp ha) (List.mem_eraseDups.mp hb) hab

end Columns

/-! ## The second reading -/

section Cells

variable {record : Json} {members : Dictionary Json} {columns : List String} {row : Row α}

theorem isSome_ofJson?_iff {value : Json} :
    (Cell.ofJson? value : Option (Cell α)).isSome ↔ value.isScalar = true := by
  cases value <;> simp [Cell.ofJson?, Json.isScalar]

theorem isSome_cellOfRecord?_iff {name : String} :
    (cellOfRecord? record name : Option (Cell α)).isSome ↔
      ∀ value, record.member? name = some value → value.isScalar = true := by
  unfold cellOfRecord?
  cases record.member? name with
  | none => simp
  | some value => simpa using isSome_ofJson?_iff

theorem recordCell_eq (h : record.members? = some members) (name : String) :
    recordCell members name =
      match (cellOfRecord? record name : Option (Cell α)) with
      | some cell => .ok cell
      | none => .error (.nested name) := by
  rw [cellOfRecord?, Json.member?, h, Option.bind_some, recordCell]
  cases members.get? name with
  | none => rfl
  | some value => cases hvalue : (Cell.ofJson? value : Option (Cell α)) <;> simp [hvalue]

theorem recordCell_eq_ok_iff (h : record.members? = some members) {name : String} {cell : Cell α} :
    recordCell members name = .ok cell ↔ cellOfRecord? record name = some cell := by
  rw [recordCell_eq h]
  cases (cellOfRecord? record name : Option (Cell α)) <;> simp

/-- A record with a row holds no nested value: the row has a cell for each of its keys. -/
theorem isFlat_of_row (h : record.members? = some members)
    (hkeys : ∀ name, (record.member? name).isSome → name ∈ columns)
    (hrow : columns.mapM (recordCell members) = .ok row) : IsFlat record where
  isObject := by rw [h, Option.isSome_some]
  isScalar name value hvalue := by
    have hname : name ∈ columns := hkeys name (by rw [hvalue, Option.isSome_some])
    obtain ⟨cell, hcell⟩ := exists_of_mapM_eq_ok hrow hname
    have hsome := (recordCell_eq_ok_iff h).mp hcell
    exact isSome_cellOfRecord?_iff.mp (by rw [hsome, Option.isSome_some]) value hvalue

/-- The first column of a record that stops it holds a nested value. -/
theorem exists_nested_of_row_eq_error {fault : TableFault} (h : record.members? = some members)
    (hrow : columns.mapM (recordCell (α := α) members) = .error fault) :
    ∃ left column right value, columns = left ++ column :: right ∧ fault = .nested column ∧
      (∀ name ∈ left, ∀ v, record.member? name = some v → v.isScalar = true) ∧
      record.member? column = some value ∧ value.isScalar = false := by
  obtain ⟨left, column, right, rfl, hleft, hcolumn⟩ := exists_of_mapM_eq_error hrow
  rw [recordCell_eq h] at hcolumn
  cases hcell : (cellOfRecord? record column : Option (Cell α)) with
  | some cell =>
    rw [hcell] at hcolumn
    cases hcolumn
  | none =>
    rw [hcell] at hcolumn
    cases hcolumn
    have hnone : ¬ (cellOfRecord? record column : Option (Cell α)).isSome := by simp [hcell]
    rw [isSome_cellOfRecord?_iff] at hnone
    push Not at hnone
    obtain ⟨value, hvalue, hnested⟩ := hnone
    refine ⟨left, column, right, value, rfl, rfl, fun name hname => ?_, hvalue,
      by simpa using hnested⟩
    obtain ⟨cell, hok⟩ := hleft name hname
    exact isSome_cellOfRecord?_iff.mp (by rw [(recordCell_eq_ok_iff h).mp hok, Option.isSome_some])

end Cells

/-! ## The outcome -/

section Outcome

variable {records : List Json} {ms : List (Dictionary Json)}

theorem exists_members_of_getElem? (h : records.map Json.members? = ms.map some) {i : Nat}
    {record : Json} (hi : records[i]? = some record) :
    ∃ m, ms[i]? = some m ∧ record.members? = some m := by
  have hat := congrArg (·[i]?) h
  simp only [List.getElem?_map, hi, Option.map_some] at hat
  obtain ⟨m, hm, heq⟩ := Option.map_eq_some_iff.mp hat.symm
  exact ⟨m, hm, heq.symm⟩

theorem exists_members_of_mem (h : records.map Json.members? = ms.map some) {record : Json}
    (hrecord : record ∈ records) : ∃ m ∈ ms, record.members? = some m := by
  obtain ⟨i, hi⟩ := List.mem_iff_getElem?.mp hrecord
  obtain ⟨m, hm, hmembers⟩ := exists_members_of_getElem? h hi
  exact ⟨m, List.mem_of_getElem? hm, hmembers⟩

/-- Each record has its row, at the same number. -/
theorem holds_of_rows (h : records.map Json.members? = ms.map some) {rows : List (Row α)}
    (hrows : ms.mapM (fun m => (recordColumns ms).mapM (recordCell m)) = .ok rows)
    (hwell : (⟨recordColumns ms, rows⟩ : Table α).WellFormed) :
    Holds records (⟨recordColumns ms, rows⟩ : Table α) where
  headed := headedBy_recordColumns h
  rowCount := by
    have hlength := congrArg List.length (mapM_eq_ok_iff.mp hrows)
    have hlength' := congrArg List.length h
    simp only [List.length_map] at hlength hlength'
    rw [rowCount, ← hlength, hlength']
  wellFormed := hwell
  cells i record hi name hname := by
    obtain ⟨m, hm, hmembers⟩ := exists_members_of_getElem? h hi
    obtain ⟨row, hrow, hok⟩ := exists_getElem?_of_mapM_eq_ok hrows hm
    have hp := columnIndex?_of_mem hname
    obtain ⟨cell, hcell, hread⟩ :=
      exists_getElem?_of_mapM_eq_ok hok (columns_getElem?_columnIndex? hp)
    rw [(recordCell_eq_ok_iff hmembers).mp hread, cell?_eq_some hname hrow, positionOf, hp,
      Option.getD_some, cellAt, List.getD_eq_getElem?_getD, hcell, Option.getD_some]

theorem imported_of_members (h : records.map Json.members? = ms.map some) :
    Imported (α := α) records (ofRecords records) := by
  have hobjects : ∀ r ∈ records, r.members?.isSome := fun r hr => by
    obtain ⟨m, -, hm⟩ := exists_members_of_mem h hr
    rw [hm, Option.isSome_some]
  have hkeys : ∀ r ∈ records, ∀ name, (r.member? name).isSome → name ∈ recordColumns ms :=
    fun r hr name hname => ((headedBy_recordColumns h).mem_iff name).mpr ⟨r, hr, hname⟩
  have hread : ofRecords (α := α) records =
      (ms.mapM fun m => (recordColumns ms).mapM (recordCell m)).map (⟨recordColumns ms, ·⟩) := by
    rw [ofRecords, recordMembers_eq_ok_iff.mpr h]
    rfl
  cases hrows : ms.mapM fun m => (recordColumns ms).mapM (recordCell (α := α) m) with
  | ok rows =>
    have hok : ofRecords records = .ok (⟨recordColumns ms, rows⟩ : Table α) := by
      rw [hread, hrows]
      rfl
    rw [hok]
    refine .table (fun r hr => ?_) (holds_of_rows h hrows (wellFormed_ofRecords hok))
    obtain ⟨m, hm, hmembers⟩ := exists_members_of_mem h hr
    obtain ⟨row, hrow⟩ := exists_of_mapM_eq_ok hrows hm
    exact isFlat_of_row hmembers (hkeys r hr) hrow
  | error fault =>
    rw [hread, hrows]
    obtain ⟨mbefore, m, mafter, hms, hbefore, hm⟩ := exists_of_mapM_eq_error hrows
    obtain ⟨before, rest, rfl, hmbefore, hrest⟩ := List.map_eq_append_iff.mp
      (h.trans ((congrArg (List.map some) hms).trans (List.map_append ..)))
    obtain ⟨record, after, rfl, hmembers, -⟩ := List.map_eq_cons_iff.mp
      (hrest.trans (List.map_cons ..))
    obtain ⟨left, column, right, value, hcolumns, rfl, hleft, hvalue, hnested⟩ :=
      exists_nested_of_row_eq_error hmembers hm
    refine .nested hobjects rfl (fun r hr => ?_) (hcolumns ▸ headedBy_recordColumns h) hleft hvalue
      hnested
    obtain ⟨m', hm', hr'⟩ := exists_members_of_mem hmbefore hr
    obtain ⟨row, hrow⟩ := hbefore m' hm'
    exact isFlat_of_row hr' (hkeys r (List.mem_append_left _ hr)) hrow

theorem imported_ofRecords (records : List Json) :
    Imported (α := α) records (ofRecords records) := by
  cases h : recordMembers records with
  | ok ms => exact imported_of_members (recordMembers_eq_ok_iff.mp h)
  | error fault =>
    obtain ⟨before, record, after, hrecords, hbefore, hrecord, rfl⟩ :=
      exists_of_recordMembers_go_eq_error h
    have herror : ofRecords (α := α) records = .error (.notRecord before.length) := by
      rw [ofRecords, h, Nat.zero_add]
      rfl
    rw [herror]
    exact .notRecord hrecords hbefore hrecord

theorem exists_ofRecords_eq_ok_iff :
    (∃ t : Table α, ofRecords records = .ok t) ↔ ∀ record ∈ records, IsFlat record := by
  have himported := imported_ofRecords (α := α) records
  generalize ofRecords (α := α) records = outcome at himported
  constructor
  · rintro ⟨t, rfl⟩
    cases himported with
    | table hflat _ => exact hflat
  · intro hflat
    cases himported with
    | @table t _ _ => exact ⟨t, rfl⟩
    | @notRecord before after record hrecords _ hrecord =>
      have hobject := (hflat record (by simp [hrecords])).isObject
      rw [hrecord] at hobject
      cases hobject
    | @nested before after record value left right column _ hrecords _ _ _ hvalue hnested =>
      have hscalar := (hflat record (by simp [hrecords])).isScalar column value hvalue
      rw [hnested] at hscalar
      cases hscalar

theorem holds_of_ofRecords {t : Table α} (h : ofRecords records = .ok t) : Holds records t := by
  have himported := imported_ofRecords (α := α) records
  rw [h] at himported
  cases himported with
  | table _ hholds => exact hholds

end Outcome

/-- Records make a table exactly when each is an object without nested values. Then the table has a
row for each, under all their keys; otherwise the error names the first value that is no object, or
where all are objects the first nested value. -/
theorem ofRecords_exact (records : List Json) :
    ((∃ t : Table α, ofRecords records = .ok t) ↔ ∀ record ∈ records, IsFlat record) ∧
      Imported (α := α) records (ofRecords records) :=
  ⟨exists_ofRecords_eq_ok_iff, imported_ofRecords records⟩

/-- A key that only the second record has, and a nested value in front of one that is no object. -/
theorem ofRecords_exact_samples :
    let sparse : List Json :=
      [.record [("sales", .int 10), ("region", .str "North")],
        .record [("region", .str "East"), ("city", .str "Oslo")]]
    let broken : List Json := [.record [("a", .arr [.int 1])], .int 5]
    (∃ t : Table Float, ofRecords sparse = .ok t ∧ (∀ record ∈ sparse, IsFlat record) ∧
      Holds sparse t ∧ t.columns = ["region", "sales", "city"] ∧ t.cell? 0 "city" = some .empty) ∧
    Imported (α := Float) broken (.error (.notRecord 1)) := by
  intro sparse broken
  obtain ⟨hiff, himported⟩ := ofRecords_exact (α := Float) sparse
  refine ⟨⟨_, rfl, hiff.mp ⟨_, rfl⟩, ?_, by decide, rfl⟩, (ofRecords_exact broken).2⟩
  cases himported with
  | table _ hholds => exact hholds

end Table
end TableSteps
