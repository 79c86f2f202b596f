import TableSteps.Proofs.Binary64.Finite
import TableSteps.Proofs.Binary64.SignedZero
import TableSteps.Proofs.Filter.JoinAggregated

/-! # Categories and joins decide alike

A category compares a cell with JSON values, a join compares the key of a row with keys. Against one
column of a reference both ask for the same: a cell of that column that is of one type with the
row's own and equal to it by value. JSON has no numbers that are not finite, so the numbers of the
reference have to be finite; those of the table need not be. -/

namespace TableSteps

variable {α : Type} [WireQuantity α]

/-! ## One cell -/

namespace Cell

variable [FiniteLaws α]

/-- A finite number is written as a number. -/
theorem toJson_number {x : α} (h : Quantity.isFinite x = true) :
    (∃ n, (number x).toJson = .int n) ∨ ∃ y, (number x).toJson = .float y := by
  have hback := FiniteLaws.ofJson?_toJson h
  change (∃ n, WireQuantity.toJson x = .int n) ∨ ∃ y, WireQuantity.toJson x = .float y
  cases hj : WireQuantity.toJson x with
  | int n => exact .inl ⟨n, rfl⟩
  | float y => exact .inr ⟨y, rfl⟩
  | null | bool | str | arr | obj => simp [hj, WireQuantity.ofJson?] at hback

theorem isScalar_toJson {c : Cell α} (h : c.IsFinite) : c.toJson.isScalar = true := by
  cases c with
  | number x =>
    rcases toJson_number (h x rfl) with ⟨n, hn⟩ | ⟨y, hy⟩
    · rw [hn]
      rfl
    · rw [hy]
      rfl
  | empty | boolean | text => rfl

variable [LawfulQuantity α] [SignedZeroLaws α] [EqualityLaws α]

/-- A cell holds what another one is written as just when the two have one key. -/
theorem holds_toJson_iff (c : Cell α) {d : Cell α} (hd : d.IsFinite) :
    c.holds d.toJson = true ↔ c.key = d.key := by
  cases d with
  | empty | boolean | text => cases c <;> simp [holds, toJson, key, WireQuantity.ofJson?]
  | number x =>
    have hfinite := hd x rfl
    cases c with
    | number y =>
      have hback : WireQuantity.ofJson? (number x).toJson = some x :=
        FiniteLaws.ofJson?_toJson hfinite
      simp only [holds, hback, Option.any_some, key, CellKey.number.injEq]
      rw [Quantity.eqv_iff_key_eq (LawfulQuantity.isNaN_of_isFinite hfinite), eq_comm]
    | empty | boolean | text =>
      rcases toJson_number hfinite with ⟨n, hn⟩ | ⟨z, hz⟩ <;> simp [holds, key, *]

theorem any_holds_iff (c : Cell α) {cells : List (Cell α)} (h : ∀ d ∈ cells, d.IsFinite) :
    (cells.map toJson).any c.holds = true ↔ c.key ∈ cells.map key := by
  simp only [List.any_map, List.any_eq_true, Function.comp_apply, List.mem_map]
  refine exists_congr fun d => and_congr_right fun hd => ?_
  rw [holds_toJson_iff c (h d hd), eq_comm]

end Cell

/-! ## One column -/

namespace Filter

variable {t reference : Table α} {column name : String} {references : References α}

/-- A filter that is one category and nothing else. -/
def allowing (α : Type) (column : String) (values : List Json) : Filter α :=
  ⟨some (Dictionary.empty.insert column values), none, none⟩

theorem run_allowing (values : List Json) (hcolumn : column ∈ t.columns) :
    (allowing α column values).run t references =
      .ok (t.withRows (t.rows.filter fun row =>
        values.any (cellAt row (t.columns.idxOf column)).holds)) := by
  have hrows : (allowing α column values).afterCategories t = t.rows.filter fun row =>
      values.any (cellAt row (t.columns.idxOf column)).holds := by
    change byCategory t (column, values) t.rows = _
    rw [byCategory, Table.columnIndex?_of_mem hcolumn]
  rw [run, hrows]
  rfl

theorem check_allowing {values : List Json} (hvalues : ∀ value ∈ values, value.isScalar = true)
    (t : Table α) : (allowing α column values).check (some t) .allowed = .ok () := by
  have hcategory : checkCategories [(column, values)] = .ok () := by
    have hnone : values.find? (fun value => !value.isScalar) = none :=
      List.find?_eq_none.mpr fun value hvalue => by simp [hvalues value hvalue]
    simp [checkCategories, checkCategory, hnone]
  refine check_bind_eq_ok_iff.mpr ⟨checkShape_eq_ok_iff.mpr ⟨?_, ?_, ?_⟩,
    checkColumns_eq_ok_iff.mpr ⟨?_, ?_, ?_⟩⟩
  · rintro _ ⟨rfl⟩
    exact hcategory
  all_goals rintro _ ⟨⟩
  rintro ⟨⟩

omit [WireQuantity α] in
theorem warnings_allowing (values : List Json) (hcolumn : column ∈ t.columns) :
    (allowing α column values).warnings t = [] := by
  have hstale : (allowing α column values).staleCategories t = [] := by
    change [column].filter (fun name => !t.hasColumn name) = []
    simp [Table.hasColumn_iff.mpr hcolumn]
  rw [warnings, hstale]
  rfl

/-- A row joins when some cell of the reference has the key of its own cell. -/
theorem run_joining_one (hown : column ∈ t.columns) (hother : column ∈ reference.columns) :
    (joining α name [column] false).run t (references.insert name reference) =
      .ok (t.withRows (t.rows.filter fun row => ((reference.cells column).map Cell.key).contains
        (cellAt row (t.columns.idxOf column)).key)) := by
  rw [run_joining (by simpa using hown) (by simpa using hother)]
  refine congrArg (fun rows => Except.ok (t.withRows rows)) (List.filter_congr fun row _ => ?_)
  rw [Bool.bne_false, Bool.eq_iff_iff, List.contains_iff_mem, List.contains_iff_mem]
  simp [Table.rowKeys, Table.cells, Table.columnValues?, Table.columnIndex?_of_mem hother,
    Table.cellsAt, Aggregation.positions, RowKey.ofRow]

variable [FiniteLaws α] [LawfulQuantity α] [SignedZeroLaws α] [EqualityLaws α]

theorem run_allowing_cells {cells : List (Cell α)} (hown : column ∈ t.columns)
    (hcells : ∀ c ∈ cells, c.IsFinite) :
    (allowing α column (cells.map Cell.toJson)).run t references =
      .ok (t.withRows (t.rows.filter fun row =>
        (cells.map Cell.key).contains (cellAt row (t.columns.idxOf column)).key)) := by
  rw [run_allowing _ hown]
  refine congrArg (fun rows => Except.ok (t.withRows rows)) (List.filter_congr fun row _ => ?_)
  rw [Bool.eq_iff_iff, Cell.any_holds_iff _ hcells, List.contains_iff_mem]

/-- A filter by the values of a column of a reference keeps the rows that a join with the reference
by this column keeps: those whose cell has the key of a cell there. -/
theorem category_eq_join (name : String) (references : References α) (hown : column ∈ t.columns)
    (hother : column ∈ reference.columns)
    (hfinite : ∀ x, .number x ∈ reference.cells column → Quantity.isFinite x = true) :
    ∃ u : Table α,
      u = t.withRows (t.rows.filter fun row => ((reference.cells column).map Cell.key).contains
        (cellAt row (t.columns.idxOf column)).key) ∧
      (allowing α column ((reference.cells column).map Cell.toJson)).run t references = .ok u ∧
      (joining α name [column] false).run t (references.insert name reference) = .ok u ∧
      ∀ category join : Json,
        decode category = .ok (allowing α column ((reference.cells column).map Cell.toJson)) →
        decode join = .ok (joining α name [column] false) → Text.isBlankName name = false →
        execute .filter t category references = ⟨[], .ok (.ofTable u)⟩ ∧
        execute .filter t join (references.insert name reference) = ⟨[], .ok (.ofTable u)⟩ := by
  have hcells : ∀ c ∈ reference.cells column, c.IsFinite := fun c hc x hx => hfinite x (hx ▸ hc)
  have hcategory : (allowing α column ((reference.cells column).map Cell.toJson)).run t
      references = _ := run_allowing_cells hown hcells
  have hjoin : (joining α name [column] false).run t (references.insert name reference) = _ :=
    run_joining_one hown hother
  refine ⟨_, rfl, hcategory, hjoin, fun category join hdecode hdecode' hname => ⟨?_, ?_⟩⟩
  · have hscalar : ∀ value ∈ (reference.cells column).map Cell.toJson, value.isScalar = true :=
      List.forall_mem_map.mpr fun c hc => Cell.isScalar_toJson (hcells c hc)
    rw [execute_eq hdecode (check_allowing hscalar t) hcategory, warnings_allowing _ hown]
  · rw [execute_eq hdecode' (check_joining (by simp) hname (by simpa using hown)) hjoin]
    rfl

/-- Zeros of both signs, NaN, an infinity, a missing cell, a number and the text that writes it. -/
theorem category_eq_join_codes :
    let t : Table Float :=
      ⟨["code", "id"],
        [[.number 0.0, .number 1.0], [.number (0.0 / 0.0), .number 2.0], [.empty, .number 3.0],
          [.text "", .number 4.0], [.number (1.0 / 0.0), .number 5.0], [.text "2", .number 6.0],
          [.number 2.0, .number 7.0], [.boolean true, .number 8.0]]⟩
    let reference : Table Float :=
      ⟨["code"], [[.number (-0.0)], [.empty], [.text "2"], [.boolean true], [.number 5.0]]⟩
    let category : Json :=
      .obj [("category_filter", .obj [("code",
        .arr [.float (-0.0), .null, .str "2", .bool true, .float 5.0])])]
    let join : Json :=
      .obj [("table_filter", .obj [("reference", .str "codes"), ("key_columns", .arr [.str "code"]),
        ("exclude_mode", .bool false)])]
    let u : Table Float :=
      ⟨["code", "id"],
        [[.number 0.0, .number 1.0], [.empty, .number 3.0], [.text "2", .number 6.0],
          [.boolean true, .number 8.0]]⟩
    execute .filter t category .empty = ⟨[], .ok (.ofTable u)⟩ ∧
      execute .filter t join (Dictionary.empty.insert "codes" reference) =
        ⟨[], .ok (.ofTable u)⟩ := by
  intro t reference category join u
  have hfinite : ∀ x, .number x ∈ reference.cells "code" → Quantity.isFinite x = true := by
    intro x hx
    have hvalues : reference.cells "code" =
        [.number (-0.0), .empty, .text "2", .boolean true, .number 5.0] := rfl
    simp only [hvalues, List.mem_cons, Cell.number.injEq, reduceCtorEq, List.not_mem_nil, or_false,
      false_or] at hx
    rcases hx with rfl | rfl <;> decide +kernel
  have hcategory : decode category = .ok (allowing Float "code"
      ((reference.cells "code").map Cell.toJson)) := rfl
  have hjoin : decode join = .ok (joining Float "codes" ["code"] false) := rfl
  have hown : "code" ∈ t.columns := by decide
  obtain ⟨_, rfl, -, -, hexecute⟩ := category_eq_join "codes" .empty hown (by decide) hfinite
  have hkept : t.withRows (t.rows.filter fun row => ((reference.cells "code").map Cell.key).contains
      (cellAt row (t.columns.idxOf "code")).key) = u := rfl
  exact hkept ▸ hexecute category join hcategory hjoin (by decide +kernel)

end Filter

end TableSteps
