import TableSteps.Binary64.Quantity
import TableSteps.Proofs.Filter.Adequacy
import TableSteps.Proofs.Filter.Kept
import TableSteps.Proofs.Step.Execution
import TableSteps.Proofs.Wire.Record

/-! # A filter is the sequence of its parts

The parts of a filter run one after another on the rows that are left, but look up their columns in
the one table. Run as filters of their own, each is given a table of its own: the same columns over
the rows that are left. Nothing that a part reads tells the two apart.

As steps of a pipeline the parts are decoded and checked one by one. What the check of the whole
filter has found holds for the parts too: a column that is numeric stays so when rows go, and the
columns of a key stay where they are. -/

namespace TableSteps

/-! ## Fewer rows -/

namespace Table

variable {α : Type} [Quantity α] {t : Table α} {rows : List (Row α)} {name : String}

theorem isNumericColumn_iff :
    t.isNumericColumn name = true ↔ ∃ p, t.columnIndex? name = some p ∧
      ∀ row ∈ t.rows, (cellAt row p).isMissing = true ∨ (cellAt row p).asNumber.isSome = true := by
  cases h : t.columnIndex? name <;>
    simp [isNumericColumn, columnValues?, h, cellsAt]

/-- A numeric column is numeric over some of its rows. -/
theorem isNumericColumn_withRows (hrows : ∀ row ∈ rows, row ∈ t.rows)
    (h : t.isNumericColumn name = true) : (t.withRows rows).isNumericColumn name = true := by
  obtain ⟨p, hp, hall⟩ := isNumericColumn_iff.mp h
  exact isNumericColumn_iff.mpr ⟨p, hp, fun row hrow => hall row (hrows row hrow)⟩

end Table

namespace Filter

variable {α : Type}

/-! ## The parts of a filter -/

/-- The filter with its categories alone. -/
def onlyCategories (config : Filter α) : Filter α := ⟨config.categories, none, none⟩

/-- The filter with its condition on numbers alone. -/
def onlyNumeric (config : Filter α) : Filter α := ⟨none, config.numeric, none⟩

/-- The filter with its join alone. -/
def onlyJoin (config : Filter α) : Filter α := ⟨none, none, config.join⟩

variable [WireQuantity α] {config : Filter α} {t : Table α} {rows : List (Row α)}
  {references : References α}

/-! ## Running the parts one by one -/

/-- A condition on numbers reads no rows of the table but those it is given. -/
theorem afterNumeric_withRows : config.afterNumeric (t.withRows rows) = config.afterNumeric t := rfl

omit [WireQuantity α] in
theorem keyPositions_withRows {names : List String} :
    ∀ {i : Nat}, keyPositions (t.withRows rows) i names = keyPositions t i names := by
  induction names with
  | nil => exact rfl
  | cons name rest ih =>
    intro i
    simp only [keyPositions, ih]
    rfl

/-- A join reads no rows of the table but those it is given. -/
theorem afterJoin_withRows :
    config.afterJoin (t.withRows rows) references = config.afterJoin t references := by
  unfold afterJoin byJoin
  simp only [keyPositions_withRows]

theorem run_eq :
    config.run t references = (do
      let rows ← config.afterNumeric t (config.afterCategories t)
      (config.afterJoin t references rows).map t.withRows) := by
  unfold run
  congr

theorem run_onlyCategories :
    config.onlyCategories.run t references = .ok (t.withRows (config.afterCategories t)) := rfl

theorem run_onlyNumeric :
    config.onlyNumeric.run t references = (config.afterNumeric t t.rows).map t.withRows := by
  change (config.afterNumeric t t.rows >>= fun kept => .ok (t.withRows kept)) = _
  cases config.afterNumeric t t.rows <;> rfl

theorem run_onlyJoin :
    config.onlyJoin.run t references = (config.afterJoin t references t.rows).map t.withRows := by
  rw [run_eq]
  rfl

/-- The whole filter is the sequence of its parts, with the first error of theirs. -/
theorem run_eq_parts_in_sequence :
    config.run t references = (do
      let t ← config.onlyCategories.run t references
      let t ← config.onlyNumeric.run t references
      config.onlyJoin.run t references) := by
  rw [run_onlyCategories, ok_bind, run_onlyNumeric, afterNumeric_withRows, run_eq]
  change (config.afterNumeric t (config.afterCategories t) >>= _) =
    ((config.afterNumeric t (config.afterCategories t)).map _ >>= _)
  cases config.afterNumeric t (config.afterCategories t) with
  | error e => rfl
  | ok numeric =>
    rw [ok_map, ok_bind, ok_bind, run_onlyJoin, afterJoin_withRows, afterJoin_withRows]
    rfl

/-! ## Checking the parts one by one -/

theorem check_eq_ok_iff {stale : StaleCategories} :
    config.check (some t) stale = .ok () ↔
      config.checkShape = .ok () ∧ config.checkColumns t stale = .ok () :=
  check_bind_eq_ok_iff

theorem check_onlyCategories (h : config.check (some t) .allowed = .ok ()) :
    config.onlyCategories.check (some t) .allowed = .ok () := by
  obtain ⟨hcategories, -⟩ := checkShape_eq_ok_iff.mp (check_eq_ok_iff.mp h).1
  refine check_eq_ok_iff.mpr ⟨checkShape_eq_ok_iff.mpr ?_, checkColumns_eq_ok_iff.mpr ?_⟩
  · exact ⟨hcategories, by simp [onlyCategories], by simp [onlyCategories, activeJoin?]⟩
  · exact ⟨by simp, by simp [onlyCategories], by simp [onlyCategories, activeJoin?]⟩

theorem check_onlyNumeric (h : config.check (some t) .allowed = .ok ()) :
    config.onlyNumeric.check (some t) .allowed = .ok () := by
  obtain ⟨-, hnumbers, -⟩ := checkShape_eq_ok_iff.mp (check_eq_ok_iff.mp h).1
  obtain ⟨-, hcolumn, -⟩ := checkColumns_eq_ok_iff.mp (check_eq_ok_iff.mp h).2
  refine check_eq_ok_iff.mpr ⟨checkShape_eq_ok_iff.mpr ?_, checkColumns_eq_ok_iff.mpr ?_⟩
  · exact ⟨by simp [onlyNumeric], hnumbers, by simp [onlyNumeric, activeJoin?]⟩
  · exact ⟨by simp, hcolumn, by simp [onlyNumeric, activeJoin?]⟩

theorem check_onlyJoin (h : config.check (some t) .allowed = .ok ()) :
    config.onlyJoin.check (some t) .allowed = .ok () := by
  obtain ⟨-, -, hjoin⟩ := checkShape_eq_ok_iff.mp (check_eq_ok_iff.mp h).1
  obtain ⟨-, -, hkeys⟩ := checkColumns_eq_ok_iff.mp (check_eq_ok_iff.mp h).2
  refine check_eq_ok_iff.mpr ⟨checkShape_eq_ok_iff.mpr ?_, checkColumns_eq_ok_iff.mpr ?_⟩
  · exact ⟨by simp [onlyJoin], by simp [onlyJoin], hjoin⟩
  · exact ⟨by simp, by simp [onlyJoin], hkeys⟩

/-- A filter that fits a table fits what is left of the table. -/
theorem check_withRows (hrows : ∀ row ∈ rows, row ∈ t.rows)
    (h : config.check (some t) .allowed = .ok ()) :
    config.check (some (t.withRows rows)) .allowed = .ok () := by
  obtain ⟨hshape, hcolumns⟩ := check_eq_ok_iff.mp h
  obtain ⟨-, hcolumn, hkeys⟩ := checkColumns_eq_ok_iff.mp hcolumns
  refine check_eq_ok_iff.mpr ⟨hshape, checkColumns_eq_ok_iff.mpr
    ⟨by simp, fun f hf => ?_, fun f hf => ?_⟩⟩
  · obtain ⟨hmem, hnumeric⟩ := Table.checkNumeric_eq_ok_iff.mp (hcolumn f hf)
    exact Table.checkNumeric_eq_ok_iff.mpr ⟨hmem, Table.isNumericColumn_withRows hrows hnumeric⟩
  · have hpresent : ∀ name ∈ f.keyColumns, name ∈ t.columns :=
      checkKeyColumns_eq_ok_iff.mp (hkeys f hf)
    exact checkKeyColumns_eq_ok_iff.mpr hpresent

/-! ## The parts as steps of a pipeline -/

/-- Configs of the three parts, run as steps one after another, end where the whole filter ends. -/
theorem run_pipeline_of_execute {raw categories numeric join : Json} {result : StepOutput α}
    (hraw : decode raw = .ok config) (hcategories : decode categories = .ok config.onlyCategories)
    (hnumeric : decode numeric = .ok config.onlyNumeric)
    (hjoin : decode join = .ok config.onlyJoin)
    (h : (execute .filter t raw references).outcome = .ok result) :
    ∃ output,
      (Pipeline.run ⟨[⟨.filter, categories⟩, ⟨.filter, numeric⟩, ⟨.filter, join⟩]⟩
        t references).outcome = .ok output ∧ some output.table = result.table := by
  obtain ⟨config', hconfig, hcheck, u, hu, rfl⟩ := execute_eq_ok_iff.mp h
  obtain rfl : config' = config := Except.ok.inj (hconfig.symm.trans hraw)
  rw [run_eq_parts_in_sequence] at hu
  obtain ⟨t₁, ht₁, hu⟩ := bind_eq_ok_iff.mp hu
  obtain ⟨t₂, ht₂, ht₃⟩ := bind_eq_ok_iff.mp hu
  obtain ⟨rows₁, rfl, hrows₁⟩ := run_eq_ok ht₁
  obtain ⟨rows₂, rfl, hrows₂⟩ := run_eq_ok ht₂
  have h₁ : (execute .filter t categories references).outcome = .ok (.ofTable (t.withRows rows₁)) :=
    execute_eq_ok_iff.mpr ⟨_, hcategories, check_onlyCategories hcheck, _, ht₁, rfl⟩
  have hcheck₂ := check_withRows hrows₁ (check_onlyNumeric hcheck)
  have h₂ := execute_eq_ok_iff.mpr ⟨_, hnumeric, hcheck₂, _, ht₂, rfl⟩
  have hcheck₃ := check_withRows hrows₂ (check_withRows hrows₁ (check_onlyJoin hcheck))
  have h₃ := execute_eq_ok_iff.mpr ⟨_, hjoin, hcheck₃, _, ht₃, rfl⟩
  refine ⟨⟨u, [.ofTable (t.withRows rows₁), .ofTable (t.withRows rows₂), .ofTable u]⟩, ?_, rfl⟩
  rw [Pipeline.run, Pipeline.outcome_runFrom_cons h₁, Pipeline.outcome_runFrom_cons h₂,
    Pipeline.outcome_runFrom_cons h₃]
  rfl

/-! ## The parts of a config -/

/-- The fields of a filter. -/
def fields : Wire.Record (Filter α) :=
  Filter.mk <$> .optional "category_filter" (Wire.dictionary (Wire.list Wire.anything))
    <*> .optional "numeric_filter" NumberFilter.decode
    <*> .optional "table_filter" JoinFilter.decode

theorem decode_eq_fields : decode (α := α) = fields.decode := rfl

theorem read_fields_eq_ok_iff {p : Wire.Present} :
    fields.read p = .ok config ↔
      Wire.orNull (Wire.dictionary (Wire.list Wire.anything)) (p.get? "category_filter") =
          .ok config.categories ∧
        Wire.orNull NumberFilter.decode (p.get? "numeric_filter") = .ok config.numeric ∧
        Wire.orNull JoinFilter.decode (p.get? "table_filter") = .ok config.join := by
  simp only [fields, Wire.Record.read_seq_eq_ok_iff, Wire.Record.read_map, map_eq_ok_iff,
    Wire.Record.read_optional_eq_ok_iff]
  constructor
  · rintro ⟨_, join, ⟨_, numeric, ⟨categories, hcategories, rfl⟩, hnumeric, rfl⟩, hjoin, rfl⟩
    exact ⟨hcategories, hnumeric, hjoin⟩
  · rintro ⟨hcategories, hnumeric, hjoin⟩
    exact ⟨_, _, ⟨_, _, ⟨_, hcategories, rfl⟩, hnumeric, rfl⟩, hjoin, rfl⟩

/-- The member of a filter's config that has this name, as a config of its own. -/
def part (name : String) (raw : Json) : Json :=
  Wire.single name
    (Wire.Record.member? ["category_filter", "numeric_filter", "table_filter"] name raw)

theorem decode_part {raw : Json} (h : decode raw = .ok config) :
    decode (part "category_filter" raw) = .ok config.onlyCategories ∧
      decode (part "numeric_filter" raw) = .ok config.onlyNumeric ∧
      decode (part "table_filter" raw) = .ok config.onlyJoin := by
  rw [decode_eq_fields] at h
  obtain ⟨positional, hread⟩ := Wire.Record.read_of_decode h
  obtain ⟨hcategories, hnumeric, hjoin⟩ := read_fields_eq_ok_iff.mp hread
  simp only [decode_eq_fields, part, Wire.single, Wire.Record.decode_obj_eq_ok_iff,
    read_fields_eq_ok_iff, Wire.get?_single]
  exact ⟨⟨hcategories, rfl, rfl⟩, ⟨rfl, hnumeric, rfl⟩, rfl, rfl, hjoin⟩

/-! ## Both together -/

/-- A filter runs as its parts run in sequence, and a step that succeeds with it ends where the
pipeline of its parts ends, whatever configs stand for the parts; `part` gives such configs. -/
theorem sequence_of_parts (config : Filter α) (t : Table α) (references : References α) :
    (config.run t references = do
        let t ← config.onlyCategories.run t references
        let t ← config.onlyNumeric.run t references
        config.onlyJoin.run t references) ∧
      ∀ raw : Json, decode raw = .ok config →
        (decode (part "category_filter" raw) = .ok config.onlyCategories ∧
          decode (part "numeric_filter" raw) = .ok config.onlyNumeric ∧
          decode (part "table_filter" raw) = .ok config.onlyJoin) ∧
        ∀ categories numeric join : Json, decode categories = .ok config.onlyCategories →
          decode numeric = .ok config.onlyNumeric → decode join = .ok config.onlyJoin →
          ∀ result : StepOutput α, (execute .filter t raw references).outcome = .ok result →
            ∃ output,
              (Pipeline.run ⟨[⟨.filter, categories⟩, ⟨.filter, numeric⟩, ⟨.filter, join⟩]⟩
                t references).outcome = .ok output ∧ some output.table = result.table := by
  refine ⟨run_eq_parts_in_sequence, fun raw hraw => ⟨decode_part hraw, ?_⟩⟩
  intro categories numeric join hcategories hnumeric hjoin result h
  exact run_pipeline_of_execute hraw hcategories hnumeric hjoin h

/-- The three parts cut four rows to three, to two, and to one. -/
theorem sequence_of_three_parts :
    let t : Table Float :=
      ⟨["region", "sales"],
        [[.text "North", .number 10.0], [.text "South", .number 30.0],
          [.text "East", .number 20.0], [.text "North", .number 20.0]]⟩
    let references : References Float := .ofList [("last year", ⟨["region"], [[.text "North"]]⟩)]
    let raw : Json :=
      .obj
        [ ("category_filter", .obj [("region", .arr [.str "North", .str "South"])]),
          ("numeric_filter",
            .obj [("filter_type", .str "topk"), ("column", .str "sales"), ("k", .int 2)]),
          ("table_filter",
            .obj [("reference", .str "last year"), ("key_columns", .arr [.str "region"])]) ]
    ∃ output,
      (Pipeline.run
        ⟨[⟨.filter, part "category_filter" raw⟩, ⟨.filter, part "numeric_filter" raw⟩,
          ⟨.filter, part "table_filter" raw⟩]⟩ t references).outcome = .ok output ∧
      output.table = ⟨["region", "sales"], [[.text "North", .number 20.0]]⟩ := by
  intro t references raw
  let config : Filter Float :=
    ⟨some (.ofList [("region", [.str "North", .str "South"])]), some (.top "sales" 2 false),
      some ⟨true, some "last year", ["region"], false⟩⟩
  have hraw : decode raw = .ok config := rfl
  have hcheck : config.check (some t) .allowed = .ok () := rfl
  have hcategories : config.afterCategories t =
      [[.text "North", .number 10.0], [.text "South", .number 30.0],
        [.text "North", .number 20.0]] := rfl
  have hnumeric : config.afterNumeric t (config.afterCategories t) =
      .ok [[.text "South", .number 30.0], [.text "North", .number 20.0]] := by
    have h₁ : Quantity.totalLe (30.0 : Float) 10.0 = false := by decide +kernel
    have h₂ : Quantity.totalLe (20.0 : Float) 10.0 = false := by decide +kernel
    have h₃ : Quantity.totalLe (20.0 : Float) 30.0 = true := by decide +kernel
    change Except.ok (topRows false (numberAt 1) 2 (config.afterCategories t)) = _
    rw [hcategories]
    simp [topRows, ranked, List.mergeSort, List.MergeSort.Internal.splitInTwo, ranksBefore,
      numberAt, cellAt, h₁, h₂, h₃]
  have hrun : config.run t references =
      .ok ⟨["region", "sales"], [[.text "North", .number 20.0]]⟩ := by
    rw [run_eq, hnumeric]
    rfl
  obtain ⟨hparts, hpipeline⟩ := (sequence_of_parts config t references).2 raw hraw
  obtain ⟨output, houtput, htable⟩ := hpipeline _ _ _ hparts.1 hparts.2.1 hparts.2.2 _
    (execute_eq_ok_iff.mpr ⟨config, hraw, hcheck, _, hrun, rfl⟩)
  exact ⟨output, houtput, Option.some.inj htable⟩

end Filter

end TableSteps
