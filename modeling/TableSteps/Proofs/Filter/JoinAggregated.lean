import TableSteps.Proofs.Aggregation.RollUp
import TableSteps.Proofs.Filter.Adequacy
import TableSteps.Proofs.Step.Execution

/-! # Joining with an aggregate

A join asks of a reference which keys its rows have, and nothing else. Aggregating the reference by
the key columns keeps exactly these keys: every group stands for the rows with one key, its row in
the output begins with the cells of that key, and a cell made from a key has that key. So a join
keeps the same rows against a table and against its aggregate.

A table joined with itself, or with its own aggregate, loses no row; excluding instead of keeping
leaves none. This holds for every kind of cell, since a key is equal to itself also where the
numbers it was made from are not. -/

namespace TableSteps

open Keyed (Key)

variable {α : Type}

/-- The keys of the rows over some columns. -/
def Table.rowKeys [Quantity α] (t : Table α) (names : List String) : List (RowKey (Key α)) :=
  t.rows.map (RowKey.ofRow · (Aggregation.positions t names))

/-! ## The keys of an aggregate -/

namespace Aggregation

variable {t u : Table α}

variable [Quantity α] {config : Aggregation}

/-- The rows of the output have the keys of the table, each once. -/
theorem rowKeys_run [LawfulQuantity α] (h : config.run t = .ok u) :
    u.rowKeys config.axis = (t.rowKeys config.axis).eraseDups := by
  obtain ⟨-, -, scope, -, rfl⟩ := run_eq_ok h
  have hkey : ∀ gi ∈ (groups t (positions t config.axis)).zipIdx,
      RowKey.ofRow (outputRow scope gi.1 gi.2)
        (positions ⟨config.axis ++ scope.names, (groups t (positions t config.axis)).zipIdx.map
          fun gi => outputRow scope gi.1 gi.2⟩ config.axis) = gi.1.key := by
    intro gi hgi
    have hg := List.fst_mem_of_mem_zipIdx hgi
    obtain ⟨row, -, hrow⟩ := exists_ofRow_of_mem_groups hg
    rw [outputRow, ofRow_toCells_append (fun _ hname => hname) hg, hrow,
      coarsen_ofRow fun _ hname => hname]
  calc _ = (groups t (positions t config.axis)).zipIdx.map fun gi => gi.1.key := by
        rw [Table.rowKeys, List.map_map]
        exact List.map_congr_left hkey
    _ = ((groups t (positions t config.axis)).zipIdx.map Prod.fst).map Group.key :=
        List.map_map.symm
    _ = (t.rowKeys config.axis).eraseDups := by
        rw [List.zipIdx_map_fst]
        exact Group.keys_byKey ..

end Aggregation

/-! ## Joining -/

namespace Filter

section Join

variable [Quantity α] {t reference other : Table α} {filter : JoinFilter} {name : String}
  {references : References α} {rows : List (Row α)}

/-- The rows that a join keeps: those whose key the reference has, or the others. -/
theorem byJoin_eq (hname : filter.reference = some name)
    (hreference : references.get? name = some reference)
    (hown : ∀ key ∈ filter.keyColumns, key ∈ t.columns)
    (hothers : ∀ key ∈ filter.keyColumns, key ∈ reference.columns) :
    byJoin t filter references rows = .ok (rows.filter fun row =>
      (reference.rowKeys filter.keyColumns).contains
        (RowKey.ofRow row (Aggregation.positions t filter.keyColumns)) != filter.exclude) := by
  simp only [byJoin, referenceTable, hname, hreference, keyPositions_of_mem hown,
    keyPositions_of_mem hothers, ok_bind]
  rfl

/-- Of a reference that has the key columns a join sees the keys alone. -/
theorem byJoin_congr (hname : filter.reference = some name)
    (hreference : ∀ key ∈ filter.keyColumns, key ∈ reference.columns)
    (hother : ∀ key ∈ filter.keyColumns, key ∈ other.columns)
    (hkeys : ∀ k, k ∈ reference.rowKeys filter.keyColumns ↔ k ∈ other.rowKeys filter.keyColumns) :
    byJoin t filter (references.insert name reference) rows =
      byJoin t filter (references.insert name other) rows := by
  by_cases hown : ∀ key ∈ filter.keyColumns, key ∈ t.columns
  · rw [byJoin_eq hname (by simp) hown hreference, byJoin_eq hname (by simp) hown hother]
    refine congrArg Except.ok (List.filter_congr fun row _ => ?_)
    rw [List.contains_eq_mem, List.contains_eq_mem, decide_eq_decide.mpr (hkeys _)]
  -- The table is looked at before the reference is, so both fail with one error.
  · obtain ⟨key, hkey, hlacks⟩ : ∃ key ∈ filter.keyColumns, key ∉ t.columns := by
      simpa using hown
    obtain ⟨e, he⟩ := keyPositions_of_not_mem hlacks (i := 0) hkey
    simp [byJoin, referenceTable, hname, he]

end Join

variable [WireQuantity α] {t reference other : Table α} {config : Filter α} {filter : JoinFilter}
  {name : String} {references : References α}

theorem run_join_congr (hjoin : config.join = some filter) (hname : filter.reference = some name)
    (hreference : ∀ key ∈ filter.keyColumns, key ∈ reference.columns)
    (hother : ∀ key ∈ filter.keyColumns, key ∈ other.columns)
    (hkeys : ∀ k, k ∈ reference.rowKeys filter.keyColumns ↔ k ∈ other.rowKeys filter.keyColumns) :
    config.run t (references.insert name reference) =
      config.run t (references.insert name other) := by
  have hrows : ∀ rows, config.afterJoin t (references.insert name reference) rows =
      config.afterJoin t (references.insert name other) rows := by
    intro rows
    unfold afterJoin
    cases hactive : config.activeJoin? with
    | none => rfl
    | some active =>
      obtain ⟨hsome, -⟩ := Option.filter_eq_some_iff.mp hactive
      obtain rfl : filter = active := Option.some.inj (hjoin.symm.trans hsome)
      exact byJoin_congr hname hreference hother hkeys
  simp only [run, hrows]

/-- A step is executed alike with references over which its filter runs alike. -/
theorem execute_congr {raw : Json} {others : References α} (hdecode : decode raw = .ok config)
    (h : config.run t references = config.run t others) :
    execute .filter t raw references = execute .filter t raw others := by
  unfold execute Step.ofConfig
  rw [Step.decode_filter hdecode, ok_bind]
  cases (Step.filter config).check (some t) .allowed with
  | error e => rfl
  | ok _ =>
    simp only [ok_bind, pure_eq_ok, Logged.silent_ok_andThen, Step.runLogged, Step.run, h]

/-- A join with a reference that has the key columns runs over every table that it was accepted
over. -/
theorem exists_outcome_execute {raw : Json} (hdecode : decode raw = .ok config)
    (hvalid : validate .filter raw (some t) = .ok ()) (hjoin : config.join = some filter)
    (hname : filter.reference = some name)
    (hreference : ∀ key ∈ filter.keyColumns, key ∈ reference.columns) :
    ∃ kept, (execute .filter t raw (references.insert name reference)).outcome =
      .ok (.ofTable (t.withRows kept)) := by
  obtain ⟨step, hstep, hcheck⟩ := validate_eq_ok_iff.mp hvalid
  cases (Step.decode_filter hdecode).symm.trans hstep
  have hmatched : ¬ config.Obstructed (references.insert name reference) := by
    rintro ⟨active, hactive, other, hother, hmissing⟩
    obtain ⟨hsome, -⟩ := Option.filter_eq_some_iff.mp hactive
    obtain rfl : filter = active := Option.some.inj (hjoin.symm.trans hsome)
    obtain rfl : name = other := Option.some.inj (hname.symm.trans hother)
    rw [Dictionary.get?_insert, if_pos rfl] at hmissing
    rcases hmissing with hnone | ⟨found, hfound, key, hkey, hlacks⟩
    · cases hnone
    · cases hfound
      exact hlacks (hreference key hkey)
  obtain ⟨u, hrun⟩ := run_of_check hcheck hmatched
  obtain ⟨rows, hrows⟩ := bind_eq_ok_iff.mp hrun
  obtain ⟨kept, -, hkept⟩ := bind_eq_ok_iff.mp hrows.2
  cases hkept
  exact ⟨kept, execute_eq_ok_iff.mpr
    ⟨config, hdecode, check_allowed_of_refused hcheck, _, hrun, rfl⟩⟩

/-- A filter that is a join and nothing else. -/
def joining (α : Type) (name : String) (keys : List String) (exclude : Bool) : Filter α :=
  ⟨none, none, some ⟨true, some name, keys, exclude⟩⟩

section Joining

variable {raw : Json} {keys : List String} {exclude : Bool}

theorem check_joining (hsome : keys ≠ []) (hname : Text.isBlankName name = false)
    (hown : ∀ key ∈ keys, key ∈ t.columns) :
    (joining α name keys exclude).check (some t) .allowed = .ok () := by
  have hshape : checkJoin ⟨true, some name, keys, exclude⟩ = .ok () := by
    simp [checkJoin, hsome, hname]
  refine check_bind_eq_ok_iff.mpr ⟨checkShape_eq_ok_iff.mpr ⟨?_, ?_, ?_⟩,
    checkColumns_eq_ok_iff.mpr ⟨?_, ?_, ?_⟩⟩
  · rintro _ ⟨⟩
  · rintro _ ⟨⟩
  · rintro _ ⟨rfl⟩
    exact hshape
  · rintro _ ⟨⟩
  · rintro _ ⟨⟩
  · rintro _ ⟨rfl⟩
    exact checkKeyColumns_eq_ok_iff.mpr hown

theorem run_joining (hown : ∀ key ∈ keys, key ∈ t.columns)
    (hothers : ∀ key ∈ keys, key ∈ reference.columns) :
    (joining α name keys exclude).run t (references.insert name reference) =
      .ok (t.withRows (t.rows.filter fun row => (reference.rowKeys keys).contains
        (RowKey.ofRow row (Aggregation.positions t keys)) != exclude)) := by
  have hjoin : byJoin t ⟨true, some name, keys, exclude⟩ (references.insert name reference)
      t.rows = .ok (t.rows.filter fun row => (reference.rowKeys keys).contains
        (RowKey.ofRow row (Aggregation.positions t keys)) != exclude) :=
    byJoin_eq rfl (by simp) hown hothers
  simp only [run, joining, afterNumeric, afterCategories, afterJoin, activeJoin?,
    Option.filter_some, if_true, ok_bind, hjoin, pure_eq_ok]

/-- A join alone keeps the rows whose key the reference has, or the others. -/
theorem outcome_execute_joining (hdecode : decode raw = .ok (joining α name keys exclude))
    (hsome : keys ≠ []) (hname : Text.isBlankName name = false)
    (hown : ∀ key ∈ keys, key ∈ t.columns) (hothers : ∀ key ∈ keys, key ∈ reference.columns) :
    (execute .filter t raw (references.insert name reference)).outcome =
      .ok (.ofTable (t.withRows (t.rows.filter fun row => (reference.rowKeys keys).contains
        (RowKey.ofRow row (Aggregation.positions t keys)) != exclude))) :=
  Filter.execute_eq_ok_iff.mpr
    ⟨_, hdecode, check_joining hsome hname hown, _, run_joining hown hothers, rfl⟩

/-- Every key of a table is among its own keys, so joining it with itself loses no row, or all. -/
theorem outcome_execute_joining_self (hdecode : decode raw = .ok (joining α name keys exclude))
    (hsome : keys ≠ []) (hname : Text.isBlankName name = false)
    (hown : ∀ key ∈ keys, key ∈ t.columns) :
    (execute .filter t raw (references.insert name t)).outcome =
      .ok (.ofTable (if exclude then t.withRows [] else t)) := by
  rw [outcome_execute_joining hdecode hsome hname hown hown]
  have hkeys : ∀ row ∈ t.rows, (t.rowKeys keys).contains
      (RowKey.ofRow row (Aggregation.positions t keys)) = true := fun row hrow =>
    List.contains_iff_mem.mpr (List.mem_map_of_mem hrow)
  cases exclude with
  | false =>
    have hall : (t.rows.filter fun row => (t.rowKeys keys).contains
        (RowKey.ofRow row (Aggregation.positions t keys)) != false) = t.rows :=
      List.filter_eq_self.mpr fun row hrow => by rw [hkeys row hrow]; rfl
    rw [hall]
    rfl
  | true =>
    have hnone : (t.rows.filter fun row => (t.rowKeys keys).contains
        (RowKey.ofRow row (Aggregation.positions t keys)) != true) = [] :=
      List.filter_eq_nil_iff.mpr fun row hrow => by rw [hkeys row hrow]; decide
    rw [hnone]
    rfl

end Joining

end Filter

/-! ## The reference and its aggregate -/

section Aggregated

variable [WireQuantity α]

open TableSteps.Filter (joining)

/-- Every filter whose join has the axis of a valid aggregation as its key columns keeps the same
rows whether the reference of the join is a table or its aggregate. A table joined with its own
aggregate loses no row, and all when the join excludes. -/
theorem execute_join_aggregated [LawfulQuantity α] {reference : Table α} {raw : Json}
    {config : Aggregation} (hdecode : Aggregation.decode raw = .ok config)
    (hvalid : validate .aggregate raw (some reference) = .ok ()) :
    ∃ u : Table α,
      (∀ references, (execute .aggregate reference raw references).outcome = .ok (.ofTable u)) ∧
      (∀ (t : Table α) (join : Json) (filter : Filter α) (how : JoinFilter) (name : String)
          (references : References α), Filter.decode join = .ok filter → filter.join = some how →
        how.reference = some name → how.keyColumns = config.axis →
        execute .filter t join (references.insert name u) =
            execute .filter t join (references.insert name reference) ∧
          (validate .filter join (some t) = .ok () →
            ∃ kept, (execute .filter t join (references.insert name reference)).outcome =
              .ok (.ofTable (t.withRows kept)))) ∧
      ∀ (join : Json) (name : String) (exclude : Bool) (references : References α),
        Filter.decode join = .ok (joining α name config.axis exclude) → config.axis ≠ [] →
        Text.isBlankName name = false →
        (∀ t : Table α, (∀ key ∈ config.axis, key ∈ t.columns) →
          (execute .filter t join (references.insert name u)).outcome =
            .ok (.ofTable (t.withRows (t.rows.filter fun row =>
              (reference.rowKeys config.axis).contains
                (RowKey.ofRow row (Aggregation.positions t config.axis)) != exclude)))) ∧
        (execute .filter reference join (references.insert name u)).outcome =
          .ok (.ofTable (if exclude then reference.withRows [] else reference)) := by
  obtain ⟨step, hstep, hcheck⟩ := validate_eq_ok_iff.mp hvalid
  cases (Step.decode_aggregate hdecode).symm.trans hstep
  obtain ⟨u, hu⟩ := Aggregation.run_of_check hcheck
  have hkeys := Aggregation.rowKeys_run hu
  obtain ⟨haxis, -, scope, -, hcolumns⟩ := Aggregation.run_eq_ok hu
  have haxisOut : ∀ name ∈ config.axis, name ∈ u.columns := fun name hname => by
    rw [hcolumns]
    exact List.mem_append_left _ hname
  have hsame : ∀ (t : Table α) (join : Json) (filter : Filter α) (how : JoinFilter)
      (name : String) (references : References α), Filter.decode join = .ok filter →
      filter.join = some how → how.reference = some name → how.keyColumns = config.axis →
      execute .filter t join (references.insert name u) =
        execute .filter t join (references.insert name reference) := by
    intro t join filter how name references hfilter hjoin hname haxes
    refine Filter.execute_congr hfilter (Filter.run_join_congr hjoin hname ?_ ?_ ?_)
    · rwa [haxes]
    · rwa [haxes]
    · intro k
      rw [haxes, hkeys, List.mem_eraseDups]
  refine ⟨u, fun references => ?_, ?_, ?_⟩
  · refine execute_eq_ok_iff.mpr ⟨_, hstep, hcheck, ?_⟩
    rw [Step.run, hu, ok_map]
  · intro t join filter how name references hfilter hjoin hname haxes
    refine ⟨hsame t join filter how name references hfilter hjoin hname haxes, fun hvalid => ?_⟩
    exact Filter.exists_outcome_execute hfilter hvalid hjoin hname (by rwa [haxes])
  · intro join name exclude references hjoin hsome hname
    have hswap := fun t => hsame t join _ _ name references hjoin rfl rfl rfl
    refine ⟨fun t hown => ?_, ?_⟩
    · rw [hswap, Filter.outcome_execute_joining hjoin hsome hname hown haxis]
    · rw [hswap, Filter.outcome_execute_joining_self hjoin hsome hname haxis]

/-- Zeros of both signs, NaN, an empty cell, a text and a truth value as keys: the aggregate has one
row less, since the zeros are one group, and the table joined with it keeps all rows, or none. -/
theorem join_with_own_totals :
    let t : Table Float :=
      ⟨["key", "n"],
        [[.number (-0.0), .number 1.0], [.number (0.0 / 0.0), .number 2.0], [.empty, .number 3.0],
          [.text "0", .number 4.0], [.boolean false, .empty], [.number 0.0, .number 5.0]]⟩
    let raw : Json :=
      .obj
        [ ("axis", .arr [.str "key"]),
          ("column", .arr [.obj [("name", .str "total"), ("subject", .str "n"),
            ("method", .str "sum")]]) ]
    let join (exclude : Bool) : Json :=
      .obj [("table_filter", .obj [("reference", .str "totals"), ("key_columns", .arr [.str "key"]),
        ("exclude_mode", .bool exclude)])]
    ∃ u : Table Float, (execute .aggregate t raw .empty).outcome = .ok (.ofTable u) ∧
      (execute .filter t (join false) (Dictionary.empty.insert "totals" u)).outcome =
        .ok (.ofTable t) ∧
      (execute .filter t (join true) (Dictionary.empty.insert "totals" u)).outcome =
        .ok (.ofTable ⟨["key", "n"], []⟩) := by
  intro t raw join
  have hdecode : Aggregation.decode raw =
      .ok ⟨["key"], [⟨"total", .single "n", .reduce .sum⟩]⟩ := rfl
  have hvalid : validate .aggregate raw (some t) = .ok () := rfl
  obtain ⟨u, hu, -, hself⟩ := execute_join_aggregated hdecode hvalid
  have hjoin (exclude : Bool) :
      Filter.decode (join exclude) = .ok (joining Float "totals" ["key"] exclude) := by
    cases exclude <;> rfl
  exact ⟨u, hu .empty, (hself _ _ _ .empty (hjoin false) (by decide) (by decide +kernel)).2,
    (hself _ _ _ .empty (hjoin true) (by decide) (by decide +kernel)).2⟩

end Aggregated

end TableSteps
