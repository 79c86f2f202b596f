import TableSteps.Binary64.Quantity
import TableSteps.Proofs.Filter.Adequacy
import TableSteps.Proofs.Filter.Sequence
import TableSteps.Proofs.Step.Execution
import TableSteps.Proofs.Wire.ReadBack

/-! # Stale categories are only warned of

A config may outlive the columns that its categories name. Run, it does what it does without these
categories, but for a warning of each; checked against the table, it is refused. No other check sees
a difference: only the categories are told apart, and they are looked up last of what needs no
table and first of what does. -/

namespace TableSteps

theorem Dictionary.restrict_eq_self_iff {β : Type} {d : Dictionary β} {keep : String → Bool} :
    d.restrict keep = d ↔ ∀ key ∈ d.keys, keep key = true := by
  rw [keys, List.forall_mem_map, ← List.filter_eq_self]
  exact ⟨congrArg entries, fun h => ext h⟩

namespace Filter

variable {α : Type}

/-- The filter without the categories whose column the table lacks. -/
def withoutStale (config : Filter α) (t : Table α) : Filter α :=
  { config with categories := config.categories.map fun c => c.restrict t.hasColumn }

variable {config : Filter α} {t : Table α}

theorem staleCategories_withoutStale : (config.withoutStale t).staleCategories t = [] := by
  unfold staleCategories withoutStale
  cases config.categories with
  | none => rfl
  | some categories => simp [List.filter_filter]

/-- What is stale is named once, in the order of the names. -/
theorem sorted_staleCategories (config : Filter α) (t : Table α) :
    (config.staleCategories t).Pairwise (· < ·) := by
  unfold staleCategories
  cases config.categories with
  | none => exact .nil
  | some categories => exact (List.pairwise_map.mpr categories.sorted).filter _

theorem mem_staleCategories_iff {name : String} :
    name ∈ config.staleCategories t ↔
      (∃ categories, config.categories = some categories ∧ name ∈ categories.keys) ∧
        name ∉ t.columns := by
  unfold staleCategories
  cases config.categories <;> simp [← Table.hasColumn_iff]

/-- Nothing is taken out when every category has its column. -/
theorem withoutStale_eq_self_iff :
    config.withoutStale t = config ↔
      ∀ categories, config.categories = some categories →
        ∀ name ∈ categories.keys, name ∈ t.columns := by
  obtain ⟨categories?, numeric, join⟩ := config
  cases categories? <;> simp [withoutStale, Dictionary.restrict_eq_self_iff, Table.hasColumn_iff]

variable [WireQuantity α] {references : References α}

/-! ## Running -/

/-- A category that the table has no column for leaves the rows as they are. -/
theorem byCategory_eq_ite (category : String × List Json) (rows : List (Row α)) :
    byCategory t category rows =
      if t.hasColumn category.1 then byCategory t category rows else rows := by
  split
  · rfl
  · rename_i hcolumn
    have hnone : t.columnIndex? category.1 = none := by
      rw [← Option.isNone_iff_eq_none, ← Option.not_isSome, Table.isSome_columnIndex?]
      simpa using hcolumn
    rw [byCategory, hnone]

theorem afterCategories_withoutStale :
    (config.withoutStale t).afterCategories t = config.afterCategories t := by
  unfold afterCategories withoutStale
  cases config.categories with
  | none => rfl
  | some categories =>
    refine List.foldl_filter.trans ?_
    exact congrFun (congrFun (congrArg List.foldl (funext fun rows => funext fun category =>
      (byCategory_eq_ite category rows).symm)) t.rows) categories.entries

theorem run_withoutStale : (config.withoutStale t).run t references = config.run t references := by
  unfold run
  rw [afterCategories_withoutStale]
  rfl

/-! ## Checking -/

theorem checkCategories_eq_ok_iff {categories : List (String × List Json)} :
    checkCategories categories = .ok () ↔
      ∀ category ∈ categories, checkCategory category = .ok () := by
  induction categories with
  | nil => simp [checkCategories]
  | cons category rest ih =>
    rw [checkCategories, check_bind_eq_ok_iff, ih, List.forall_mem_cons]

omit [WireQuantity α] in
theorem checkCategoryColumns_eq_ok_iff {names : List String} :
    checkCategoryColumns t names = .ok () ↔ ∀ name ∈ names, name ∈ t.columns := by
  induction names with
  | nil => simp [checkCategoryColumns]
  | cons name rest ih =>
    rw [checkCategoryColumns, check_bind_eq_ok_iff, Table.checkColumn_eq_ok_iff, ih,
      List.forall_mem_cons]

/-- What is sound without a table stays sound with fewer categories. -/
theorem checkShape_withoutStale (h : config.checkShape = .ok ()) :
    (config.withoutStale t).checkShape = .ok () := by
  obtain ⟨hcategories, hnumeric, hjoin⟩ := checkShape_eq_ok_iff.mp h
  refine checkShape_eq_ok_iff.mpr ⟨?_, hnumeric, hjoin⟩
  intro fewer hfewer
  obtain ⟨categories, hsome, rfl⟩ := Option.map_eq_some_iff.mp hfewer
  have hall := checkCategories_eq_ok_iff.mp (hcategories categories hsome)
  exact checkCategories_eq_ok_iff.mpr fun category hmem => hall category (List.mem_filter.mp hmem).1

/-- A check that allows stale categories looks no category up. -/
theorem checkColumns_withoutStale :
    (config.withoutStale t).checkColumns t .allowed = config.checkColumns t .allowed := by
  obtain ⟨categories?, numeric, join⟩ := config
  cases categories? <;> rfl

theorem check_withoutStale (h : config.checkShape = .ok ()) :
    (config.withoutStale t).check (some t) .allowed = config.check (some t) .allowed := by
  unfold check
  rw [h, checkShape_withoutStale h]
  exact checkColumns_withoutStale

/-- A check that refuses stale categories accepts what has none and is accepted without them. -/
theorem check_refused_iff :
    config.check (some t) .refused = .ok () ↔
      config.withoutStale t = config ∧ (config.withoutStale t).check (some t) .refused = .ok () := by
  constructor
  · intro h
    obtain ⟨hcolumns, -⟩ := checkColumns_eq_ok_iff.mp (check_eq_ok_iff.mp h).2
    have hself : config.withoutStale t = config := withoutStale_eq_self_iff.mpr
      fun categories hsome => checkCategoryColumns_eq_ok_iff.mp (hcolumns categories hsome rfl)
    exact ⟨hself, hself.symm ▸ h⟩
  · rintro ⟨hself, h⟩
    exact hself ▸ h

/-! ## Executing -/

variable {raw fresh : Json}

theorem validate_eq_check (hdecode : decode raw = .ok config) (t? : Option (Table α)) :
    validate .filter raw t? = config.check t? .refused := by
  rw [validate_eq, Step.decode_filter hdecode, ok_bind, Step.check]

theorem outcome_execute_withoutStale (hdecode : decode raw = .ok config)
    (hfresh : decode fresh = .ok (config.withoutStale t)) (h : config.checkShape = .ok ()) :
    (execute .filter t raw references).outcome = (execute .filter t fresh references).outcome := by
  rw [outcome_execute, outcome_execute, Step.decode_filter hdecode, Step.decode_filter hfresh]
  simp only [ok_bind, Step.check, Step.run, check_withoutStale h, run_withoutStale]

/-- A step warns when it has passed the check and is run. -/
theorem warnings_execute_of_check (hdecode : decode raw = .ok config)
    (h : config.check (some t) .allowed = .ok ()) :
    (execute .filter t raw references).warnings = config.warnings t := by
  unfold execute Step.ofConfig
  rw [Step.decode_filter hdecode, ok_bind, Step.check, h]
  rfl

theorem warnings_execute_of_not_check (hdecode : decode raw = .ok config)
    (h : config.check (some t) .allowed ≠ .ok ()) :
    (execute .filter t raw references).warnings = [] := by
  unfold execute Step.ofConfig
  rw [Step.decode_filter hdecode, ok_bind, Step.check]
  cases hcheck : config.check (some t) .allowed with
  | error e => rfl
  | ok _ => exact absurd hcheck h

theorem warnings_execute_of_staleCategories_eq_nil (hdecode : decode raw = .ok config)
    (h : config.staleCategories t = []) : (execute .filter t raw references).warnings = [] := by
  by_cases hcheck : config.check (some t) .allowed = .ok ()
  · rw [warnings_execute_of_check hdecode hcheck, warnings, h, List.map_nil]
  · exact warnings_execute_of_not_check hdecode hcheck

/-! ## Configs -/

/-- The members of a config with these categories and the other parts of another config. -/
def membersWith (categories : Option (Dictionary (List Json))) (raw : Json) :
    List (String × Json) :=
  let part (name : String) : Json :=
    (Wire.Record.member? ["category_filter", "numeric_filter", "table_filter"] name raw).getD .null
  [ ("category_filter", .ofOption (categories.map fun c => .object (c.map .arr))),
    ("numeric_filter", part "numeric_filter"), ("table_filter", part "table_filter") ]

theorem decode_membersWith (categories : Option (Dictionary (List Json)))
    (h : decode raw = .ok config) :
    decode (.record (membersWith categories raw)) = .ok { config with categories } := by
  have hget {name : String} {j : Json} (hmem : (name, j) ∈ membersWith categories raw) :
      (Dictionary.ofList (membersWith categories raw)).get? name = some j :=
    Dictionary.get?_ofList_of_mem (by simp [membersWith]) hmem
  -- A part that is left out is null, and that is read alike.
  have horNull {τ : Type} (d : Wire.Decoder τ) (j? : Option Json) :
      Wire.orNull d (some (j?.getD .null)) = Wire.orNull d j? := by
    cases j? <;> rfl
  rw [decode_eq_fields] at h ⊢
  obtain ⟨positional, hread⟩ := Wire.Record.read_of_decode h
  obtain ⟨-, hnumeric, hjoin⟩ := read_fields_eq_ok_iff.mp hread
  refine Wire.Record.decode_record_eq_ok_iff.mpr (read_fields_eq_ok_iff.mpr ?_)
  dsimp only
  rw [hget List.mem_cons_self, hget (List.mem_cons_of_mem _ List.mem_cons_self),
    hget (List.mem_cons_of_mem _ (List.mem_cons_of_mem _ List.mem_cons_self))]
  refine ⟨?_, (horNull _ _).trans hnumeric, (horNull _ _).trans hjoin⟩
  exact Wire.nullable_ofOption nofun fun c _ =>
    Wire.dictionary_object fun _ values _ => Wire.list_anything values

/-- A config that is sound without a table does over every table what it does without its stale
categories, which a check against the table refuses and of which a run warns once each, in their
order. -/
theorem stale_categories_only_warn {raw : Json}
    (hvalid : validate (α := α) .filter raw none = .ok ()) :
    ∃ config : Filter α, decode raw = .ok config ∧
      ∀ t : Table α, (∃ fresh, decode fresh = .ok (config.withoutStale t)) ∧
        ∀ fresh, decode fresh = .ok (config.withoutStale t) → ∀ references : References α,
          (execute .filter t raw references).outcome =
              (execute .filter t fresh references).outcome ∧
            (validate .filter raw (some t) = .ok () ↔
              config.withoutStale t = config ∧ validate .filter fresh (some t) = .ok ()) ∧
            ((config.staleCategories t).Pairwise (· < ·) ∧
              (∀ name, name ∈ config.staleCategories t ↔
                (∃ categories, config.categories = some categories ∧ name ∈ categories.keys) ∧
                  name ∉ t.columns) ∧
              (config.check (some t) .allowed = .ok () →
                (execute .filter t raw references).warnings =
                  (config.staleCategories t).map .staleCategory) ∧
              (config.check (some t) .allowed ≠ .ok () →
                (execute .filter t raw references).warnings = [])) ∧
            (execute .filter t fresh references).warnings = [] := by
  obtain ⟨step, hstep, hcheck⟩ := validate_eq_ok_iff.mp hvalid
  obtain ⟨config, hdecode, rfl⟩ := map_eq_ok_iff.mp (mapError_eq_ok_iff.mp hstep)
  have hshape : config.checkShape = .ok () := (check_bind_eq_ok_iff.mp hcheck).1
  refine ⟨config, hdecode, fun t => ⟨⟨_, decode_membersWith _ hdecode⟩, ?_⟩⟩
  intro fresh hfresh references
  refine ⟨outcome_execute_withoutStale hdecode hfresh hshape, ?_, ?_, ?_⟩
  · rw [validate_eq_check hdecode, validate_eq_check hfresh, check_refused_iff]
  · exact ⟨sorted_staleCategories config t, fun _ => mem_staleCategories_iff,
      warnings_execute_of_check hdecode, warnings_execute_of_not_check hdecode⟩
  · exact warnings_execute_of_staleCategories_eq_nil hfresh staleCategories_withoutStale

/-- Two of three categories are stale; the third one and the join cut four rows to one. -/
theorem stale_categories_only_warn_twice :
    let t : Table Float :=
      ⟨["region", "product"],
        [[.text "North", .text "tea"], [.text "South", .text "tea"],
          [.text "North", .text "milk"], [.empty, .text "tea"]]⟩
    let references : References Float := .ofList [("sold", ⟨["product"], [[.text "tea"]]⟩)]
    let raw : Json :=
      .obj
        [ ("category_filter",
            .obj [("zone", .arr []), ("region", .arr [.str "North"]), ("area", .arr [.null])]),
          ("table_filter",
            .obj [("reference", .str "sold"), ("key_columns", .arr [.str "product"])]) ]
    let fresh : Json :=
      .obj
        [ ("category_filter", .obj [("region", .arr [.str "North"])]),
          ("table_filter",
            .obj [("reference", .str "sold"), ("key_columns", .arr [.str "product"])]) ]
    let result : StepOutput Float :=
      .ofTable ⟨["region", "product"], [[.text "North", .text "tea"]]⟩
    (execute .filter t raw references).outcome = .ok result ∧
      (execute .filter t raw references).warnings =
        [.staleCategory "area", .staleCategory "zone"] ∧
      execute .filter t fresh references = ⟨[], .ok result⟩ ∧
      validate .filter raw (some t) ≠ .ok () := by
  intro t references raw fresh result
  let categories : Dictionary (List Json) :=
    ⟨[("area", [.null]), ("region", [.str "North"]), ("zone", [])], by decide⟩
  let config : Filter Float := ⟨some categories, none, some ⟨true, some "sold", ["product"], false⟩⟩
  have hdecode : decode raw = .ok config := rfl
  have hvalid : validate (α := Float) .filter raw none = .ok () := by
    rw [validate_eq_check hdecode]
    rfl
  obtain ⟨found, hfound, h⟩ := stale_categories_only_warn hvalid
  obtain rfl : config = found := Except.ok.inj (hdecode.symm.trans hfound)
  obtain ⟨-, h⟩ := h t
  have hrun : execute .filter t fresh references = ⟨[], .ok result⟩ := rfl
  have hstale : config.staleCategories t = ["area", "zone"] := rfl
  have hcheck : config.check (some t) .allowed = .ok () := rfl
  obtain ⟨houtcome, hstrict, ⟨-, -, hwarnings, -⟩, -⟩ := h fresh rfl references
  refine ⟨houtcome.trans (by rw [hrun]), ?_, hrun, fun hraw => ?_⟩
  · rw [hwarnings hcheck, hstale]
    rfl
  · have hself := withoutStale_eq_self_iff.mp (hstrict.mp hraw).1 categories rfl
    exact absurd (hself "zone" (by decide)) (by decide)

end Filter
end TableSteps
