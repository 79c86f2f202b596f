import TableSteps.Proofs.Binary64.Finite
import TableSteps.Proofs.Step.Execution
import TableSteps.Proofs.Step.ReadBack

/-! # The normal form of a config

A config may leave out what has a default, give a record as an array and carry members that nothing
reads. Decoding it and writing what was decoded gives its normal form: an object with every field,
which decodes to the same step. Nothing that looks at a config can tell the two apart. -/

namespace TableSteps

namespace Wire

/-- How a document looks that spells out all fields of its records. -/
inductive Outline where
  | any
  | nullable (value : Outline)
  | list (item : Outline)
  | record (fields : List (String × Outline))
  | tagged (key : String) (variants : List (String × List (String × Outline)))

namespace Outline

mutual

/-- The document follows the outline: each record is an object with all its fields and no other
member. -/
inductive Spelled : Outline → Json → Prop where
  | any (j : Json) : Spelled .any j
  | null (value : Outline) : Spelled (.nullable value) .null
  | value {value : Outline} {j : Json} (h : Spelled value j) : Spelled (.nullable value) j
  | list {item : Outline} {js : List Json} (h : ∀ j ∈ js, Spelled item j) :
    Spelled (.list item) (.arr js)
  | record {fields : List (String × Outline)} {members : List (String × Json)}
    (h : SpelledFields fields members) : Spelled (.record fields) (.record members)
  | tagged {key tag : String} {variants : List (String × List (String × Outline))}
    {fields : List (String × Outline)} {members : List (String × Json)}
    (hvariant : (tag, fields) ∈ variants) (h : SpelledFields fields members) :
    Spelled (.tagged key variants) (.record ((key, .str tag) :: members))

/-- The members are the fields, in their order. -/
inductive SpelledFields : List (String × Outline) → List (String × Json) → Prop where
  | nil : SpelledFields [] []
  | cons {name : String} {outline : Outline} {j : Json} {fields : List (String × Outline)}
    {members : List (String × Json)} (h : Spelled outline j)
    (hrest : SpelledFields fields members) :
    SpelledFields ((name, outline) :: fields) ((name, j) :: members)

end

theorem Spelled.ofOption {τ : Type} {outline : Outline} {encode : τ → Json}
    (h : ∀ v, outline.Spelled (encode v)) (x : Option τ) :
    (nullable outline).Spelled (.ofOption (x.map encode)) := by
  cases x with
  | none => exact .null _
  | some v => exact .value (h v)

theorem Spelled.map {τ : Type} {outline : Outline} {encode : τ → Json}
    (h : ∀ v, outline.Spelled (encode v)) (xs : List τ) :
    (Outline.list outline).Spelled (.arr (xs.map encode)) :=
  .list (List.forall_mem_map.mpr fun v _ => h v)

end Outline
end Wire

open TableSteps.Wire (Outline)
open TableSteps.Wire.Outline (Spelled)

/-! ## The outlines of configs -/

variable {α : Type} [WireQuantity α]

def Entry.outline : Outline := .record [("name", .any), ("subject", .any), ("method", .any)]

theorem Entry.spelled_encode (e : Entry) : outline.Spelled e.encode :=
  .record (.cons (.any _) (.cons (.any _) (.cons (.any _) .nil)))

def Aggregation.outline : Outline := .record [("axis", .any), ("column", .list Entry.outline)]

theorem Aggregation.spelled_encode (config : Aggregation) : outline.Spelled config.encode :=
  .record (.cons (.any _) (.cons (.map Entry.spelled_encode _) .nil))

def Bound.outline : Outline := .record [("value", .any), ("enabled", .any), ("inclusive", .any)]

theorem Bound.spelled_encode (b : Bound α) : outline.Spelled b.encode :=
  .record (.cons (.any _) (.cons (.any _) (.cons (.any _) .nil)))

def NumberFilter.outline : Outline :=
  .tagged "filter_type"
    [ ("range",
        [("column", .any), ("min", .nullable Bound.outline), ("max", .nullable Bound.outline)]),
      ("topk", [("column", .any), ("k", .any), ("ascending", .any)]),
      ("percentage", [("column", .any), ("min_percentile", .any), ("max_percentile", .any)]) ]

theorem NumberFilter.spelled_encode (filter : NumberFilter α) :
    outline.Spelled filter.encode := by
  cases filter with
  | range column min max =>
    have hbound (b : Option (Bound α)) := Spelled.ofOption Bound.spelled_encode b
    exact .tagged (.head _) (.cons (.any _) (.cons (hbound min) (.cons (hbound max) .nil)))
  | top column count ascending =>
    exact .tagged (.tail _ (.head _)) (.cons (.any _) (.cons (.any _) (.cons (.any _) .nil)))
  | band column low high =>
    exact .tagged (.tail _ (.tail _ (.head _)))
      (.cons (.any _) (.cons (.any _) (.cons (.any _) .nil)))

def JoinFilter.outline : Outline :=
  .record
    [("enable", .any), ("reference", .any), ("key_columns", .any), ("exclude_mode", .any)]

theorem JoinFilter.spelled_encode (filter : JoinFilter) : outline.Spelled filter.encode :=
  .record (.cons (.any _) (.cons (.any _) (.cons (.any _) (.cons (.any _) .nil))))

def Filter.outline : Outline :=
  .record
    [ ("category_filter", .any), ("numeric_filter", .nullable NumberFilter.outline),
      ("table_filter", .nullable JoinFilter.outline) ]

theorem Filter.spelled_encode (config : Filter α) : outline.Spelled config.encode :=
  .record (.cons (.any _) (.cons (.ofOption NumberFilter.spelled_encode _)
    (.cons (.ofOption JoinFilter.spelled_encode _) .nil)))

def Calculation.outline : Outline :=
  .tagged "type"
    [ ("constant", [("value", .any)]), ("copy", [("source", .any)]),
      ("formula", [("left", .any), ("operator", .any), ("right", .any)]),
      ("mapping", [("source", .any), ("mapping", .any)]) ]

theorem Calculation.spelled_encode (c : Calculation α) : outline.Spelled c.encode := by
  cases c with
  | constant value => exact .tagged (.head _) (.cons (.any _) .nil)
  | copy source => exact .tagged (.tail _ (.head _)) (.cons (.any _) .nil)
  | formula left op right =>
    exact .tagged (.tail _ (.tail _ (.head _)))
      (.cons (.any _) (.cons (.any _) (.cons (.any _) .nil)))
  | mapping source targets =>
    exact .tagged (.tail _ (.tail _ (.tail _ (.head _)))) (.cons (.any _) (.cons (.any _) .nil))

def Operation.outline : Outline :=
  .record
    [ ("operation_type", .any), ("target_name", .any), ("calculation", Calculation.outline) ]

theorem Operation.spelled_encode (o : Operation α) : outline.Spelled o.encode :=
  .record (.cons (.any _) (.cons (.any _) (.cons o.calculation.spelled_encode .nil)))

def Transform.outline : Outline := .record [("operations", .list Operation.outline)]

theorem Transform.spelled_encode (config : Transform α) : outline.Spelled config.encode :=
  .record (.cons (.map Operation.spelled_encode _) .nil)

def SummaryFormula.outline : Outline :=
  .record
    [ ("name", .any), ("target_subject", .any), ("type", .any), ("formula_text", .any),
      ("unit", .any), ("portion", .any) ]

theorem SummaryFormula.spelled_encode (f : SummaryFormula α) : outline.Spelled f.encode :=
  .record (.cons (.any _) (.cons (.any _) (.cons (.any _) (.cons (.any _) (.cons (.any _)
    (.cons (.any _) .nil))))))

/-- A chart has no field of its own but the tag: its options are whatever stands beside it. -/
def Summary.outline : Outline :=
  .record
    [ ("formula", .nullable (.list SummaryFormula.outline)), ("chart", .any),
      ("include_table", .any) ]

theorem Summary.spelled_encode (config : Summary α) : outline.Spelled config.encode :=
  .record (.cons (.ofOption (.map SummaryFormula.spelled_encode) _) (.cons (.any _)
    (.cons (.any _) .nil)))

/-! ## The normal form -/

namespace Step

def outline : StepKind → Outline
  | .aggregate => Aggregation.outline
  | .filter => Filter.outline
  | .transform => Transform.outline
  | .summary => Summary.outline

theorem spelled_encode {kind : StepKind} {raw : Json} {step : Step α}
    (h : decode kind raw = .ok step) : (outline kind).Spelled step.encode := by
  have hshape := mapError_eq_ok_iff.mp h
  cases kind with
  | aggregate =>
    obtain ⟨config, -, rfl⟩ := map_eq_ok_iff.mp hshape
    exact config.spelled_encode
  | filter =>
    obtain ⟨config, -, rfl⟩ := map_eq_ok_iff.mp hshape
    exact config.spelled_encode
  | transform =>
    obtain ⟨config, -, rfl⟩ := map_eq_ok_iff.mp hshape
    exact config.spelled_encode
  | summary =>
    obtain ⟨config, -, rfl⟩ := map_eq_ok_iff.mp hshape
    exact config.spelled_encode

theorem decode_encode_of_decode [FiniteLaws α] {kind : StepKind} {raw : Json} {step : Step α}
    (hraw : raw.Storable) (h : decode kind raw = .ok step) :
    decode kind step.encode = .ok step := by
  have hshape := mapError_eq_ok_iff.mp h
  refine mapError_eq_ok_iff.mpr ?_
  cases kind with
  | aggregate =>
    obtain ⟨config, hconfig, rfl⟩ := map_eq_ok_iff.mp hshape
    exact map_eq_ok_iff.mpr ⟨config, Aggregation.readsBack raw config hraw hconfig, rfl⟩
  | filter =>
    obtain ⟨config, hconfig, rfl⟩ := map_eq_ok_iff.mp hshape
    exact map_eq_ok_iff.mpr ⟨config, Filter.readsBack raw config hraw hconfig, rfl⟩
  | transform =>
    obtain ⟨config, hconfig, rfl⟩ := map_eq_ok_iff.mp hshape
    exact map_eq_ok_iff.mpr ⟨config, Transform.readsBack raw config hraw hconfig, rfl⟩
  | summary =>
    obtain ⟨config, hconfig, rfl⟩ := map_eq_ok_iff.mp hshape
    exact map_eq_ok_iff.mpr ⟨config, Summary.readsBack raw config hraw hconfig, rfl⟩

end Step

/-- Configs that describe one step are validated alike. -/
theorem validate_congr {kind : StepKind} {raw other : Json}
    (h : Step.decode (α := α) kind raw = Step.decode kind other) (t? : Option (Table α)) :
    validate kind raw t? = validate kind other t? := by
  rw [validate_eq, validate_eq, h]

/-- Configs that describe one step are executed alike, warnings included. -/
theorem execute_congr {kind : StepKind} {raw other : Json}
    (h : Step.decode (α := α) kind raw = Step.decode kind other) (t : Table α)
    (references : References α) :
    execute kind t raw references = execute kind t other references := by
  rw [execute, Step.ofConfig, h]
  rfl

/-- Writing the step that a config describes gives a normal form of the config: it describes the
same step, spells out every field, is the form of no config that describes another step, and is
validated and executed as the config is. -/
theorem normal_form [FiniteLaws α] {kind : StepKind} {raw : Json} {step : Step α}
    (hraw : raw.Storable) (h : Step.decode kind raw = .ok step) :
    Step.decode kind step.encode = .ok step ∧
      (Step.decode kind step.encode).map (Step.encode (α := α)) = .ok step.encode ∧
      (Step.outline kind).Spelled step.encode ∧
      (∀ (other : Json) (described : Step α), other.Storable →
        Step.decode kind other = .ok described →
        (described.encode = step.encode ↔ described = step)) ∧
      (∀ t? : Option (Table α), validate kind step.encode t? = validate kind raw t?) ∧
      ∀ (t : Table α) (references : References α),
        execute kind t step.encode references = execute kind t raw references := by
  have hback := Step.decode_encode_of_decode hraw h
  refine ⟨hback, by rw [hback, ok_map], Step.spelled_encode h, ?_,
    validate_congr (hback.trans h.symm), execute_congr (hback.trans h.symm)⟩
  intro other described hother hdescribed
  refine ⟨fun hencode => ?_, congrArg Step.encode⟩
  have hagain := Step.decode_encode_of_decode hother hdescribed
  rw [hencode, hback] at hagain
  exact (Except.ok.inj hagain).symm

/-- A range given by the least number alone, the bound as an array of its value. -/
theorem normal_form_of_range :
    let raw : Json :=
      .obj
        [ ("numeric_filter",
            .obj [("filter_type", .str "range"), ("column", .str "sales"), ("min", .arr [.int 3])]),
          ("remark", .str "not read") ]
    let full : Json :=
      .record
        [ ("category_filter", .null),
          ("numeric_filter",
            .record
              [ ("filter_type", .str "range"), ("column", .str "sales"),
                ("min",
                  .record
                    [("value", .float 3.0), ("enabled", .bool true), ("inclusive", .bool true)]),
                ("max", .null) ]),
          ("table_filter", .null) ]
    (∃ step : Step Float, Step.decode .filter raw = .ok step ∧ step.encode = full ∧
      Step.decode .filter full = .ok step) ∧
    ∀ (t : Table Float) (references : References Float),
      execute .filter t full references = execute .filter t raw references := by
  intro raw full
  have hraw : raw.Storable := by simp [raw, Json.fitsWord]
  have hdecode : Step.decode (α := Float) .filter raw =
      .ok (.filter ⟨none, some (.range "sales" (some ⟨3.0, true, true⟩) none), none⟩) := rfl
  have hencode : Step.encode (α := Float)
      (.filter ⟨none, some (.range "sales" (some ⟨3.0, true, true⟩) none), none⟩) = full := rfl
  obtain ⟨hback, -, -, -, -, hexecute⟩ := normal_form hraw hdecode
  rw [hencode] at hback hexecute
  exact ⟨⟨_, hdecode, hencode, hback⟩, hexecute⟩

end TableSteps
