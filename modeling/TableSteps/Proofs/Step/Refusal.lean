import TableSteps.Binary64.Quantity
import TableSteps.Proofs.Outcome
import TableSteps.Step.Run

/-! # What is refused without a table

The checks that need no table come first, and they do not look at the table when there is one. So
a config that is refused by itself is refused with the same error over every table, checked or run,
and a config that some table accepts is accepted by itself. -/

namespace TableSteps

variable {α : Type} [WireQuantity α] {e : StepError}

/-- A chart refused without a table is never built on trial. -/
theorem ChartSpec.check_some_eq_error {chart : ChartSpec}
    (h : chart.check (α := α) none = .error e) (t : Table α) : chart.check (some t) = .error e := by
  simp only [ChartSpec.check, bind_eq_error_iff] at h ⊢
  obtain h | ⟨kind, hk, h | ⟨u, -, h⟩⟩ := h
  · exact .inl h
  · exact .inr ⟨kind, hk, .inl h⟩
  · cases h

theorem Aggregation.check_some_eq_error {config : Aggregation}
    (h : config.check (α := α) none = .error e) (t : Table α) :
    config.check (some t) = .error e := by
  simp only [Aggregation.check, bind_eq_error_iff] at h ⊢
  obtain h | ⟨u, -, h⟩ := h
  · exact .inl h
  · cases h

theorem Filter.check_some_eq_error {config : Filter α} {stale : StaleCategories}
    (h : config.check none stale = .error e) (t : Table α) (stale' : StaleCategories) :
    config.check (some t) stale' = .error e := by
  simp only [Filter.check, bind_eq_error_iff] at h ⊢
  obtain h | ⟨u, -, h⟩ := h
  · exact .inl h
  · cases h

theorem Transform.check_some_eq_error {config : Transform α}
    (h : config.check none = .error e) (t : Table α) : config.check (some t) = .error e := by
  simp only [Transform.check, bind_eq_error_iff] at h ⊢
  obtain h | ⟨u, -, h⟩ := h
  · exact .inl h
  · cases h

theorem Summary.check_some_eq_error {config : Summary α}
    (h : config.check none = .error e) (t : Table α) : config.check (some t) = .error e := by
  simp only [Summary.check, bind_eq_error_iff] at h ⊢
  obtain h | ⟨u, hu, h | ⟨v, -, h⟩⟩ := h
  · exact .inl h
  · refine .inr ⟨u, hu, .inl ?_⟩
    unfold Summary.checkChart at h ⊢
    split at h
    · exact ChartSpec.check_some_eq_error h t
    · cases h
  · cases h

/-- The two ways of treating stale categories differ only in what they look up in a table. -/
theorem Step.check_some_eq_error {step : Step α} {stale : StaleCategories}
    (h : step.check none stale = .error e) (t : Table α) (stale' : StaleCategories) :
    step.check (some t) stale' = .error e := by
  cases step with
  | aggregate config => exact Aggregation.check_some_eq_error h t
  | filter config =>
    have hf : config.check none stale = .error e := h
    exact Filter.check_some_eq_error hf t stale'
  | transform config => exact Transform.check_some_eq_error h t
  | summary config => exact Summary.check_some_eq_error h t

theorem Step.ofConfig_some_eq_error {kind : StepKind} {config : Json} {stale : StaleCategories}
    (h : Step.ofConfig (α := α) kind config none stale = .error e) (t : Table α)
    (stale' : StaleCategories) : Step.ofConfig kind config (some t) stale' = .error e := by
  simp only [Step.ofConfig, bind_eq_error_iff] at h ⊢
  obtain h | ⟨step, hd, h | ⟨u, -, h⟩⟩ := h
  · exact .inl h
  · exact .inr ⟨step, hd, .inl (Step.check_some_eq_error h t stale')⟩
  · cases h

/-- An error found without a table is the error over every table, whatever the references are, and
what is accepted over one table is accepted without any. -/
theorem refusal_independent_of_table (kind : StepKind) (config : Json) :
    (∀ e, validate (α := α) kind config none = .error e →
      (∀ t : Table α, validate kind config (some t) = .error e) ∧
      ∀ (t : Table α) (references : References α),
        execute kind t config references = .silent (.error e)) ∧
    ∀ t : Table α, validate kind config (some t) = .ok () →
      validate (α := α) kind config none = .ok () := by
  have first : ∀ e, validate (α := α) kind config none = .error e →
      ∀ (t : Table α) (stale : StaleCategories),
        Step.ofConfig kind config (some t) stale = .error e := by
    intro e h t stale
    exact Step.ofConfig_some_eq_error (map_eq_error_iff.mp h) t stale
  refine ⟨fun e h => ⟨fun t => map_eq_error_iff.mpr (first e h t .refused), ?_⟩, ?_⟩
  · intro t references
    unfold execute
    rw [first e h t .allowed, Logged.silent_error_andThen]
  · intro t ht
    cases hn : validate (α := α) kind config none with
    | ok u => rfl
    | error e =>
      rw [validate, first e hn t .refused] at ht
      cases ht

/-- A pie chart without values is refused over every table, and a join accepted over one table is
accepted without it. -/
theorem refusal_independent_of_table_samples :
    let pie : Json := .obj [("chart", .obj [("graph_type", .str "pie"), ("names", .str "n")])]
    let join : Json :=
      .obj [("table_filter", .obj [("reference", .str "r"), ("key_columns", .arr [.str "k"])])]
    (∃ e, validate (α := Float) .summary pie none = .error e ∧
      (∀ t : Table Float, validate .summary pie (some t) = .error e) ∧
      ∀ (t : Table Float) (references : References Float),
        execute .summary t pie references = .silent (.error e)) ∧
    validate (α := Float) .filter join (some ⟨["k"], []⟩) = .ok () ∧
    validate (α := Float) .filter join none = .ok () := by
  intro pie join
  have hpie : validate (α := Float) .summary pie none =
      .error (.placed (.member (.root "chart") "values") (.chartFault .pie (.missing "values")
        (Dictionary.ofList [("names", .str "n")]))) := by rfl
  have hjoin : validate (α := Float) .filter join (some ⟨["k"], []⟩) = .ok () := rfl
  obtain ⟨hrefused, -⟩ := refusal_independent_of_table (α := Float) .summary pie
  obtain ⟨-, haccepted⟩ := refusal_independent_of_table (α := Float) .filter join
  exact ⟨⟨_, hpie, hrefused _ hpie⟩, hjoin, haccepted _ hjoin⟩

end TableSteps
