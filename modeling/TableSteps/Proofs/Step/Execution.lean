import TableSteps.Pipeline
import TableSteps.Proofs.Outcome

/-! # What an execution does, part by part

Validating a config decodes and checks it; the outcome of a step is that of decoding its config,
checking it and running it. Two steps one after another succeed when both do, the second over the
table that the first has left. -/

namespace TableSteps

variable {α : Type} [WireQuantity α] {t : Table α} {references : References α}

theorem Step.decode_aggregate {raw : Json} {config : Aggregation}
    (h : Aggregation.decode raw = .ok config) :
    Step.decode (α := α) .aggregate raw = .ok (.aggregate config) := by
  rw [Step.decode, Step.decodeShape, h, ok_map, ok_mapError]

theorem Step.decode_filter {raw : Json} {config : Filter α} (h : Filter.decode raw = .ok config) :
    Step.decode .filter raw = .ok (.filter config) := by
  rw [Step.decode, Step.decodeShape, h, ok_map, ok_mapError]

theorem Step.decode_transform {raw : Json} {config : Transform α}
    (h : Transform.decode raw = .ok config) :
    Step.decode .transform raw = .ok (.transform config) := by
  rw [Step.decode, Step.decodeShape, h, ok_map, ok_mapError]

theorem validate_eq (kind : StepKind) (config : Json) (t? : Option (Table α)) :
    validate kind config t? = (do
      let step : Step α ← Step.decode kind config
      step.check t? .refused) := by
  unfold validate Step.ofConfig
  cases Step.decode (α := α) kind config with
  | error e => rfl
  | ok step =>
    simp only [ok_bind]
    cases step.check t? .refused <;> rfl

theorem validate_eq_ok_iff {kind : StepKind} {config : Json} {t? : Option (Table α)} :
    validate kind config t? = .ok () ↔
      ∃ step : Step α, Step.decode kind config = .ok step ∧ step.check t? .refused = .ok () := by
  rw [validate_eq, bind_eq_ok_iff]

theorem outcome_execute (kind : StepKind) (t : Table α) (config : Json)
    (references : References α) :
    (execute kind t config references).outcome = (do
      let step : Step α ← Step.decode kind config
      step.check (some t) .allowed
      step.run t references) := by
  unfold execute Step.ofConfig
  cases Step.decode (α := α) kind config with
  | error e => rfl
  | ok step =>
    simp only [ok_bind]
    cases step.check (some t) .allowed <;> rfl

theorem execute_eq_ok_iff {kind : StepKind} {config : Json} {result : StepOutput α} :
    (execute kind t config references).outcome = .ok result ↔
      ∃ step : Step α, Step.decode kind config = .ok step ∧
        step.check (some t) .allowed = .ok () ∧ step.run t references = .ok result := by
  rw [outcome_execute, bind_eq_ok_iff]
  simp only [check_bind_eq_ok_iff]

/-- A filter runs as a step when its config is decoded, passes the check and runs. -/
theorem Filter.execute_eq_ok_iff {raw : Json} {result : StepOutput α} :
    (execute .filter t raw references).outcome = .ok result ↔
      ∃ config, decode raw = .ok config ∧ config.check (some t) .allowed = .ok () ∧
        ∃ u, config.run t references = .ok u ∧ result = .ofTable u := by
  rw [TableSteps.execute_eq_ok_iff]
  constructor
  · rintro ⟨step, hstep, hcheck, hrun⟩
    obtain ⟨config, hdecode, rfl⟩ := map_eq_ok_iff.mp (mapError_eq_ok_iff.mp hstep)
    obtain ⟨u, hu, rfl⟩ := map_eq_ok_iff.mp hrun
    exact ⟨config, hdecode, hcheck, u, hu, rfl⟩
  · rintro ⟨config, hdecode, hcheck, u, hu, rfl⟩
    exact ⟨.filter config, Step.decode_filter hdecode, hcheck, map_eq_ok_iff.mpr ⟨u, hu, rfl⟩⟩

/-- A filter that passes the check and runs has no more to tell than its warnings. -/
theorem Filter.execute_eq {raw : Json} {config : Filter α} {u : Table α}
    (hdecode : decode raw = .ok config) (hcheck : config.check (some t) .allowed = .ok ())
    (hrun : config.run t references = .ok u) :
    execute .filter t raw references = ⟨config.warnings t, .ok (.ofTable u)⟩ := by
  unfold execute Step.ofConfig
  rw [Step.decode_filter hdecode, ok_bind, Step.check, hcheck]
  simp only [ok_bind, pure_eq_ok, Logged.silent_ok_andThen, Step.runLogged, Step.run, hrun, ok_map]
  rfl

theorem Transform.execute_eq_ok_iff {raw : Json} {result : StepOutput α} :
    (execute .transform t raw references).outcome = .ok result ↔
      ∃ config, decode raw = .ok config ∧ config.check (some t) = .ok () ∧
        ∃ u, config.run t = .ok u ∧ result = .ofTable u := by
  rw [TableSteps.execute_eq_ok_iff]
  constructor
  · rintro ⟨step, hstep, hcheck, hrun⟩
    obtain ⟨config, hdecode, rfl⟩ := map_eq_ok_iff.mp (mapError_eq_ok_iff.mp hstep)
    obtain ⟨u, hu, rfl⟩ := map_eq_ok_iff.mp hrun
    exact ⟨config, hdecode, hcheck, u, hu, rfl⟩
  · rintro ⟨config, hdecode, hcheck, u, hu, rfl⟩
    exact ⟨.transform config, Step.decode_transform hdecode, hcheck,
      map_eq_ok_iff.mpr ⟨u, hu, rfl⟩⟩

namespace Pipeline

/-- A pipeline goes on with the table of a step that succeeds. -/
theorem outcome_runFrom_cons {i : Nat} {step : PlannedStep} {rest : List PlannedStep}
    {result : StepOutput α}
    (h : (execute step.kind t step.config references).outcome = .ok result) :
    (runFrom references i t (step :: rest)).outcome =
      (runFrom references (i + 1) (nextTable t result) rest).outcome.map fun output =>
        { output with results := result :: output.results } := by
  simp only [runFrom, Logged.andThen, Logged.mapError, h, ok_mapError]
  cases (runFrom references (i + 1) (nextTable t result) rest).outcome <;> rfl

theorem outcome_runFrom_cons_eq_ok_iff {i : Nat} {step : PlannedStep} {rest : List PlannedStep}
    {output : PipelineOutcome α} :
    (runFrom references i t (step :: rest)).outcome = .ok output ↔
      ∃ result, (execute step.kind t step.config references).outcome = .ok result ∧
        ∃ tail, (runFrom references (i + 1) (nextTable t result) rest).outcome = .ok tail ∧
          output = { tail with results := result :: tail.results } := by
  rw [runFrom, Logged.outcome_andThen_eq_ok_iff]
  refine exists_congr fun result => and_congr mapError_eq_ok_iff ?_
  rw [Logged.outcome_andThen_eq_ok_iff]
  refine exists_congr fun tail => and_congr_right fun _ => ?_
  rw [Logged.silent, Except.ok.injEq, eq_comm]

/-- Two steps succeed when the first does, and the second on what the first has left. -/
theorem run_pair_eq_ok_iff {first second : PlannedStep} {output : PipelineOutcome α} :
    (run ⟨[first, second]⟩ t references).outcome = .ok output ↔
      ∃ before, (execute first.kind t first.config references).outcome = .ok before ∧
        ∃ after, (execute second.kind (nextTable t before) second.config references).outcome =
            .ok after ∧
          output = ⟨nextTable (nextTable t before) after, [before, after]⟩ := by
  unfold run
  simp only [outcome_runFrom_cons_eq_ok_iff]
  constructor
  · rintro ⟨before, hbefore, -, ⟨after, hafter, -, ⟨rfl⟩, rfl⟩, rfl⟩
    exact ⟨before, hbefore, after, hafter, rfl⟩
  · rintro ⟨before, hbefore, after, hafter, rfl⟩
    exact ⟨before, hbefore, _, ⟨after, hafter, _, rfl, rfl⟩, rfl⟩

end Pipeline
end TableSteps
