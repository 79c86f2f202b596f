import TableSteps.Binary64.Quantity
import TableSteps.Proofs.Indexing.Aggregation
import TableSteps.Proofs.Indexing.Filter
import TableSteps.Proofs.Indexing.Summary
import TableSteps.Proofs.Indexing.Transform
import TableSteps.Proofs.Step.Execution

/-! # Execution stays within bounds

`Guarded.execute` decodes, checks and runs a step with every read and write by position made to
tell when the position is not there. Over a well-formed table and well-formed references it tells
nothing of the kind: it ends as `execute` does. -/

namespace TableSteps

variable {α : Type} [WireQuantity α]

/-- The percentiles that a step asks for point inside what the rows can give. -/
def Step.PercentilesInside (step : Step α) (t : Table α) : Prop :=
  match step with
  | .filter config => config.PercentilesInside t
  | _ => True

namespace Guarded

def checkStep (step : Step α) (t : Table α) (stale : StaleCategories) : Guarded StepError Unit :=
  match step with
  | .aggregate config => checkAggregation config t
  | .filter config => checkFilter config t stale
  | .transform config => settle (config.check (some t))
  | .summary config => checkSummary config t

def toOutput (x : Guarded StepError (Table α)) : Guarded StepError (StepOutput α) := do
  let t ← x
  settle (.ok (.ofTable t))

def runStep (step : Step α) (t : Table α) (references : References α) :
    Guarded StepError (StepOutput α) :=
  match step with
  | .aggregate config => toOutput (aggregate config t)
  | .filter config => toOutput (filter config t references)
  | .transform config => toOutput (transform config t)
  | .summary config => summarize config t

/-- Decodes and checks a config and runs the step, every position looked after. -/
def execute (kind : StepKind) (t : Table α) (config : Json) (references : References α) :
    Guarded StepError (StepOutput α) := do
  let step ← settle (Step.decode kind config)
  checkStep step t .allowed
  runStep step t references

variable {t : Table α} {references : References α}

theorem checkStep_eq_settle (ht : t.WellFormed) (step : Step α) (stale : StaleCategories) :
    checkStep step t stale = settle (step.check (some t) stale) := by
  cases step with
  | aggregate config => exact checkAggregation_eq_settle ht config
  | filter config => exact checkFilter_eq_settle ht config stale
  | transform config => rfl
  | summary config => exact checkSummary_eq_settle ht config

omit [WireQuantity α] in
theorem toOutput_settle (x : Checked (Table α)) :
    toOutput (settle x) = settle (x.map StepOutput.ofTable) := by
  cases x <;> rfl

theorem runStep_eq_settle (ht : t.WellFormed)
    (hreferences : ∀ name r, references.get? name = some r → r.WellFormed) {step : Step α}
    (hinside : step.PercentilesInside t) :
    runStep step t references = settle (step.run t references) := by
  cases step with
  | aggregate config => rw [runStep, aggregate_eq_settle ht, toOutput_settle]; rfl
  | filter config => rw [runStep, filter_eq_settle ht hreferences hinside, toOutput_settle]; rfl
  | transform config => rw [runStep, transform_eq_settle ht, toOutput_settle]; rfl
  | summary config => exact summarize_eq_settle ht config

end Guarded

/-- Over well-formed tables no position is out of bounds, whatever the config, and the execution
that looks after its positions is the execution itself. -/
theorem execute_within_bounds {t : Table α} (ht : t.WellFormed) {references : References α}
    (hreferences : ∀ name r, references.get? name = some r → r.WellFormed) {kind : StepKind}
    {config : Json}
    (hinside : ∀ step : Step α, Step.decode kind config = .ok step → step.PercentilesInside t) :
    (∀ fault, (Guarded.execute kind t config references).run ≠ .error fault) ∧
      Guarded.execute kind t config references =
        Guarded.settle (execute kind t config references).outcome := by
  have hsettled : Guarded.execute kind t config references =
      Guarded.settle (execute kind t config references).outcome := by
    rw [outcome_execute]
    refine Guarded.settle_bind fun step hstep => ?_
    rw [Guarded.checkStep_eq_settle ht]
    refine Guarded.settle_bind fun _ _ => ?_
    exact Guarded.runStep_eq_settle ht hreferences (hinside step hstep)
  refine ⟨fun fault hfault => ?_, hsettled⟩
  rw [hsettled] at hfault
  cases hfault

/-- A band and a join over three rows read and pick nothing that is not there. -/
theorem execute_within_bounds_percentage :
    let config : Json :=
      .obj
        [ ("numeric_filter",
            .obj [("filter_type", .str "percentage"), ("column", .str "v"),
              ("min_percentile", .int 25), ("max_percentile", .int 75)]),
          ("table_filter", .obj [("reference", .str "r"), ("key_columns", .arr [.str "k"])]) ]
    let t : Table Float :=
      ⟨["k", "v"], [[.text "a", .number 10.0], [.text "b", .number 20.0], [.text "a", .text "30"]]⟩
    let r : Table Float := ⟨["k"], [[.text "a"]]⟩
    ∀ fault, (Guarded.execute .filter t config (Dictionary.empty.insert "r" r)).run ≠
      .error fault := by
  intro config t r
  have hdecode : Step.decode (α := Float) .filter config =
      .ok (.filter ⟨none, some (.band "v" 25.0 75.0), some ⟨true, some "r", ["k"], false⟩⟩) := by rfl
  have hlow : PointsInside (α := Float) 3 25.0 := by
    unfold PointsInside
    decide +kernel
  have hhigh : PointsInside (α := Float) 3 75.0 := by
    unfold PointsInside
    decide +kernel
  refine (execute_within_bounds ⟨by decide, by simp [t]⟩ ?_ ?_).1
  · intro name table htable
    rw [Dictionary.get?_insert] at htable
    split at htable
    · cases htable
      exact ⟨by decide, by simp [r]⟩
    · cases htable
  · intro step hstep
    cases hdecode.symm.trans hstep
    intro column low high hband
    cases hband
    exact ⟨hlow, hhigh⟩

/-- Over a row that is too short, the grouping asks for a cell that is not there. -/
example : (Guarded.execute .aggregate (⟨["a"], [[]]⟩ : Table Float)
    (.obj [("axis", .arr [.str "a"]), ("column", .arr [])]) .empty).run = .error ⟨0, 0⟩ := by
  rfl

end TableSteps
