import TableSteps.Proofs.Binary64.SignedZero
import TableSteps.Proofs.SignedZero.Summary
import TableSteps.Proofs.SignedZero.Transform
import TableSteps.Proofs.Step.Execution

/-! # Steps and signed zeros

Two tables that are the same but for the sign of some zeros pass the same checks, and a step fails
over both or over neither. The results agree too, save in three places: a ranking puts one zero
before the other, and mappings and charts that go by labels see two different labels. -/

namespace TableSteps

open Quantity (Agree totalLe)

variable {α : Type} [WireQuantity α] [SignedZeroLaws α] {t u : Table α}

/-! ## Checks -/

namespace Table.Agree

theorem isNumericColumn_eq (h : t.Agree u) : t.isNumericColumn = u.isNumericColumn :=
  funext (Filter.isNumericColumn_eq_of_agree h)

theorem checkNumeric_eq (h : t.Agree u) : t.checkNumeric = u.checkNumeric :=
  checkNumeric_congr h.columns h.isNumericColumn_eq

theorem checkFor_eq (h : t.Agree u) : t.checkFor = u.checkFor :=
  checkFor_congr h.columns h.isNumericColumn_eq

end Table.Agree

/-- A chart is built on trial over both tables or over neither. -/
theorem ChartSpec.alike_check (h : t.Agree u) (config : ChartSpec) :
    Alike (fun _ _ => True) (config.check (some t)) (config.check (some u)) := by
  unfold check
  cases config.kind with
  | error e => exact .error e e
  | ok kind =>
    rw [ok_bind, ok_bind]
    cases config.checkOptions kind with
    | error e => exact .error e e
    | ok _ => exact (config.agree_build h).map fun _ _ _ => trivial

namespace Summary

theorem checkTextColumns_eq (h : t.Agree u) (place : Place) (names : List String) :
    checkTextColumns t place names = checkTextColumns u place names := by
  induction names with
  | nil => rfl
  | cons name rest ih =>
    rw [checkTextColumns, checkTextColumns, h.checkNumeric_eq, ih, Table.hasColumn, Table.hasColumn,
      h.columns]

theorem checkAllColumns_eq (h : t.Agree u) (i : Nat) (fs : List (SummaryFormula α)) :
    checkAllColumns t i fs = checkAllColumns u i fs := by
  have hformula (i : Nat) (f : SummaryFormula α) :
      checkFormulaColumns t i f = checkFormulaColumns u i f := by
    unfold checkFormulaColumns
    simp only [h.checkFor_eq, checkTextColumns_eq h]
  induction fs generalizing i with
  | nil => rfl
  | cons f rest ih => rw [checkAllColumns, checkAllColumns, hformula, ih]

theorem alike_checkChart (h : t.Agree u) (config : Summary α) :
    Alike (fun _ _ => True) (config.checkChart (some t)) (config.checkChart (some u)) := by
  unfold checkChart
  cases config.chart with
  | none => exact .ok trivial
  | some chart => exact chart.alike_check h

theorem alike_check (h : t.Agree u) (config : Summary α) :
    Alike (fun _ _ => True) (config.check (some t)) (config.check (some u)) := by
  unfold check
  cases config.checkFormulaShapes with
  | error e => exact .error e e
  | ok _ =>
    refine (alike_checkChart h config).bind fun _ _ _ => ?_
    dsimp only
    rw [checkAllColumns_eq h]
    exact .refl (fun _ => trivial) _

end Summary

namespace Step

theorem alike_check (h : t.Agree u) (step : Step α) :
    Alike (fun _ _ => True) (step.check (some t) .allowed) (step.check (some u) .allowed) := by
  cases step with
  | aggregate config =>
    rw [check, check, Aggregation.check_congr h.columns h.isNumericColumn_eq]
    exact .refl (fun _ => trivial) _
  | filter config =>
    exact .of_eq_ok (fun _ hv => ⟨(), (Filter.agree_check_iff h).mp hv, trivial⟩)
      fun _ hw => ⟨(), (Filter.agree_check_iff h).mpr hw⟩
  | transform config =>
    rw [check, check, Transform.check_eq h]
    exact .refl (fun _ => trivial) _
  | summary config => exact Summary.alike_check h config

/-- The step tells the tables apart by the zeros that they have: in a ranking, in what its mappings
look up or in the labels of its chart. -/
def TellsApart (step : Step α) (t u : Table α) : Prop :=
  match step with
  | .aggregate _ => False
  | .filter config => config.TellsApart t u
  | .transform config => config.TellsApart t u
  | .summary config => config.TellsApart t u

theorem alike_run_of_check (h : t.Agree u) (references : References α) {step : Step α}
    (ht : step.check (some t) .allowed = .ok ()) :
    Alike (fun r r' => step.TellsApart t u ∨ r.Agree r') (step.run t references)
      (step.run u references) := by
  cases step with
  | aggregate config =>
    exact (Aggregation.agree_run h).map fun _ _ hvw => .inr (StepOutput.agree_ofTable hvw)
  | filter config =>
    exact (Filter.alike_of_check references h ht).map fun _ _ =>
      Or.imp_right StepOutput.agree_ofTable
  | transform config =>
    exact (Transform.alike_of_check h ht).map fun _ _ => Or.imp_right StepOutput.agree_ofTable
  | summary config => exact Summary.agree_run config h

omit [SignedZeroLaws α] in
theorem warnings_eq (h : t.Agree u) (step : Step α) : step.warnings t = step.warnings u := by
  cases step with
  | filter config =>
    simp only [warnings, Filter.warnings, Filter.staleCategories, Table.hasColumn, h.columns]
  | aggregate | transform | summary => rfl

end Step

/-! ## Executions -/

/-- An execution warns of the same and succeeds or fails alike over two tables that agree, and its
results agree unless its step tells the tables apart. -/
theorem agree_execute (h : t.Agree u) (kind : StepKind) (config : Json)
    (references : References α) :
    (execute kind t config references).warnings = (execute kind u config references).warnings ∧
      Alike (fun r r' => (∃ step, Step.decode kind config = .ok step ∧ step.TellsApart t u) ∨
        r.Agree r') (execute kind t config references).outcome
        (execute kind u config references).outcome := by
  unfold execute Step.ofConfig
  cases hstep : Step.decode (α := α) kind config with
  | error e => exact ⟨rfl, .error e e⟩
  | ok step =>
    have hcheck := step.alike_check h
    rw [ok_bind, ok_bind]
    cases ht : step.check (some t) .allowed with
    | error e =>
      cases hu : step.check (some u) .allowed with
      | error e' => exact ⟨rfl, .error e e'⟩
      | ok _ => rw [ht, hu] at hcheck; cases hcheck
    | ok _ =>
      obtain ⟨_, hu, -⟩ := (ht ▸ hcheck).exists_right
      rw [hu]
      refine ⟨step.warnings_eq h, (step.alike_run_of_check h references ht).mono fun _ _ => ?_⟩
      exact Or.imp_left fun htells => ⟨step, rfl, htells⟩

/-- A formula that adds a column to itself leaves the same result over either zero. -/
theorem agree_execute_doubled :
    let t : Table Float := ⟨["v"], [[.number (-0.0)], [.number 1.5]]⟩
    let u : Table Float := ⟨["v"], [[.number 0.0], [.number 1.5]]⟩
    let double : Json := .obj [("operations", .arr [.obj
      [ ("operation_type", .str "add_subject"), ("target_name", .str "w"),
        ("calculation", .obj
          [ ("type", .str "formula"), ("left", .str "v"), ("operator", .str "+"),
            ("right", .str "v") ]) ]])]
    t.Agree u ∧ ∃ r r', (execute .transform t double .empty).outcome = .ok r ∧
      (execute .transform u double .empty).outcome = .ok r' ∧ r.Agree r' := by
  intro t u double
  have hzeros : Agree (-0.0 : Float) 0.0 := .inr ⟨by decide +kernel, by decide +kernel⟩
  have h : t.Agree u :=
    ⟨rfl, .cons (.cons (.number hzeros) .nil) (.cons (.cons (.refl _) .nil) .nil)⟩
  have hrun : (execute .transform t double .empty).outcome = .ok (.ofTable ⟨["v", "w"],
      [[.number (-0.0), .number (-0.0 + -0.0)], [.number 1.5, .number (1.5 + 1.5)]]⟩) := rfl
  have halike := (agree_execute h .transform double .empty).2
  rw [hrun] at halike
  obtain ⟨r', hr', ⟨step, hdecode, htells⟩ | hagree⟩ := halike.exists_right
  · cases hdecode
    obtain ⟨n, o, before, before', ho, -, -, hmapping⟩ := htells
    obtain ⟨rfl, rfl⟩ : n = 0 ∧ _ = o := by simpa [List.getElem?_singleton] using ho
    exact hmapping.elim
  · exact ⟨h, _, r', hrun, hr', hagree⟩

/-- A ranking puts the second of two zeros first where the first one is negative. -/
theorem topk_tells_zeros_apart :
    let t : Table Float :=
      ⟨["id", "v"], [[.text "first", .number (-0.0)], [.text "second", .number 0.0]]⟩
    let u : Table Float :=
      ⟨["id", "v"], [[.text "first", .number 0.0], [.text "second", .number 0.0]]⟩
    let largest : Json := .obj [("numeric_filter", .obj
      [("filter_type", .str "topk"), ("column", .str "v"), ("k", .int 1)])]
    t.WellFormed ∧ u.WellFormed ∧ t.Agree u ∧
      ∃ r r', (execute .filter t largest .empty).outcome = .ok r ∧
        (execute .filter u largest .empty).outcome = .ok r' ∧ ¬ r.Agree r' := by
  intro t u largest
  have hzeros : Agree (-0.0 : Float) 0.0 := .inr ⟨by decide +kernel, by decide +kernel⟩
  have h : t.Agree u :=
    ⟨rfl, .cons (.cons (.refl _) (.cons (.number hzeros) .nil))
      (.cons (.cons (.refl _) (.cons (.refl _) .nil)) .nil)⟩
  have hnegative : totalLe (0.0 : Float) (-0.0) = false := by decide +kernel
  have hpositive : totalLe (0.0 : Float) 0.0 = true := by decide +kernel
  have ht : topRows false (Filter.numberAt 1) 1 t.rows = [[.text "second", .number 0.0]] := by
    simp [t, topRows, ranked, List.mergeSort, Filter.numberAt, ranksBefore, cellAt,
      Cell.asNumber, hnegative]
  have hu : topRows false (Filter.numberAt 1) 1 u.rows = [[.text "first", .number 0.0]] := by
    simp [u, topRows, ranked, List.mergeSort, Filter.numberAt, ranksBefore, cellAt,
      Cell.asNumber, hpositive]
  have hrun : (execute .filter t largest .empty).outcome =
      .ok (.ofTable ⟨t.columns, topRows false (Filter.numberAt 1) 1 t.rows⟩) := rfl
  have hrun' : (execute .filter u largest .empty).outcome =
      .ok (.ofTable ⟨u.columns, topRows false (Filter.numberAt 1) 1 u.rows⟩) := rfl
  refine ⟨⟨by decide, by decide⟩, ⟨by decide, by decide⟩, h, _, _, hrun, hrun', fun hagree => ?_⟩
  rw [ht, hu] at hagree
  cases hagree.table with
  | some htable =>
    have hrow := (List.forall₂_cons.mp htable.rows).1
    exact absurd (Cell.agree_cellAt hrow 0).key_eq (by simp [cellAt, Cell.key])

end TableSteps
