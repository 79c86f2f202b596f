import TableSteps.Binary64.Quantity
import TableSteps.Proofs.Aggregation.Adequacy
import TableSteps.Proofs.Filter.Adequacy
import TableSteps.Proofs.Summary.Adequacy
import TableSteps.Proofs.Transform.Adequacy
import TableSteps.Step.Run

/-! # Validation is adequate

A config that was accepted over a table runs over that table, but for the two things that no
validation of the config and the table can tell: whether a join finds its reference, and whether
the numbers of a summary stay finite. -/

namespace TableSteps

variable {α : Type} [WireQuantity α]

namespace Step

/-- What can still stop a step that was accepted over a table. -/
def Obstructed (step : Step α) (t : Table α) (references : References α) : Prop :=
  match step with
  | .aggregate _ => False
  | .filter config => config.Obstructed references
  | .transform _ => False
  | .summary config => config.Obstructed t

/-- The error says that a formula has an infinite value, and which. -/
def TellsInfinite (e : StepError) : Prop :=
  ∃ i name shown, e = .placed (Summary.formulaPlace i) (.infiniteResult name shown)

variable {step : Step α} {t : Table α} {references : References α}

theorem kind_of_decode {kind : StepKind} {config : Json}
    (h : Step.decode kind config = .ok step) : step.kind = kind := by
  have hshape := mapError_eq_ok_iff.mp h
  cases kind <;> (obtain ⟨c, -, rfl⟩ := map_eq_ok_iff.mp hshape; rfl)

/-- Only filters are checked differently when they run, and more leniently. -/
theorem check_allowed_of_refused (h : step.check (some t) .refused = .ok ()) :
    step.check (some t) .allowed = .ok () := by
  cases step with
  | filter config => exact Filter.check_allowed_of_refused h
  | aggregate config | transform config | summary config => exact h

theorem run_of_check {stale : StaleCategories} (h : step.check (some t) stale = .ok ())
    (hclear : ¬ step.Obstructed t references) : ∃ out, step.run t references = .ok out := by
  cases step with
  | aggregate config =>
    obtain ⟨u, hu⟩ := Aggregation.run_of_check h
    exact ⟨.ofTable u, map_eq_ok_iff.mpr ⟨u, hu, rfl⟩⟩
  | filter config =>
    obtain ⟨u, hu⟩ := Filter.run_of_check h hclear
    exact ⟨.ofTable u, map_eq_ok_iff.mpr ⟨u, hu, rfl⟩⟩
  | transform config =>
    obtain ⟨u, hu⟩ := Transform.run_of_check h
    exact ⟨.ofTable u, map_eq_ok_iff.mpr ⟨u, hu, rfl⟩⟩
  | summary config => exact Summary.run_of_check h hclear

theorem run_of_obstructed {stale : StaleCategories} (h : step.check (some t) stale = .ok ())
    (hobstructed : step.Obstructed t references) :
    ∃ e, step.run t references = .error e ∧ (step.kind = .summary → TellsInfinite e) := by
  cases step with
  | aggregate config | transform config => cases hobstructed
  | filter config =>
    obtain ⟨e, he⟩ := Filter.run_of_obstructed (t := t) hobstructed
    exact ⟨e, map_eq_error_iff.mpr he, fun hkind => by cases hkind⟩
  | summary config =>
    obtain ⟨n, name, x, he⟩ := Summary.run_of_obstructed h hobstructed
    exact ⟨_, he, fun _ => ⟨n, name, _, rfl⟩⟩

end Step

/-- A config that was accepted over a table describes a step. The step runs over that table unless
it is obstructed, and fails if it is; an obstructed summary tells which formula is infinite. -/
theorem execute_of_validate {kind : StepKind} {config : Json} {t : Table α}
    (h : validate kind config (some t) = .ok ()) (references : References α) :
    ∃ step : Step α, Step.decode kind config = .ok step ∧
      (¬ step.Obstructed t references →
        ∃ out, (execute kind t config references).outcome = .ok out) ∧
      (step.Obstructed t references →
        ∃ e, (execute kind t config references).outcome = .error e ∧
          (kind = .summary → Step.TellsInfinite e ∧
            e.details.get? "reason" = some (.str "non_numeric_result"))) := by
  obtain ⟨step, hconfig, -⟩ := map_eq_ok_iff.mp h
  obtain ⟨step', hdecode, hconfig⟩ := bind_eq_ok_iff.mp hconfig
  obtain ⟨hrefused, hstep⟩ := check_bind_eq_ok_iff.mp hconfig
  cases hstep
  have hallowed := Step.check_allowed_of_refused hrefused
  have hexecute : (execute kind t config references).outcome = step.run t references := by
    have hconfig : Step.ofConfig kind config (some t) .allowed = .ok step :=
      bind_eq_ok_iff.mpr ⟨step, hdecode, check_bind_eq_ok_iff.mpr ⟨hallowed, rfl⟩⟩
    rw [execute, hconfig, Logged.silent_ok_andThen]
    rfl
  rw [hexecute]
  refine ⟨step, hdecode, Step.run_of_check hallowed, fun hobstructed => ?_⟩
  obtain ⟨e, he, htells⟩ := Step.run_of_obstructed hallowed hobstructed
  refine ⟨e, he, fun hkind => ?_⟩
  have hsummary := htells ((Step.kind_of_decode hdecode).trans hkind)
  refine ⟨hsummary, ?_⟩
  obtain ⟨i, name, shown, rfl⟩ := hsummary
  simp [StepError.details, StepError.placed, Cause.details, Dictionary.get?_ofList,
    List.lookup_cons]

/-- A join that was accepted runs if its reference is there and fails if it is not. -/
theorem execute_of_validate_join :
    let config : Json :=
      .obj [("table_filter", .obj [("reference", .str "r"), ("key_columns", .arr [.str "k"])])]
    let t : Table Float := ⟨["k"], [[.text "a"]]⟩
    validate .filter config (some t) = .ok () ∧
      (∃ out, (execute .filter t config (Dictionary.empty.insert "r" t)).outcome = .ok out) ∧
      ∃ e, (execute .filter t config .empty).outcome = .error e := by
  intro config t
  have h : validate .filter config (some t) = .ok () := rfl
  have hdecode : Step.decode (α := Float) .filter config =
      .ok (.filter ⟨none, none, some ⟨true, some "r", ["k"], false⟩⟩) := rfl
  refine ⟨h, ?_, ?_⟩
  · obtain ⟨step, hstep, hruns, -⟩ :=
      execute_of_validate h (Dictionary.empty.insert "r" t)
    cases hdecode.symm.trans hstep
    refine hruns ?_
    rintro ⟨filter, hactive, name, hname, hmissing⟩
    cases hactive
    cases hname
    rw [Dictionary.get?_insert, if_pos rfl] at hmissing
    rcases hmissing with hnone | ⟨reference, hreference, key, hkey, hlacks⟩
    · cases hnone
    · cases hreference
      exact hlacks hkey
  · obtain ⟨step, hstep, -, hfails⟩ := execute_of_validate h .empty
    cases hdecode.symm.trans hstep
    obtain ⟨e, he, -⟩ := hfails ⟨_, rfl, "r", rfl, .inl rfl⟩
    exact ⟨e, he⟩

end TableSteps
