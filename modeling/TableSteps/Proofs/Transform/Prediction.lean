import TableSteps.Binary64.Quantity
import TableSteps.Proofs.Errors.Basic
import TableSteps.Proofs.Transform.Adequacy

/-! # The check of a transform predicts its run

The check never computes a cell: it goes through the operations with a list of column names. The
run goes through them with a table. As long as both succeed the list is that of the columns of the
table, and either looks a name up among the same columns, and reads it as a number in the same way
if it is none of them. So they part company nowhere: what the check lets pass runs, and where it
stops the run stops as well, at the same part of the same operation. Only a blank target is refused
by the check alone. -/

namespace TableSteps.Transform

variable {α : Type} [Quantity α] {t : Table α} {place : Place} {e : StepError}

/-- The error says that a part of an operation names nothing that is there, and what is there. -/
structure ReportsMissing (i : Nat) (part name : String) (available : List String)
    (e : StepError) : Prop where
  message : e.message = s!"'{name}' is not defined at this point"
  field : e.details.get? "field" = some (.str s!"operations[{i}].calculation.{part}")
  value : e.details.get? "value" = some (.str name)
  available : e.details.get? "available" = some (.strings available)

/-- The parts of a calculation that name something. -/
def namingParts : List String := ["source", "left", "right"]

theorem path_partPlace (i : Nat) (part : String) :
    (partPlace i part).path = s!"operations[{i}].calculation.{part}" := by
  have hopen : "operations[" = "operations" ++ "[" := rfl
  have hclose : "].calculation." = "]" ++ ("." ++ ("calculation" ++ ".")) := rfl
  simp only [partPlace, operationPlace, Place.path, toString, hopen, hclose, String.append_assoc]

theorem reportsMissing {i : Nat} {part name : String} {available : List String} {cause : Cause}
    (h : cause = .undefinedName name available ∨ cause = .unresolvedOperand name available) :
    ReportsMissing i part name available (.placed (partPlace i part) cause) := by
  have hoffers : (StepError.placed (partPlace i part) cause).cause.offers? =
      some (name, available) := by
    rcases h with rfl | rfl <;> rfl
  refine ⟨?_, ?_, StepError.get?_details_value hoffers, ?_⟩
  · rcases h with rfl | rfl <;> rfl
  · rw [StepError.get?_details_field rfl, path_partPlace]
  · rw [StepError.get?_details_available, hoffers, Option.map_some]

/-! ## Where one looks up in vain, so does the other -/

omit [Quantity α] in
theorem source_of_check_eq_error {name : String}
    (h : checkSource t.columns place name = .error e) :
    e = .placed place (.undefinedName name t.columns) ∧ source t place name = .error e := by
  unfold checkSource at h
  split at h
  · cases h
  · rename_i hname
    cases h
    have hnone : t.columns.idxOf? name = none :=
      List.idxOf?_eq_none_iff.mpr (by simpa using hname)
    exact ⟨rfl, by simp [source, Table.columnValues?, Table.columnIndex?, hnone, refuse]⟩

theorem operand_of_check_eq_error {o : Operand α}
    (h : checkOperand t.columns place o = .error e) :
    ∃ name, e = .placed place (.unresolvedOperand name t.columns) ∧
      operand t place o = .error (.placed place (.undefinedName name t.columns)) := by
  cases o with
  | literal x => cases h
  | named name =>
    simp only [checkOperand] at h
    split at h
    · cases h
    · rename_i hname
      cases h
      rw [Bool.not_eq_true, Bool.or_eq_false_iff] at hname
      have hnone : t.columns.idxOf? name = none :=
        List.idxOf?_eq_none_iff.mpr (by simpa using hname.1)
      have htext : Cell.numberInText? (α := α) name = none := by simpa using hname.2
      refine ⟨name, rfl, ?_⟩
      simp [operand, bind?, hnone, htext, refuse, Operand.shown]

theorem column_of_check_eq_error {i : Nat} {c : Calculation α}
    (h : checkCalculation t.columns i c = .error e) :
    ∃ part ∈ namingParts, ∃ name e', ReportsMissing i part name t.columns e ∧
      column t i c = .error e' ∧ ReportsMissing i part name t.columns e' := by
  cases c with
  | constant value => cases h
  | copy name =>
    obtain ⟨rfl, hsource⟩ := source_of_check_eq_error h
    exact ⟨"source", by decide, name, _, reportsMissing (.inl rfl), hsource,
      reportsMissing (.inl rfl)⟩
  | mapping name targets =>
    obtain ⟨rfl, hsource⟩ := source_of_check_eq_error h
    refine ⟨"source", by decide, name, _, reportsMissing (.inl rfl), ?_, reportsMissing (.inl rfl)⟩
    rw [column, hsource, error_bind]
  | formula left op right =>
    rcases bind_eq_error_iff.mp h with h | ⟨_, hleft, h⟩
    · obtain ⟨name, rfl, hoperand⟩ := operand_of_check_eq_error h
      refine ⟨"left", by decide, name, _, reportsMissing (.inr rfl), ?_, reportsMissing (.inl rfl)⟩
      rw [column, hoperand, error_bind]
    · obtain ⟨x, hx⟩ := operand_of_check hleft
      obtain ⟨name, rfl, hoperand⟩ := operand_of_check_eq_error h
      refine ⟨"right", by decide, name, _, reportsMissing (.inr rfl), ?_, reportsMissing (.inl rfl)⟩
      rw [column, hx, ok_bind, hoperand, error_bind]

/-- A run stops where the check stops. -/
theorem steps_of_check_eq_error {operations : List (Operation α)} :
    ∀ {i : Nat} {t : Table α}, checkOperations i t.columns operations = .error e →
      ∃ k < operations.length, ∃ part ∈ namingParts, ∃ name available e',
        ReportsMissing (i + k) part name available e ∧ steps i operations t = .error e' ∧
          ReportsMissing (i + k) part name available e' := by
  induction operations with
  | nil =>
    intro i t h
    cases h
  | cons o rest ih =>
    intro i t h
    rcases bind_eq_error_iff.mp h with h | ⟨_, ho, h⟩
    · obtain ⟨part, hpart, name, e', he, hcolumn, he'⟩ := column_of_check_eq_error h
      refine ⟨0, Nat.succ_pos _, part, hpart, name, _, e', he, ?_, he'⟩
      rw [steps, step, hcolumn, error_bind, error_bind]
    · obtain ⟨u, hu, hcolumns⟩ := step_of_check ho
      rw [← hcolumns] at h
      obtain ⟨k, hk, part, hpart, name, available, e', he, hsteps, he'⟩ := ih h
      have hindex : i + 1 + k = i + (k + 1) := by omega
      rw [hindex] at he he'
      refine ⟨k + 1, Nat.succ_lt_succ hk, part, hpart, name, available, e', he, ?_, he'⟩
      rw [steps, hu, ok_bind, hsteps]

/-! ## Targets -/

omit [Quantity α] in
theorem checkTargets_eq_ok_iff {operations : List (Operation α)} {i : Nat} :
    checkTargets i operations = .ok () ↔
      ∀ o ∈ operations, Text.isBlankName o.target = false := by
  induction operations generalizing i with
  | nil => simp [checkTargets]
  | cons o rest ih =>
    rw [checkTargets, check_bind_eq_ok_iff, ih, List.forall_mem_cons, checkName]
    cases Text.isBlankName o.target <;> simp [refuse]

/-! ## The whole transform -/

theorem check_of_targets {config : Transform α}
    (h : ∀ o ∈ config.operations, Text.isBlankName o.target = false) :
    config.check (some t) = checkOperations 0 t.columns config.operations := by
  rw [check, checkShape, checkTargets_eq_ok_iff.mpr h, ok_bind, checkColumns]

/-- A transform is accepted with a table exactly when no target is blank and it runs over the
table. If no target is blank and it is refused, the check and the run report the same name at the
same part of the same operation, and the same columns that are there. -/
theorem check_predicts_run (config : Transform α) (t : Table α) :
    (config.check (some t) = .ok () ↔
      (∀ o ∈ config.operations, Text.isBlankName o.target = false) ∧
        ∃ u, config.run t = .ok u) ∧
    ((∀ o ∈ config.operations, Text.isBlankName o.target = false) →
      ∀ e e', config.check (some t) = .error e → config.run t = .error e' →
        ∃ i < config.operations.length, ∃ part ∈ namingParts, ∃ name available,
          ReportsMissing i part name available e ∧ ReportsMissing i part name available e') := by
  constructor
  · constructor
    · intro h
      obtain ⟨hshape, -⟩ := check_bind_eq_ok_iff.mp h
      exact ⟨checkTargets_eq_ok_iff.mp hshape, run_of_check h⟩
    · rintro ⟨htargets, u, hu⟩
      rw [check_of_targets htargets]
      cases hcheck : checkOperations 0 t.columns config.operations with
      | ok _ => rfl
      | error e =>
        obtain ⟨k, -, part, -, name, available, e', -, hsteps, -⟩ := steps_of_check_eq_error hcheck
        cases hu.symm.trans hsteps
  · intro htargets e e' hcheck hrun
    rw [check_of_targets htargets] at hcheck
    obtain ⟨k, hk, part, hpart, name, available, other, he, hsteps, hother⟩ :=
      steps_of_check_eq_error hcheck
    cases hrun.symm.trans hsteps
    rw [Nat.zero_add] at he hother
    exact ⟨k, hk, part, hpart, name, available, he, hother⟩

/-- A column that an operation has added is there for the next one, and the text of a number is one
if no column has it as its name. The name of a column that is missing is reported as the right
operand of the second operation, by the check and by the run. -/
theorem check_predicts_run_bonus :
    let t : Table Float := ⟨["price"], [[.number 2.0]]⟩
    let double : Operation Float :=
      ⟨.addSubject, "double", .formula (.named "price") .multiply (.named " 2 ")⟩
    let sum (right : String) : Operation Float :=
      ⟨.addSubject, "sum", .formula (.named "double") .add (.named right)⟩
    (Transform.mk [double, sum "price"]).check (some t) = .ok () ∧
      (∃ u, (Transform.mk [double, sum "price"]).run t = .ok u) ∧
      ∃ e e', (Transform.mk [double, sum "bonus"]).check (some t) = .error e ∧
        (Transform.mk [double, sum "bonus"]).run t = .error e' ∧
        ∃ i < 2, ∃ part ∈ namingParts, ∃ name available,
          ReportsMissing i part name available e ∧ ReportsMissing i part name available e' := by
  intro t double sum
  have hcheck : (Transform.mk [double, sum "price"]).check (some t) = .ok () := by
    subst t double sum
    rfl
  have hrefused : (Transform.mk [double, sum "bonus"]).check (some t) =
      .error (.placed (partPlace 1 "right") (.unresolvedOperand "bonus" ["price", "double"])) := by
    subst t double sum
    rfl
  have hfails : (Transform.mk [double, sum "bonus"]).run t =
      .error (.placed (partPlace 1 "right") (.undefinedName "bonus" ["price", "double"])) := by
    subst t double sum
    rfl
  obtain ⟨haccepted, -⟩ := check_predicts_run (Transform.mk [double, sum "price"]) t
  obtain ⟨-, hreports⟩ := check_predicts_run (Transform.mk [double, sum "bonus"]) t
  refine ⟨hcheck, (haccepted.mp hcheck).2, _, _, hrefused, hfails, ?_⟩
  exact hreports (by decide) _ _ hrefused hfails

end TableSteps.Transform
