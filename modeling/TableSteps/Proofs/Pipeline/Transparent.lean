import TableSteps.Binary64.Quantity
import TableSteps.Proofs.Pipeline.Append
import TableSteps.Proofs.Step.Execution
import TableSteps.Proofs.Summary.Reference

/-! # Summaries are transparent to a pipeline

A summary only looks at the table: what it puts out as a table, if anything, is the one it was given,
and it warns of nothing. So the steps around it do not notice whether it is there. Of a pipeline that
succeeds any summaries can be taken out, with their results and nothing else. -/

namespace TableSteps

variable {α : Type} [WireQuantity α] {t : Table α} {references : References α}

/-! ## One summary -/

/-- The table that a summary puts out is the one it was given. -/
theorem Summary.nextTable_of_run {config : Summary α} {result : StepOutput α}
    (h : config.run t = .ok result) : Pipeline.nextTable t result = t := by
  rw [run_eq] at h
  obtain ⟨formulas, -, h⟩ := bind_eq_ok_iff.mp h
  obtain ⟨chart, -, h⟩ := bind_eq_ok_iff.mp h
  cases h
  unfold Pipeline.nextTable
  cases config.includeTable <;> rfl

theorem Summary.execute_eq {raw : Json} {result : StepOutput α}
    (h : (execute .summary t raw references).outcome = .ok result) :
    execute .summary t raw references = ⟨[], .ok result⟩ ∧ Pipeline.nextTable t result = t := by
  obtain ⟨step, hstep, hcheck, hrun⟩ := execute_eq_ok_iff.mp h
  have hconfig : Step.ofConfig .summary raw (some t) .allowed = .ok step :=
    bind_eq_ok_iff.mpr ⟨step, hstep, check_bind_eq_ok_iff.mpr ⟨hcheck, rfl⟩⟩
  obtain ⟨config, -, rfl⟩ := map_eq_ok_iff.mp (mapError_eq_ok_iff.mp hstep)
  refine ⟨?_, nextTable_of_run hrun⟩
  rw [execute, hconfig, Logged.silent_ok_andThen, Step.runLogged, hrun]
  rfl

namespace Pipeline

/-! ## A run without some of its steps -/

/-- The items of a list that is numbered from `n` on, but for those whose numbers are left out. -/
def keptFrom {β : Type} (keep : Nat → Bool) (n : Nat) (items : List β) : List β :=
  ((items.zipIdx n).filter fun x => keep x.2).map Prod.fst

/-- The items of a list at the places that are kept. -/
def kept {β : Type} (keep : Nat → Bool) (items : List β) : List β := keptFrom keep 0 items

section Kept

variable {β : Type} {keep : Nat → Bool} {n : Nat} {item : β} {rest : List β}

theorem keptFrom_cons_of_keep (h : keep n = true) :
    keptFrom keep n (item :: rest) = item :: keptFrom keep (n + 1) rest := by
  simp [keptFrom, h]

theorem keptFrom_cons_of_not_keep (h : keep n = false) :
    keptFrom keep n (item :: rest) = keptFrom keep (n + 1) rest := by
  simp [keptFrom, h]

end Kept

/-- A step that succeeds puts its warnings and its result before those of the steps behind it. -/
theorem runFrom_cons_of_ok {i : Nat} {step : PlannedStep} {rest : List PlannedStep}
    {result : StepOutput α} {tail : PipelineOutcome α}
    (h : (execute step.kind t step.config references).outcome = .ok result)
    (hrest : (runFrom references (i + 1) (nextTable t result) rest).outcome = .ok tail) :
    runFrom references i t (step :: rest) =
      ⟨(execute step.kind t step.config references).warnings ++
          (runFrom references (i + 1) (nextTable t result) rest).warnings,
        .ok { tail with results := result :: tail.results }⟩ := by
  simp [runFrom, h, hrest, Logged.mapError, Logged.andThen, Logged.silent]

/-- The steps that stay see the tables that they saw before, whatever numbers they have now. -/
theorem runFrom_kept (keep : Nat → Bool) {steps : List PlannedStep} :
    ∀ {n i j : Nat} {t : Table α} {output : PipelineOutcome α},
      (∀ x ∈ steps.zipIdx n, keep x.2 = false → x.1.kind = .summary) →
      (runFrom references i t steps).outcome = .ok output →
      runFrom references j t (keptFrom keep n steps) =
        ⟨(runFrom references i t steps).warnings,
          .ok ⟨output.table, keptFrom keep n output.results⟩⟩ := by
  induction steps with
  | nil =>
    intro n i j t output _ h
    cases h
    rfl
  | cons step rest ih =>
    intro n i j t output hsummary h
    rw [List.zipIdx_cons, List.forall_mem_cons] at hsummary
    obtain ⟨hstep, hrest⟩ := hsummary
    obtain ⟨result, hresult, tail, htail, rfl⟩ := outcome_runFrom_cons_eq_ok_iff.mp h
    rw [runFrom_cons_of_ok hresult htail]
    cases hkeep : keep n with
    | true =>
      have hkept := ih (j := j + 1) hrest htail
      rw [keptFrom_cons_of_keep hkeep, keptFrom_cons_of_keep hkeep,
        runFrom_cons_of_ok hresult (congrArg Logged.outcome hkept), hkept]
    | false =>
      have hkept := ih (j := j) hrest htail
      -- The step is a summary: it has handed on its table, and had nothing to warn of.
      obtain ⟨kind, config⟩ := step
      obtain rfl : kind = .summary := hstep hkeep
      obtain ⟨hexecute, hnext⟩ := Summary.execute_eq hresult
      rw [keptFrom_cons_of_not_keep hkeep, keptFrom_cons_of_not_keep hkeep, hexecute,
        List.nil_append]
      rw [hnext] at hkept ⊢
      exact hkept

/-! ## Summaries are transparent -/

/-- Any summaries can be taken out of a pipeline that succeeds, whatever they compute, draw or echo.
It still succeeds, with the same table and the same warnings; of its results, one a step, those of
the steps that stay are left, and they are what they were. -/
theorem run_without_summaries {p : Pipeline} {output : PipelineOutcome α} (keep : Nat → Bool)
    (hsummary : ∀ i step, p.steps[i]? = some step → keep i = false → step.kind = .summary)
    (h : (p.run t references).outcome = .ok output) :
    output.results.length = p.steps.length ∧
      run ⟨kept keep p.steps⟩ t references =
        ⟨(p.run t references).warnings, .ok ⟨output.table, kept keep output.results⟩⟩ := by
  refine ⟨length_results h, runFrom_kept keep (fun x hx => ?_) h⟩
  exact hsummary x.2 x.1 (List.mem_zipIdx_iff_getElem?.mp hx)

/-- Without the two summaries around it, one of which echoes the table and draws it, a copy puts out
what it put out between them. -/
theorem run_without_summaries_around_copy :
    let draws : PlannedStep := ⟨.summary, .obj [("include_table", .bool true),
      ("chart", .obj [("graph_type", .str "box"), ("y", .str "region")])]⟩
    let copies : PlannedStep := ⟨.transform, .obj [("operations", .arr [.obj
      [ ("operation_type", .str "add_axis"), ("target_name", .str "area"),
        ("calculation", .obj [("type", .str "copy"), ("source", .str "region")]) ]])]⟩
    let p : Pipeline := ⟨[draws, copies, ⟨.summary, .obj []⟩]⟩
    let t : Table Float := ⟨["region"], [[.text "North"]]⟩
    (∃ output, (p.run t .empty).outcome = .ok output ∧ output.results.length = 3) ∧
      run ⟨[copies]⟩ t .empty =
        ⟨[], .ok ⟨⟨["region", "area"], [[.text "North", .text "North"]]⟩,
          [.ofTable ⟨["region", "area"], [[.text "North", .text "North"]]⟩]⟩⟩ := by
  intro draws copies p t
  have hsummary : ∀ i step, p.steps[i]? = some step → (i == 1) = false → step.kind = .summary := by
    rintro (_ | _ | _ | i) step hstep hi
    · cases hstep
      rfl
    · cases hi
    · cases hstep
      rfl
    · cases hstep
  obtain ⟨output, hrun, htable, hresults⟩ : ∃ output, (p.run t .empty).outcome = .ok output ∧
      output.table = ⟨["region", "area"], [[.text "North", .text "North"]]⟩ ∧
      kept (· == 1) output.results =
        [.ofTable ⟨["region", "area"], [[.text "North", .text "North"]]⟩] := ⟨_, rfl, rfl, rfl⟩
  obtain ⟨hlength, hwithout⟩ := run_without_summaries (· == 1) hsummary hrun
  refine ⟨⟨output, hrun, hlength⟩, ?_⟩
  rw [htable, hresults] at hwithout
  exact hwithout

end Pipeline
end TableSteps
