import TableSteps.Binary64.Quantity
import TableSteps.Pipeline
import TableSteps.Table.InPlace
import TableSteps.Table.WellFormed
import TableSteps.Proofs.Aggregation.Adequacy
import TableSteps.Proofs.Filter.Kept

/-! # The tables that can come about

A table comes about by being built, read, changed, cut to some of its rows, or put out by a step or
a pipeline. `Reachable` says so, one constructor a producer, and has no condition on the parts:
names may repeat and rows be ragged as far as the producer lets them. Reachable are exactly the
well-formed tables.

Every producer that checks its parts gives a well-formed table because of the check. The others do
because of what they start from: records have each key once, a selection has rows of a well-formed
table, a column is written into all rows, and the steps are made of these. -/

namespace TableSteps

variable {α : Type}

/-! ## What the steps put out -/

section Run

variable [Quantity α] {t u : Table α}

/-- The output of an aggregation is built by the checked constructor. -/
theorem Aggregation.wellFormed_run {config : Aggregation} (h : config.run t = .ok u) :
    u.WellFormed := by
  obtain ⟨positions, -, h⟩ := bind_eq_ok_iff.mp h
  obtain ⟨scope, -, h⟩ := bind_eq_ok_iff.mp h
  exact (Table.ofRows_eq_ok_iff.mp (orTableFault_eq_ok_iff.mp h)).2

theorem Transform.wellFormed_step {i : Nat} {o : Operation α} (ht : t.WellFormed)
    (h : step t i o = .ok u) : u.WellFormed := by
  obtain ⟨values, -, h⟩ := bind_eq_ok_iff.mp h
  split at h
  · rename_i v hv
    cases h
    exact Table.wellFormed_setColumn ht hv
  · cases h

theorem Transform.wellFormed_steps {operations : List (Operation α)} :
    ∀ {i : Nat} {t : Table α}, t.WellFormed → steps i operations t = .ok u → u.WellFormed := by
  induction operations with
  | nil =>
    intro i t ht h
    cases h
    exact ht
  | cons o rest ih =>
    intro i t ht h
    obtain ⟨v, hv, h⟩ := bind_eq_ok_iff.mp h
    exact ih (wellFormed_step ht hv) h

end Run

variable [WireQuantity α] {t : Table α} {references : References α}

theorem Filter.wellFormed_run {config : Filter α} {u : Table α} (ht : t.WellFormed)
    (h : config.run t references = .ok u) : u.WellFormed := by
  obtain ⟨rows, rfl, hrows⟩ := run_eq_ok h
  exact Table.wellFormed_withRows ht hrows

/-- A summary puts out the table it was given or none. -/
theorem Summary.table_run {config : Summary α} {result : StepOutput α} {u : Table α}
    (h : config.run t = .ok result) (hu : result.table = some u) : u = t := by
  have htable : result.table = if config.includeTable then some t else none := by
    unfold run at h
    cases hf : config.formulas <;> cases hc : config.chart <;>
      simp only [hf, hc, pure_eq_ok, ok_bind, bind_eq_ok_iff, Except.ok.injEq] at h
    · rw [← h]
    · obtain ⟨_, -, rfl⟩ := h
      rfl
    · obtain ⟨_, -, rfl⟩ := h
      rfl
    · obtain ⟨_, -, _, -, rfl⟩ := h
      rfl
  rw [htable] at hu
  split at hu
  · exact (Option.some.inj hu).symm
  · cases hu

theorem Step.wellFormed_run {step : Step α} {result : StepOutput α} {u : Table α}
    (ht : t.WellFormed) (h : step.run t references = .ok result) (hu : result.table = some u) :
    u.WellFormed := by
  cases step with
  | aggregate config =>
    obtain ⟨v, hv, rfl⟩ := map_eq_ok_iff.mp h
    cases hu
    exact Aggregation.wellFormed_run hv
  | filter config =>
    obtain ⟨v, hv, rfl⟩ := map_eq_ok_iff.mp h
    cases hu
    exact Filter.wellFormed_run ht hv
  | transform config =>
    obtain ⟨v, hv, rfl⟩ := map_eq_ok_iff.mp h
    cases hu
    exact Transform.wellFormed_steps ht hv
  | summary config => exact Summary.table_run h hu ▸ ht

theorem wellFormed_execute {kind : StepKind} {config : Json} {result : StepOutput α} {u : Table α}
    (ht : t.WellFormed) (h : (execute kind t config references).outcome = .ok result)
    (hu : result.table = some u) : u.WellFormed := by
  obtain ⟨step, -, h⟩ := Logged.outcome_andThen_eq_ok_iff.mp h
  exact Step.wellFormed_run ht h hu

namespace Pipeline

omit [WireQuantity α] in
theorem wellFormed_nextTable {result : StepOutput α} (ht : t.WellFormed)
    (hresult : ∀ u, result.table = some u → u.WellFormed) : (nextTable t result).WellFormed := by
  unfold nextTable
  cases hu : result.table with
  | none => exact ht
  | some u => exact hresult u hu

/-- A pipeline leaves a well-formed table, and so do all its steps on the way. -/
theorem wellFormed_runFrom {steps : List PlannedStep} :
    ∀ {i : Nat} {t : Table α} {output : PipelineOutcome α}, t.WellFormed →
      (runFrom references i t steps).outcome = .ok output →
      output.table.WellFormed ∧
        ∀ result ∈ output.results, ∀ u, result.table = some u → u.WellFormed := by
  induction steps with
  | nil =>
    intro i t output ht h
    cases h
    exact ⟨ht, by simp⟩
  | cons step rest ih =>
    intro i t output ht h
    obtain ⟨result, hresult, h⟩ := Logged.outcome_andThen_eq_ok_iff.mp h
    obtain ⟨tail, htail, h⟩ := Logged.outcome_andThen_eq_ok_iff.mp h
    cases h
    have hstep : ∀ u, result.table = some u → u.WellFormed := fun u hu =>
      wellFormed_execute ht (mapError_eq_ok_iff.mp hresult) hu
    obtain ⟨htable, hresults⟩ := ih (wellFormed_nextTable ht hstep) htail
    refine ⟨htable, fun other hother => ?_⟩
    rcases List.mem_cons.mp hother with rfl | hother
    · exact hstep
    · exact hresults other hother

end Pipeline

/-! ## All producers -/

namespace Table

theorem wellFormed_decode? {j : Json} (h : decode? j = .ok t) : t.WellFormed := by
  unfold decode? at h
  split at h
  · cases h
  · exact (ofRows_eq_ok_iff.mp (mapError_eq_ok_iff.mp h)).2

omit [WireQuantity α] in
/-- A change in place leaves a well-formed table whether it succeeds or not. -/
theorem wellFormed_run_change (ht : t.WellFormed) (c : Change α) : (c.run t).2.WellFormed := by
  rw [Change.run_eq_apply]
  cases h : c.apply t with
  | error fault => exact ht
  | ok u =>
    cases c with
    | pushRow row => exact wellFormed_pushRow ht h
    | setColumn name values => exact wellFormed_setColumn ht h

/-- Tables that can come about from nothing. -/
inductive Reachable : Table α → Prop
  | new {columns : List String} {t : Table α} : new columns = .ok t → Reachable t
  | ofRows {columns : List String} {rows : List (Row α)} {t : Table α} :
    ofRows columns rows = .ok t → Reachable t
  | ofRecords {records : List Json} {t : Table α} : ofRecords records = .ok t → Reachable t
  | decoded {j : Json} {t : Table α} : decode? j = .ok t → Reachable t
  /-- The table that a change leaves, also one that fails. -/
  | changed {t : Table α} (c : Change α) : Reachable t → Reachable (c.run t).2
  | selected {t : Table α} {positions : List Nat} :
    Reachable t → (∀ p ∈ positions, p < t.rowCount) → Reachable (t.selectRows positions)
  | executed {kind : StepKind} {t : Table α} {config : Json} {references : References α}
      {result : StepOutput α} {u : Table α} :
    Reachable t → (∀ name r, references.get? name = some r → Reachable r) →
    (execute kind t config references).outcome = .ok result → result.table = some u → Reachable u
  /-- The last table of a pipeline. -/
  | piped {p : Pipeline} {t : Table α} {references : References α} {output : PipelineOutcome α} :
    Reachable t → (∀ name r, references.get? name = some r → Reachable r) →
    (p.run t references).outcome = .ok output → Reachable output.table
  /-- The table of one step of a pipeline. -/
  | pipedStep {p : Pipeline} {t : Table α} {references : References α}
      {output : PipelineOutcome α} {result : StepOutput α} {u : Table α} :
    Reachable t → (∀ name r, references.get? name = some r → Reachable r) →
    (p.run t references).outcome = .ok output → result ∈ output.results →
    result.table = some u → Reachable u

theorem Reachable.wellFormed (h : Reachable t) : t.WellFormed := by
  induction h with
  | new h => exact wellFormed_new h
  | ofRows h => exact (ofRows_eq_ok_iff.mp h).2
  | ofRecords h => exact wellFormed_ofRecords h
  | decoded h => exact wellFormed_decode? h
  | changed c _ ih => exact wellFormed_run_change ih c
  | selected _ _ ih => exact wellFormed_selectRows ih _
  | executed _ _ h hu ih => exact wellFormed_execute ih h hu
  | piped _ _ h ih => exact (Pipeline.wellFormed_runFrom ih h).1
  | pipedStep _ _ h hresult hu ih => exact (Pipeline.wellFormed_runFrom ih h).2 _ hresult _ hu

/-- Every well-formed table is built from its own columns and rows. -/
theorem WellFormed.reachable (h : t.WellFormed) : Reachable t :=
  .ofRows (ofRows_eq_ok_iff.mpr ⟨rfl, h⟩)

/-- Reachable are exactly the well-formed tables, and a change that fails leaves its table as it
was. -/
theorem reachable_iff_wellFormed_and_fault_keeps :
    (∀ t : Table α, Reachable t ↔ t.WellFormed) ∧
      ∀ (c : Change α) (t : Table α) (fault : TableFault),
        (c.run t).1 = .error fault → (c.run t).2 = t := by
  refine ⟨fun t => ⟨Reachable.wellFormed, WellFormed.reachable⟩, fun c t fault h => ?_⟩
  rw [Change.run_eq_apply] at h ⊢
  cases hc : c.apply t with
  | error _ => rfl
  | ok u =>
    rw [hc] at h
    cases h

/-- A row that is too short for a reachable table is not added. -/
theorem short_row_keeps_reachable_table :
    let t : Table Float := ⟨["region", "sales"], [[.text "North", .number 1.0]]⟩
    Reachable t ∧ ((Change.pushRow [.text "South"]).run t).2 = t :=
  ⟨(reachable_iff_wellFormed_and_fault_keeps.1 _).mpr ⟨by decide, by simp⟩,
    reachable_iff_wellFormed_and_fault_keeps.2 _ _ (.rowWidth 1 2 1) rfl⟩

end Table
end TableSteps
