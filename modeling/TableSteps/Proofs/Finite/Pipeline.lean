import TableSteps.Proofs.Binary64.Finite
import TableSteps.Proofs.Finite.Aggregation
import TableSteps.Proofs.Finite.Transform
import TableSteps.Proofs.Step.Execution
import TableSteps.Proofs.Table.Reachable

/-! # Finite until a step exceeds

Documents hold finite numbers. From there on every step keeps the numbers of a table finite, but for
the sums and operators of aggregations and the formulas of transforms, which no check keeps from
exceeding the numbers there are: a summary stops at a value that is not finite, these two go on. A
pipeline in which no step exceeds has finite tables all the way, and each is read back from JSON as
it was written. -/

namespace TableSteps

open Quantity

variable {α : Type} [WireQuantity α]

namespace Step

/-- The step computes a number that is not finite. -/
def Exceeds (step : Step α) (t : Table α) : Prop :=
  match step with
  | .aggregate config => config.Exceeds t
  | .transform config => config.Exceeds t
  | .filter _ | .summary _ => False

/-- The numbers that the step puts into tables are finite. -/
def IsFinite : Step α → Prop
  | .transform config => config.IsFinite
  | .aggregate _ | .filter _ | .summary _ => True

variable [FiniteLaws α] {t : Table α} {references : References α}

theorem isFinite_of_decode {kind : StepKind} {config : Json} {step : Step α}
    (hconfig : config.Storable) (h : Step.decode kind config = .ok step) : step.IsFinite := by
  have hshape := mapError_eq_ok_iff.mp h
  cases kind with
  | transform =>
    obtain ⟨c, hc, rfl⟩ := map_eq_ok_iff.mp hshape
    exact Transform.decode_gives config c hconfig hc
  | aggregate | filter | summary =>
    obtain ⟨c, -, rfl⟩ := map_eq_ok_iff.mp hshape
    trivial

variable [LawfulQuantity α]

theorem isFinite_run {step : Step α} {result : StepOutput α} {u : Table α} (ht : t.IsFinite)
    (hstep : step.IsFinite) (hexceeds : ¬ step.Exceeds t)
    (h : step.run t references = .ok result) (hu : result.table = some u) : u.IsFinite := by
  cases step with
  | aggregate config =>
    obtain ⟨v, hv, rfl⟩ := map_eq_ok_iff.mp h
    cases hu
    exact Aggregation.isFinite_run ht hexceeds hv
  | filter config =>
    obtain ⟨v, hv, rfl⟩ := map_eq_ok_iff.mp h
    cases hu
    obtain ⟨rows, rfl, hrows⟩ := Filter.run_eq_ok hv
    exact ht.withRows hrows
  | transform config =>
    obtain ⟨v, hv, rfl⟩ := map_eq_ok_iff.mp h
    cases hu
    exact Transform.isFinite_run ht hstep hexceeds hv
  | summary config => exact Summary.table_run h hu ▸ ht

end Step

variable [FiniteLaws α] [LawfulQuantity α] {references : References α}

theorem isFinite_execute {t : Table α} {kind : StepKind} {config : Json} {result : StepOutput α}
    {u : Table α} (ht : t.IsFinite) (hconfig : config.Storable)
    (h : (execute kind t config references).outcome = .ok result) (hu : result.table = some u) :
    u.IsFinite ∨ ∃ step, Step.decode kind config = .ok step ∧ step.Exceeds t := by
  obtain ⟨step, hdecode, -, hrun⟩ := execute_eq_ok_iff.mp h
  by_cases hexceeds : step.Exceeds t
  · exact .inr ⟨step, hdecode, hexceeds⟩
  · exact .inl (step.isFinite_run ht (Step.isFinite_of_decode hconfig hdecode) hexceeds hrun hu)

/-- The table that a run leaves, or that one of its steps puts out. -/
def PipelineOutcome.HasTable (output : PipelineOutcome α) (u : Table α) : Prop :=
  u = output.table ∨ ∃ result ∈ output.results, result.table = some u

namespace Pipeline

/-- Some step of a pipeline exceeds on the table that the steps before it have left. -/
def Exceeds (steps : List PlannedStep) (t : Table α) (references : References α) : Prop :=
  ∃ n planned before step, steps[n]? = some planned ∧
    (run ⟨steps.take n⟩ t references).outcome = .ok before ∧
    Step.decode planned.kind planned.config = .ok step ∧ step.Exceeds before.table

omit [FiniteLaws α] [LawfulQuantity α] in
theorem exceeds_singleton_iff {planned : PlannedStep} {t : Table α} :
    Exceeds [planned] t references ↔
      ∃ step, Step.decode planned.kind planned.config = .ok step ∧ step.Exceeds t := by
  constructor
  · rintro ⟨n, other, before, step, hn, hbefore, hdecode, hover⟩
    obtain ⟨rfl, rfl⟩ : n = 0 ∧ planned = other := by simpa [List.getElem?_singleton] using hn
    cases hbefore
    exact ⟨step, hdecode, hover⟩
  · rintro ⟨step, hdecode, hover⟩
    exact ⟨0, planned, ⟨t, []⟩, step, rfl, rfl, hdecode, hover⟩

theorem isFinite_runFrom {steps : List PlannedStep} :
    ∀ {i : Nat} {t : Table α} {output : PipelineOutcome α}, t.IsFinite →
      (∀ planned ∈ steps, planned.config.Storable) →
      (∀ n planned before step, steps[n]? = some planned →
        (runFrom references i t (steps.take n)).outcome = .ok before →
        Step.decode planned.kind planned.config = .ok step → ¬ step.Exceeds before.table) →
      (runFrom references i t steps).outcome = .ok output →
      output.table.IsFinite ∧
        ∀ result ∈ output.results, ∀ u, result.table = some u → u.IsFinite := by
  induction steps with
  | nil =>
    intro i t output ht _ _ h
    cases h
    exact ⟨ht, by simp⟩
  | cons planned rest ih =>
    intro i t output ht hconfigs hexceeds h
    obtain ⟨result, hresult, tail, htail, rfl⟩ := outcome_runFrom_cons_eq_ok_iff.mp h
    have hfirst : ∀ u, result.table = some u → u.IsFinite := by
      intro u hu
      have hexecute := isFinite_execute ht (hconfigs planned List.mem_cons_self) hresult hu
      refine hexecute.resolve_right fun ⟨step, hdecode, hover⟩ => ?_
      exact hexceeds 0 planned ⟨t, []⟩ step rfl rfl hdecode hover
    have hnext : (nextTable t result).IsFinite := by
      unfold nextTable
      cases hu : result.table with
      | none => exact ht
      | some u => exact hfirst u hu
    have hlater : ∀ n other before step, rest[n]? = some other →
        (runFrom references (i + 1) (nextTable t result) (rest.take n)).outcome = .ok before →
        Step.decode other.kind other.config = .ok step → ¬ step.Exceeds before.table := by
      intro n other before step hother hbefore hdecode
      let whole : PipelineOutcome α := { before with results := result :: before.results }
      refine hexceeds (n + 1) other whole step hother ?_ hdecode
      rw [List.take_succ_cons]
      exact outcome_runFrom_cons_eq_ok_iff.mpr ⟨result, hresult, before, hbefore, rfl⟩
    obtain ⟨htable, hresults⟩ := ih hnext
      (fun other hother => hconfigs other (List.mem_cons_of_mem _ hother)) hlater htail
    refine ⟨htable, fun other hother => ?_⟩
    rcases List.mem_cons.mp hother with rfl | hother
    · exact hfirst
    · exact hresults other hother

end Pipeline

/-- Tables from documents are finite, and steps keep them so unless they exceed: then every cell
that a pipeline ever has in a table is read as a finite number or none, and its tables come back
from JSON unchanged. -/
theorem finite_unless_exceeded :
    (∀ (j : Json) (t : Table α), j.Storable → Table.decode j = .ok t → t.IsFinite) ∧
    (∀ (records : List Json) (t : Table α), (∀ record ∈ records, record.Storable) →
      Table.ofRecords records = .ok t → t.IsFinite) ∧
    (∀ (kind : StepKind) (t : Table α) (config : Json) (references : References α)
      (result : StepOutput α) (u : Table α), t.IsFinite → config.Storable →
      (execute kind t config references).outcome = .ok result → result.table = some u →
      u.IsFinite ∨ ∃ step, Step.decode kind config = .ok step ∧ step.Exceeds t) ∧
    ∀ (steps : List PlannedStep) (t : Table α) (references : References α)
      (output : PipelineOutcome α), t.WellFormed → t.IsFinite →
      (∀ planned ∈ steps, planned.config.Storable) →
      (Pipeline.run ⟨steps⟩ t references).outcome = .ok output →
      ¬ Pipeline.Exceeds steps t references →
      ∀ u, output.HasTable u →
        (∀ row ∈ u.rows, ∀ c ∈ row, ∀ x, c.asNumber = some x → isFinite x = true) ∧
        Table.decode u.encode = .ok u := by
  refine ⟨fun j t hj => Table.decode_gives j t hj,
    fun records t hrecords => Table.isFinite_of_ofRecords hrecords,
    fun kind t config references result u ht hconfig => isFinite_execute ht hconfig, ?_⟩
  intro steps t references output ht hfinite hconfigs h hexceeds u hu
  obtain ⟨htable, hresults⟩ := Pipeline.isFinite_runFrom hfinite hconfigs
    (fun n planned before step hn hbefore hdecode hover =>
      hexceeds ⟨n, planned, before, step, hn, hbefore, hdecode, hover⟩) h
  obtain ⟨htableFormed, hresultsFormed⟩ := Pipeline.wellFormed_runFrom ht h
  have hboth : u.IsFinite ∧ u.WellFormed := by
    rcases hu with rfl | ⟨result, hresult, hu⟩
    · exact ⟨htable, htableFormed⟩
    · exact ⟨hresults result hresult u hu, hresultsFormed result hresult u hu⟩
  exact ⟨fun row hrow c hc x hx => (hboth.1 row hrow c hc).of_asNumber hx,
    Table.decode_encode hboth.2 hboth.1⟩

/-- A formula that doubles a column puts out a finite table. -/
theorem finite_unless_exceeded_doubled :
    let t : Table Float := ⟨["v"], [[.number 1.5], [.text "n/a"]]⟩
    let double : Json := .obj [("operations", .arr [.obj
      [ ("operation_type", .str "add_subject"), ("target_name", .str "w"),
        ("calculation", .obj
          [ ("type", .str "formula"), ("left", .str "v"), ("operator", .str "+"),
            ("right", .str "v") ]) ]])]
    ∃ output, (Pipeline.run ⟨[⟨.transform, double⟩]⟩ t .empty).outcome = .ok output ∧
      Table.decode output.table.encode = .ok output.table := by
  intro t double
  have hrun : (Pipeline.run ⟨[⟨.transform, double⟩]⟩ t .empty).outcome =
      .ok ⟨⟨["v", "w"], [[.number 1.5, .number (1.5 + 1.5)], [.text "n/a", .empty]]⟩,
        [.ofTable ⟨["v", "w"], [[.number 1.5, .number (1.5 + 1.5)], [.text "n/a", .empty]]⟩]⟩ := by
    rfl
  have ht : t.WellFormed := ⟨by decide, by decide⟩
  have hfinite : t.IsFinite := by
    simp [t, Table.IsFinite, Cell.IsFinite]
    decide +kernel
  have hconfigs : ∀ planned ∈ [PlannedStep.mk .transform double], planned.config.Storable := by
    simp [double]
  have hexceeds : ¬ Pipeline.Exceeds [⟨.transform, double⟩] t .empty := by
    rw [Pipeline.exceeds_singleton_iff]
    rintro ⟨step, hdecode, hover⟩
    cases hdecode
    obtain ⟨row, hrow, ⟨x, hx, -⟩ | ⟨y, hy, -⟩ | ⟨x, y, hx, hy, -, -, z, hz, hover⟩⟩ :=
      Transform.exceeds_singleton_iff.mp hover
    · cases hx
    · cases hy
    · rcases List.mem_pair.mp hrow with rfl | rfl
      · cases hx
        cases hy
        cases hz
        revert hover
        decide +kernel
      · cases hx
  exact ⟨_, hrun,
    (finite_unless_exceeded.2.2.2 _ t .empty _ ht hfinite hconfigs hrun hexceeds _ (.inl rfl)).2⟩

/-- Ten times the largest power of ten is infinite, and the transform that computes it succeeds. -/
theorem transform_exceeds :
    let t : Table Float := ⟨["v"], [[.number 1e308]]⟩
    let tenfold : Json := .obj [("operations", .arr [.obj
      [ ("operation_type", .str "add_subject"), ("target_name", .str "w"),
        ("calculation", .obj
          [ ("type", .str "formula"), ("left", .str "v"), ("operator", .str "*"),
            ("right", .int 10) ]) ]])]
    t.IsFinite ∧ tenfold.Storable ∧
      ∃ result u, (execute .transform t tenfold .empty).outcome = .ok result ∧
        result.table = some u ∧ ¬ u.IsFinite := by
  intro t tenfold
  have hrun : (execute .transform t tenfold .empty).outcome =
      .ok (.ofTable ⟨["v", "w"], [[.number 1e308, .number (1e308 * WireQuantity.ofInt 10)]]⟩) := rfl
  refine ⟨?_, ?_, _, _, hrun, rfl, fun h => ?_⟩
  · simp [t, Table.IsFinite, Cell.IsFinite]
    decide +kernel
  · simp [tenfold]
    decide
  · have := h _ List.mem_cons_self (.number (1e308 * WireQuantity.ofInt 10)) (by simp) _ rfl
    revert this
    decide +kernel

end TableSteps
