import TableSteps.Binary64.Quantity
import TableSteps.Pipeline
import TableSteps.Proofs.Outcome

/-! # Pipelines compose

A pipeline that is cut in two runs as its first part and then, on the table which that has left, as
its second part. The results of both stand one behind the other; an error of the second part tells
its step by the number in the whole pipeline, and is the same otherwise.

`runFrom_append` cuts a run at any place, with the steps numbered from anywhere; what the numbers do
is told apart from it in `runFrom_add`. -/

namespace TableSteps

/-! ## Errors of later steps -/

namespace StepError

/-- The same error, of a step that stands some places later. -/
def later (n : Nat) (e : StepError) : StepError :=
  { e with stepIndex := e.stepIndex.map (n + ·) }

/-- An error as it is shown, and the same error of a step that stands some places later. -/
structure ShownLater (n : Nat) (e other : StepError) : Prop where
  message : other.message = e.message
  stepIndex : ∃ i, e.details.get? "step_index" = some (.ofNat i) ∧
    other.details.get? "step_index" = some (.ofNat (n + i))
  details : ∀ key, key ≠ "step_index" → other.details.get? key = e.details.get? key

/-- The number of the step is shown whatever else is. -/
theorem get?_details_stepIndex {e : StepError} {i : Nat} (h : e.stepIndex = some i) :
    e.details.get? "step_index" = some (.ofNat i) := by
  simp [details, h, Dictionary.get?_ofList]

theorem get?_details_later {n : Nat} {e : StepError} {key : String} (h : key ≠ "step_index") :
    (e.later n).details.get? key = e.details.get? key := by
  have hkey : (key == "step_index") = false := beq_eq_false_iff_ne.mpr h
  cases hi : e.stepIndex <;>
    simp [details, later, hi, Dictionary.get?_ofList, List.lookup_cons, hkey]

theorem shownLater_later {n i : Nat} {e : StepError} (h : e.stepIndex = some i) :
    ShownLater n e (e.later n) where
  message := rfl
  stepIndex := ⟨i, get?_details_stepIndex h, get?_details_stepIndex (by simp [later, h])⟩
  details _ hkey := get?_details_later hkey

end StepError

namespace Pipeline

variable {α : Type} [WireQuantity α] {references : References α} {t : Table α}

/-! ## Steps numbered from elsewhere -/

/-- Where the numbers of the steps start shows in errors alone. -/
theorem runFrom_add (n : Nat) {steps : List PlannedStep} :
    ∀ {i : Nat} {t : Table α},
      runFrom references (n + i) t steps = (runFrom references i t steps).mapError (.later n) := by
  induction steps with
  | nil => exact rfl
  | cons step rest ih =>
    intro i t
    have hnumber : (fun e => StepError.later n (StepError.inStep i e)) = StepError.inStep (n + i) :=
      rfl
    simp only [runFrom, Logged.mapError_andThen, Logged.mapError_mapError, hnumber, Nat.add_assoc,
      ih]
    rfl

/-! ## Runs cut in two -/

/-- What the two parts of a run put out together. -/
def joined (first second : PipelineOutcome α) : PipelineOutcome α :=
  ⟨second.table, first.results ++ second.results⟩

theorem runFrom_append {p q : List PlannedStep} :
    ∀ {i : Nat} {t : Table α},
      runFrom references i t (p ++ q) =
        (runFrom references i t p).andThen fun first =>
          (runFrom references (i + p.length) first.table q).andThen fun second =>
            .silent (.ok (joined first second)) := by
  induction p with
  | nil =>
    intro i t
    exact (Logged.andThen_silent_ok _).symm
  | cons step rest ih =>
    intro i t
    simp only [List.cons_append, runFrom, ih, Logged.andThen_assoc, List.length_cons]
    simp only [Logged.silent_ok_andThen, Nat.add_comm, Nat.add_left_comm]
    rfl

/-- The whole pipeline runs as its first part and then, a number of steps later, as its second. -/
theorem run_append_eq {p q : List PlannedStep} :
    run ⟨p ++ q⟩ t references =
      (run ⟨p⟩ t references).andThen fun first =>
        ((run ⟨q⟩ first.table references).mapError (.later p.length)).andThen fun second =>
          .silent (.ok (joined first second)) := by
  simp only [run, runFrom_append, ← runFrom_add, Nat.zero_add, Nat.add_zero]

/-! ## What the outcome of a run tells -/

theorem length_results {steps : List PlannedStep} :
    ∀ {i : Nat} {t : Table α} {output : PipelineOutcome α},
      (runFrom references i t steps).outcome = .ok output →
      output.results.length = steps.length := by
  induction steps with
  | nil =>
    intro i t output h
    cases h
    rfl
  | cons step rest ih =>
    intro i t output h
    obtain ⟨result, -, h⟩ := Logged.outcome_andThen_eq_ok_iff.mp h
    obtain ⟨tail, htail, h⟩ := Logged.outcome_andThen_eq_ok_iff.mp h
    cases h
    rw [List.length_cons, List.length_cons, ih htail]

/-- A run that fails has run the steps before the failing one, and tells how many they were. -/
theorem runFrom_eq_error {steps : List PlannedStep} :
    ∀ {i : Nat} {t : Table α} {e : StepError}, (runFrom references i t steps).outcome = .error e →
      ∃ n before step cause, steps[n]? = some step ∧
        (runFrom references i t (steps.take n)).outcome = .ok before ∧
        (execute step.kind before.table step.config references).outcome = .error cause ∧
        e = cause.inStep (i + n) := by
  induction steps with
  | nil =>
    intro i t e h
    cases h
  | cons step rest ih =>
    intro i t e h
    rcases Logged.outcome_andThen_eq_error_iff.mp h with h | ⟨result, hresult, h⟩
    · obtain ⟨cause, hcause, rfl⟩ := Logged.outcome_mapError_eq_error_iff.mp h
      exact ⟨0, ⟨t, []⟩, step, cause, rfl, rfl, hcause, rfl⟩
    · rcases Logged.outcome_andThen_eq_error_iff.mp h with h | ⟨output, -, h⟩
      · obtain ⟨n, before, failing, cause, hn, hbefore, hcause, rfl⟩ := ih h
        refine ⟨n + 1, { before with results := result :: before.results }, failing, cause, hn, ?_,
          hcause, by rw [Nat.add_assoc, Nat.add_comm 1 n]⟩
        exact Logged.outcome_andThen_eq_ok_iff.mpr ⟨result, hresult,
          Logged.outcome_andThen_eq_ok_iff.mpr ⟨before, hbefore, rfl⟩⟩
      · cases h

theorem stepIndex_of_run_eq_error {steps : List PlannedStep} {e : StepError}
    (h : (run ⟨steps⟩ t references).outcome = .error e) :
    ∃ n before, n < steps.length ∧ (run ⟨steps.take n⟩ t references).outcome = .ok before ∧
      before.results.length = n ∧ e.stepIndex = some n := by
  obtain ⟨n, before, step, cause, hn, hbefore, -, rfl⟩ := runFrom_eq_error h
  obtain ⟨hlt, -⟩ := List.getElem?_eq_some_iff.mp hn
  refine ⟨n, before, hlt, hbefore, ?_, by rw [Nat.zero_add]; rfl⟩
  rw [length_results hbefore, List.length_take, Nat.min_eq_left (Nat.le_of_lt hlt)]

/-! ## Pipelines compose -/

/-- A pipeline of two parts fails as its first part does. If that succeeds, it succeeds and fails as
its second part does on the table that the first has left: with the results of both, or with the
same error at a step that stands later by the length of the first part. A success has one result a
step, and a failure tells how many steps have succeeded before it. -/
theorem run_append (p q : List PlannedStep) (t : Table α) (references : References α) :
    (∀ e, (run ⟨p⟩ t references).outcome = .error e →
      run ⟨p ++ q⟩ t references = ⟨(run ⟨p⟩ t references).warnings, .error e⟩) ∧
    (∀ first, (run ⟨p⟩ t references).outcome = .ok first →
      (run ⟨p ++ q⟩ t references).warnings =
        (run ⟨p⟩ t references).warnings ++ (run ⟨q⟩ first.table references).warnings ∧
      (∀ output, (run ⟨p ++ q⟩ t references).outcome = .ok output ↔
        ∃ second, (run ⟨q⟩ first.table references).outcome = .ok second ∧
          output = ⟨second.table, first.results ++ second.results⟩) ∧
      ∀ e, (run ⟨q⟩ first.table references).outcome = .error e →
        ∃ other, (run ⟨p ++ q⟩ t references).outcome = .error other ∧
          StepError.ShownLater p.length e other) ∧
    (∀ output, (run ⟨p⟩ t references).outcome = .ok output → output.results.length = p.length) ∧
    ∀ e, (run ⟨p⟩ t references).outcome = .error e →
      ∃ n before, n < p.length ∧ (run ⟨p.take n⟩ t references).outcome = .ok before ∧
        before.results.length = n ∧ e.details.get? "step_index" = some (.ofNat n) := by
  refine ⟨fun e he => ?_, fun first hfirst => ⟨?_, fun output => ?_, fun e he => ?_⟩,
    fun output => length_results, fun e he => ?_⟩
  · rw [run_append_eq, Logged.andThen, he]
  · rw [run_append_eq, Logged.warnings_andThen hfirst, Logged.warnings_andThen_silent]
    rfl
  · rw [run_append_eq, Logged.outcome_andThen_eq_ok_iff]
    constructor
    · rintro ⟨first', hfirst', h⟩
      cases hfirst.symm.trans hfirst'
      obtain ⟨second, hsecond, h⟩ := Logged.outcome_andThen_eq_ok_iff.mp h
      cases h
      exact ⟨second, Logged.outcome_mapError_eq_ok_iff.mp hsecond, rfl⟩
    · rintro ⟨second, hsecond, rfl⟩
      exact ⟨first, hfirst, Logged.outcome_andThen_eq_ok_iff.mpr
        ⟨second, Logged.outcome_mapError_eq_ok_iff.mpr hsecond, rfl⟩⟩
  · obtain ⟨n, -, -, -, -, hn⟩ := stepIndex_of_run_eq_error he
    refine ⟨e.later p.length, ?_, StepError.shownLater_later hn⟩
    rw [run_append_eq, Logged.outcome_andThen_eq_error_iff]
    exact .inr ⟨first, hfirst, Logged.outcome_andThen_eq_error_iff.mpr
      (.inl (Logged.outcome_mapError_eq_error_iff.mpr ⟨e, he, rfl⟩))⟩
  · obtain ⟨n, before, hlt, hbefore, hlength, hn⟩ := stepIndex_of_run_eq_error he
    exact ⟨n, before, hlt, hbefore, hlength, StepError.get?_details_stepIndex hn⟩

/-- A summary leaves the table alone and a copy is found by the steps after it; a step that looks
for a column that was never there fails, alone as step `1` and behind two more steps as step `3`. -/
theorem run_append_copies :
    let copy (source target : String) : PlannedStep :=
      ⟨.transform, .obj [("operations", .arr [.obj
        [ ("operation_type", .str "add_axis"), ("target_name", .str target),
          ("calculation", .obj [("type", .str "copy"), ("source", .str source)]) ]])]⟩
    let p : List PlannedStep := [⟨.summary, .obj []⟩, copy "region" "area"]
    let q : List PlannedStep := [copy "area" "zone", copy "gone" "zone"]
    let t : Table Float := ⟨["region"], [[.text "North"]]⟩
    (∃ first e other, (run ⟨p⟩ t .empty).outcome = .ok first ∧ first.results.length = 2 ∧
      (run ⟨q⟩ first.table .empty).outcome = .error e ∧
      (run ⟨p ++ q⟩ t .empty).outcome = .error other ∧ StepError.ShownLater 2 e other ∧
      other.stepIndex = some 3) ∧
    ∃ e, (run ⟨q⟩ t .empty).outcome = .error e ∧
      run ⟨q ++ p⟩ t .empty = ⟨[], .error e⟩ := by
  intro copy p q t
  have hp : (run ⟨p⟩ t .empty).outcome =
      .ok ⟨⟨["region", "area"], [[.text "North", .text "North"]]⟩,
        [⟨none, none, none⟩, .ofTable ⟨["region", "area"], [[.text "North", .text "North"]]⟩]⟩ := rfl
  have hq : (run ⟨q⟩ (⟨["region", "area"], [[.text "North", .text "North"]]⟩ : Table Float)
      .empty).outcome = .error ((StepError.placed (Transform.partPlace 0 "source")
        (.undefinedName "gone" ["region", "area", "zone"])).inStep 1) := rfl
  have hfails : (run ⟨q⟩ t .empty).outcome =
      .error ((StepError.placed (Transform.partPlace 0 "source")
        (.undefinedName "area" ["region"])).inStep 0) := rfl
  obtain ⟨-, hthen, hlength, -⟩ := run_append p q t .empty
  obtain ⟨other, hother, hshown⟩ := (hthen _ hp).2.2 _ hq
  refine ⟨⟨_, _, other, hp, hlength _ hp, hq, hother, hshown, ?_⟩, _, hfails,
    (run_append q p t .empty).1 _ hfails⟩
  cases hother
  rfl

end Pipeline
end TableSteps
